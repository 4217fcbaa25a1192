import Framing.Cursor
import Framing.Proofs.Bytes

/-!
Searches from a cursor. What is found is the first occurrence behind the cursor, it stays that when more
bytes follow, and where nothing is found an occurrence can begin only in the last of the bytes.
-/

namespace Framing

namespace Bytes

variable {needle bytes : Bytes} {index : Nat}

theorem take_drop_eq_iff :
    (bytes.drop index).take needle.length = needle ↔ needle <+: bytes.drop index :=
  eq_comm.trans List.prefix_iff_eq_take.symm

theorem offsetOf?_empty (bytes : Bytes) : offsetOf? bytes [] = some 0 := by
  cases bytes <;> rfl

-- An occurrence that is found is complete.
theorem offsetOf?_append_of_some (nonempty : needle ≠ []) (h : offsetOf? bytes needle = some index)
    (more : Bytes) : offsetOf? (bytes ++ more) needle = some index := by
  have le := length_le_of_offsetOf? nonempty h
  have size : (bytes.take index).length = index := List.length_take_of_le (by omega)
  have complete : (bytes.take index ++ needle).drop 0 <+: bytes ++ more := by
    rw [List.drop_zero, ← take_add_of_offsetOf? nonempty h]
    exact (List.take_prefix ..).trans (List.prefix_append ..)
  have found := offsetOf?_of_complete nonempty (offsetOf?_take_append nonempty h) (Nat.zero_le _)
    complete
  rwa [Nat.sub_zero, size] at found

-- The runs of `width` bytes, one for each offset at which there are so many.
def windows (width : Nat) (bytes : Bytes) : List Bytes :=
  (List.range (bytes.length + 1 - width)).map fun index => (bytes.drop index).take width

-- To look for the needle is to look for the first window that equals it.
theorem findIdx?_windows (nonempty : needle ≠ []) (bytes : Bytes) :
    (windows needle.length bytes).findIdx? (· = needle) = offsetOf? bytes needle := by
  have positive := List.length_pos_iff.mpr nonempty
  cases somewhere : offsetOf? bytes needle
  case none =>
    rw [offsetOf?_eq_none_iff nonempty] at somewhere
    rw [List.findIdx?_eq_none_iff]
    intro window mem
    obtain ⟨index, _, rfl⟩ := List.mem_map.mp mem
    simpa [take_drop_eq_iff] using somewhere index
  case some index =>
    have le := length_le_of_offsetOf? nonempty somewhere
    have ⟨occurs, first⟩ := (offsetOf?_eq_some_iff nonempty).mp somewhere
    rw [List.findIdx?_eq_some_iff_getElem]
    refine ⟨by simp only [windows, List.length_map, List.length_range]; omega, ?_, ?_⟩
    · simpa [windows, take_drop_eq_iff] using occurs
    · intro earlier lt
      simpa [windows, take_drop_eq_iff] using first earlier lt

end Bytes

namespace Cursor

variable {bytes : Bytes}

-- The bytes before the cursor have no part in this, so `longer` may be over any bytes that go on for
-- longer behind it. An occurrence there that begins earlier would have been found.
theorem find?_first (cursor : Cursor bytes) {needle : Bytes} (nonempty : needle ≠ []) :
    (∀ index, cursor.find? needle = some index ↔
      index + needle.length ≤ cursor.remaining ∧
      (cursor.unread.drop index).take needle.length = needle ∧
      ∀ earlier < index, (cursor.unread.drop earlier).take needle.length ≠ needle) ∧
    (cursor.find? needle = none ↔
      ∀ index, (cursor.unread.drop index).take needle.length ≠ needle) ∧
    (cursor.remaining < needle.length → cursor.find? needle = none) ∧
    ∀ {bytes' : Bytes} (longer : Cursor bytes') (more : Bytes),
      longer.unread = cursor.unread ++ more →
      (∀ index, cursor.find? needle = some index → longer.find? needle = some index) ∧
      (cursor.find? needle = none →
        ∀ index, (longer.unread.drop index).take needle.length = needle →
          cursor.remaining - (needle.length - 1) ≤ index) := by
  have nowhere : cursor.unread.offsetOf? needle = none ↔
      ∀ index, ¬needle <+: cursor.unread.drop index :=
    Bytes.offsetOf?_eq_none_iff nonempty
  simp only [find?, ne_eq, Bytes.take_drop_eq_iff, ← cursor.length_unread]
  refine ⟨fun index => ⟨fun found => ?_, fun ⟨_, occurs⟩ => ?_⟩, nowhere, fun short => ?_,
    fun longer more goes_on => ⟨fun index found => ?_, fun none_found index occurs => ?_⟩⟩
  · exact ⟨Bytes.length_le_of_offsetOf? nonempty found,
      (Bytes.offsetOf?_eq_some_iff nonempty).mp found⟩
  · exact (Bytes.offsetOf?_eq_some_iff nonempty).mpr occurs
  · refine nowhere.mpr fun index occurs => ?_
    have le := occurs.length_le
    rw [List.length_drop] at le
    omega
  · rw [goes_on]
    exact Bytes.offsetOf?_append_of_some nonempty found more
  · rw [goes_on] at occurs
    have late : ¬index + needle.length ≤ cursor.unread.length :=
      fun le => Bytes.not_prefix_drop_append nonempty none_found le occurs
    omega

-- The needle overlaps with itself. It is found, behind the cursor, where it first occurs; and where all
-- but its last byte is there already, it is found in the bytes that follow, and no earlier.
theorem find?_first_of_overlapping :
    let needle : Bytes := [1, 2, 1]
    let cursor : Cursor [1, 2, 1, 2, 1, 2, 1] := ⟨1, by decide⟩
    let early  : Cursor [0, 1, 2] := .start _
    let longer : Cursor [1, 0, 1, 2, 1, 2, 1] := ⟨1, by decide⟩
    needle ≠ [] ∧ cursor.find? needle = some 1 ∧ early.find? needle = none ∧
    longer.unread = early.unread ++ [1, 2, 1] ∧ longer.find? needle = some 1 ∧
    ∀ index, (longer.unread.drop index).take needle.length = needle → 1 ≤ index := by
  intro needle cursor early longer
  have nonempty : needle ≠ [] := nofun
  have ⟨first, _⟩ := find?_first cursor nonempty
  have ⟨_, _, _, goes_on⟩ := find?_first early nonempty
  have found : cursor.find? needle = some 1 := (first 1).mpr (by decide)
  have none_found : early.find? needle = none := by decide
  have same : longer.unread = early.unread ++ [1, 2, 1] := rfl
  exact ⟨nonempty, found, none_found, same, by decide, (goes_on longer _ same).2 none_found⟩

end Cursor
end Framing
