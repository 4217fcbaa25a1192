import Framing.Bytes
import Mathlib.Algebra.Group.Nat.Defs
import Mathlib.Data.List.Induction
import Mathlib.Data.List.Infix

/-!
First occurrences. An occurrence that is found stays the first one when more bytes follow, and when
bytes before it are taken away. Beside that, the digits of a number spell it, and bytes are the digits
of the number that they spell.
-/

namespace Framing.Bytes

variable {needle bytes : Bytes} {index : Nat}

theorem offsetOf?_cons (needle : Bytes) (byte : UInt8) (rest : Bytes) :
    offsetOf? (byte :: rest) needle =
      if needle <+: byte :: rest then some 0 else (offsetOf? rest needle).map (1 + ·) := by
  simp only [offsetOf?, offsetFrom?, List.isPrefixOf_iff_prefix]
  split
  case isTrue  => rfl
  case isFalse => exact offsetFrom?_eq_map ..

theorem offsetOf?_eq_some_iff (nonempty : needle ≠ []) : offsetOf? bytes needle = some index ↔
    needle <+: bytes.drop index ∧ ∀ earlier < index, ¬needle <+: bytes.drop earlier := by
  induction bytes generalizing index
  case nil => simp [offsetOf?, offsetFrom?, nonempty]
  case cons byte rest ih =>
    rw [offsetOf?_cons]
    split
    case isTrue here =>
      constructor
      case mp =>
        rintro ⟨⟩
        exact ⟨here, fun _ lt => absurd lt (Nat.not_lt_zero _)⟩
      case mpr =>
        rintro ⟨_, first⟩
        cases index
        case zero => rfl
        case succ => exact absurd here (first 0 (Nat.succ_pos _))
    case isFalse elsewhere =>
      cases index
      case zero => simp [elsewhere]
      case succ index =>
        have shift : (offsetOf? rest needle).map (1 + ·) = some (index + 1) ↔
            offsetOf? rest needle = some index := by
          simp [Nat.add_comm]
        rw [shift, ih, List.drop_succ_cons]
        refine and_congr_right fun _ => ⟨fun first earlier lt => ?_, fun first earlier lt => ?_⟩
        · cases earlier
          case zero         => exact elsewhere
          case succ earlier => exact first earlier (Nat.lt_of_succ_lt_succ lt)
        · exact first (earlier + 1) (Nat.succ_lt_succ lt)

theorem offsetOf?_eq_none_iff (nonempty : needle ≠ []) :
    offsetOf? bytes needle = none ↔ ∀ index, ¬needle <+: bytes.drop index := by
  induction bytes
  case nil => simp [offsetOf?, offsetFrom?, nonempty]
  case cons byte rest ih =>
    rw [offsetOf?_cons]
    split
    case isTrue here       => exact iff_of_false (Option.some_ne_none _) fun nowhere => nowhere 0 here
    case isFalse elsewhere =>
      rw [Option.map_eq_none_iff, ih]
      constructor
      case mp =>
        intro nowhere index
        cases index
        case zero       => exact elsewhere
        case succ index => exact nowhere index
      case mpr => exact fun nowhere index => nowhere (index + 1)

theorem offsetOf?_nil (nonempty : needle ≠ []) : offsetOf? [] needle = none := by
  simp [offsetOf?, offsetFrom?, nonempty]

theorem offsetOf?_drop_eq_none (nonempty : needle ≠ []) (h : offsetOf? bytes needle = none)
    (count : Nat) : offsetOf? (bytes.drop count) needle = none := by
  rw [offsetOf?_eq_none_iff nonempty] at h ⊢
  intro index
  rw [List.drop_drop]
  exact h _

theorem length_le_of_offsetOf? (nonempty : needle ≠ []) (h : offsetOf? bytes needle = some index) :
    index + needle.length ≤ bytes.length := by
  have le := ((offsetOf?_eq_some_iff nonempty).mp h).1.length_le
  rw [List.length_drop] at le
  have positive := List.length_pos_iff.mpr nonempty
  omega

theorem take_add_of_offsetOf? (nonempty : needle ≠ []) (h : offsetOf? bytes needle = some index) :
    bytes.take (index + needle.length) = bytes.take index ++ needle := by
  have occurs := ((offsetOf?_eq_some_iff nonempty).mp h).1
  rw [List.take_add, ← List.prefix_iff_eq_take.mp occurs]

theorem take_append_drop_of_offsetOf? (nonempty : needle ≠ [])
    (h : offsetOf? bytes needle = some index) :
    bytes.take index ++ needle ++ bytes.drop (index + needle.length) = bytes := by
  rw [← take_add_of_offsetOf? nonempty h, List.take_append_drop]

-- What comes behind the first occurrence has no part in it.
theorem offsetOf?_take_append (nonempty : needle ≠ []) (h : offsetOf? bytes needle = some index) :
    offsetOf? (bytes.take index ++ needle) needle = some (bytes.take index).length := by
  have le := length_le_of_offsetOf? nonempty h
  have size : (bytes.take index).length = index := List.length_take_of_le (by omega)
  rw [offsetOf?_eq_some_iff nonempty]
  constructor
  case left => rw [List.drop_left]
  case right =>
    intro earlier lt occurs
    rw [size] at lt
    rw [← take_add_of_offsetOf? nonempty h] at occurs
    exact ((offsetOf?_eq_some_iff nonempty).mp h).2 earlier lt
      (occurs.trans ((List.take_prefix _ _).drop earlier))

-- What comes before the first occurrence has no part in it, either.
theorem offsetOf?_take_eq_none (nonempty : needle ≠ []) (h : offsetOf? bytes needle = some index) :
    offsetOf? (bytes.take index) needle = none := by
  rw [offsetOf?_eq_none_iff nonempty]
  intro earlier occurs
  have le := occurs.length_le
  rw [List.length_drop, List.length_take] at le
  have positive := List.length_pos_iff.mpr nonempty
  exact ((offsetOf?_eq_some_iff nonempty).mp h).2 earlier (by omega)
    (occurs.trans ((List.take_prefix _ _).drop earlier))

-- Bytes may be passed over at which the needle does not occur.
theorem offsetOf?_eq_map_drop {passed : Nat} (nonempty : needle ≠ [])
    (nowhere : ∀ earlier < passed, ¬needle <+: bytes.drop earlier) :
    offsetOf? bytes needle = (offsetOf? (bytes.drop passed) needle).map (passed + ·) := by
  cases behind : offsetOf? (bytes.drop passed) needle
  case none =>
    rw [Option.map_none, offsetOf?_eq_none_iff nonempty]
    rw [offsetOf?_eq_none_iff nonempty] at behind
    intro index occurs
    by_cases lt : index < passed
    case pos => exact nowhere index lt occurs
    case neg =>
      refine behind (index - passed) ?_
      rwa [List.drop_drop, Nat.add_sub_cancel' (Nat.le_of_not_lt lt)]
  case some index =>
    rw [offsetOf?_eq_some_iff nonempty, List.drop_drop] at behind
    have ⟨occurs, first⟩ := behind
    rw [Option.map_some, offsetOf?_eq_some_iff nonempty]
    refine ⟨occurs, fun earlier lt occurs' => ?_⟩
    by_cases passed_le : passed ≤ earlier
    case neg => exact nowhere earlier (Nat.lt_of_not_le passed_le) occurs'
    case pos =>
      refine first (earlier - passed) (by omega) ?_
      rwa [List.drop_drop, Nat.add_sub_cancel' passed_le]

theorem not_prefix_drop_append {more : Bytes} (nonempty : needle ≠ [])
    (h : offsetOf? bytes needle = none) (le : index + needle.length ≤ bytes.length) :
    ¬needle <+: (bytes ++ more).drop index := by
  intro occurs
  refine (offsetOf?_eq_none_iff nonempty).mp h index ?_
  refine List.prefix_of_prefix_length_le occurs ((List.prefix_append _ _).drop index) ?_
  rw [List.length_drop]
  omega

-- Where more bytes are needed for an occurrence, it ends in these.
theorem lt_of_offsetOf?_append {more : Bytes} (nonempty : needle ≠ [])
    (h : offsetOf? bytes needle = none) (h' : offsetOf? (bytes ++ more) needle = some index) :
    bytes.length < index + needle.length := by
  have ⟨occurs, _⟩ := (offsetOf?_eq_some_iff nonempty).mp h'
  exact Nat.lt_of_not_le fun le => not_prefix_drop_append nonempty h le occurs

-- Where the needle does not occur, all may be passed over but as much as it may have begun in.
theorem offsetOf?_append_of_none {passed : Nat} (nonempty : needle ≠ [])
    (h : offsetOf? bytes needle = none) (le : passed ≤ bytes.length - (needle.length - 1))
    (more : Bytes) : offsetOf? (bytes ++ more) needle =
      (offsetOf? (bytes.drop passed ++ more) needle).map (passed + ·) := by
  have positive := List.length_pos_iff.mpr nonempty
  rw [← List.drop_append_of_le_length (by omega)]
  refine offsetOf?_eq_map_drop nonempty fun earlier lt occurs => ?_
  exact not_prefix_drop_append nonempty h (by omega) occurs

section Ending

variable {body : Bytes} {passed : Nat} (nonempty : needle ≠ [])
variable (first : offsetOf? (body ++ needle) needle = some body.length)
include nonempty first

-- The needle first occurs at the end of something, so it occurs nowhere before that.
theorem not_prefix_drop (lt : passed + index < body.length) :
    ¬needle <+: ((body ++ needle).drop passed).drop index := by
  rw [List.drop_drop]
  exact ((offsetOf?_eq_some_iff nonempty).mp first).2 _ lt

theorem offsetOf?_of_complete (passed_le : passed ≤ body.length)
    (complete : (body ++ needle).drop passed <+: bytes) :
    offsetOf? bytes needle = some (body.length - passed) := by
  rw [offsetOf?_eq_some_iff nonempty]
  constructor
  case left =>
    have occurs := complete.drop (body.length - passed)
    rwa [List.drop_drop, Nat.add_sub_cancel' passed_le, List.drop_left] at occurs
  case right =>
    intro earlier lt occurs
    refine not_prefix_drop nonempty first (Nat.add_lt_of_lt_sub' lt) ?_
    refine List.prefix_of_prefix_length_le occurs (complete.drop earlier) ?_
    simp only [List.length_drop, List.length_append]
    omega

theorem offsetOf?_of_incomplete (incomplete : bytes <+: (body ++ needle).drop passed)
    (short : passed + bytes.length < body.length + needle.length) :
    offsetOf? bytes needle = none := by
  rw [offsetOf?_eq_none_iff nonempty]
  intro index occurs
  have le := occurs.length_le
  rw [List.length_drop] at le
  have positive := List.length_pos_iff.mpr nonempty
  refine not_prefix_drop nonempty first ?_ (occurs.trans (incomplete.drop index))
  omega

end Ending

section Number

variable {width number : Nat}

theorem toNat_concat (bytes : Bytes) (byte : UInt8) :
    toNat (bytes ++ [byte]) = toNat bytes * 256 + byte.toNat := by
  simp [toNat]

theorem toNat_ofNat (fits : number < 256 ^ width) : toNat (ofNat width number) = number := by
  induction width generalizing number
  case zero =>
    rw [Nat.pow_zero] at fits
    exact (Nat.lt_one_iff.mp fits).symm
  case succ width ih =>
    have quotient : number / 256 < 256 ^ width := by
      rw [Nat.div_lt_iff_lt_mul (by decide), ← Nat.pow_succ]
      exact fits
    rw [ofNat, toNat_concat, ih quotient, UInt8.toNat_ofNat']
    exact Nat.div_add_mod' number 256

-- Each digit says how much the number exceeds what those before it spell.
theorem ofNat_toNat (bytes : Bytes) : ofNat bytes.length (toNat bytes) = bytes := by
  induction bytes using List.reverseRecOn
  case nil => rfl
  case append_singleton bytes byte ih =>
    have lt := byte.toNat_lt
    have quotient : (toNat bytes * 256 + byte.toNat) / 256 = toNat bytes := by omega
    have digit : UInt8.ofNat (toNat bytes * 256 + byte.toNat) = byte := by
      rw [← UInt8.toNat_inj, UInt8.toNat_ofNat']
      omega
    rw [List.length_append, List.length_singleton, ofNat, toNat_concat, quotient, ih, digit]

theorem toNat_lt (bytes : Bytes) : toNat bytes < 256 ^ bytes.length := by
  induction bytes using List.reverseRecOn
  case nil => exact Nat.one_pos
  case append_singleton bytes byte ih =>
    have lt := byte.toNat_lt
    rw [List.length_append, List.length_singleton, toNat_concat, Nat.pow_succ]
    omega

end Number

end Framing.Bytes
