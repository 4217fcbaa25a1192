import Framing.Proofs.Delimited.Pass
import Framing.Proofs.LengthPrefixed.Encoding

/-!
The formats with 64-bit arithmetic. Where a sum or a difference of lengths would not be a word of 64
bits, an attempt breaks off; but whatever the formats are shown, all of theirs are such words.
-/

namespace Framing

namespace Attempt

variable {σ ε α β : Type} {bytes : Bytes} {bench : Bench σ bytes} {m n : Nat}

def sum (m n : Nat) : Attempt σ ε bytes Nat :=
  if m + n < 2 ^ 64 then pure (m + n) else fault (.raised "attempt to add with overflow")

def difference (m n : Nat) : Attempt σ ε bytes Nat :=
  if n ≤ m then pure (m - n) else fault (.raised "attempt to subtract with overflow")

theorem sum_eq (h : m + n < 2 ^ 64) : (sum m n : Attempt σ ε bytes Nat) = pure (m + n) :=
  if_pos h

theorem difference_eq (h : n ≤ m) : (difference m n : Attempt σ ε bytes Nat) = pure (m - n) :=
  if_pos h

theorem pure_bind (value : α) (next : α → Attempt σ ε bytes β) : pure value >>= next = next value :=
  rfl

-- How an attempt goes on matters only where it has got that far.
theorem bind_congr {attempt : Attempt σ ε bytes α} {next next' : α → Attempt σ ε bytes β}
    (same : ∀ value bench', attempt bench = (.done value, bench') →
      next value bench' = next' value bench') :
    (attempt >>= next) bench = (attempt >>= next') bench := by
  rcases read : attempt bench with ⟨outcome, bench'⟩
  cases outcome
  case done value       => rw [bind_of_done _ read, bind_of_done _ read, same value bench' read]
  case failed | faulted => simp only [bind, read]

end Attempt

namespace LengthPrefixed

variable {unread : Bytes} (format : LengthPrefixed)

def checkedDecode : Attempt Unit FramingError unread (Found Bytes) := do
  match ← format.announced with
  | none      => return .nothing
  | some size =>
    if (← Attempt.cursor).remaining < (← Attempt.sum headerSize size) then
      return .nothing
    else
      Attempt.advance headerSize
      return .frame (← Attempt.copy size)

def checkedConclude : Attempt Unit FramingError unread (Found Bytes) := do
  if (← Attempt.cursor).remaining = 0 then
    return .nothing
  else
    let found ← format.checkedDecode
    if found.isResult then
      return found
    else
      let received := (← Attempt.cursor).remaining
      match ← format.announced with
      | some expected =>
        Attempt.fail (.partialPayload (← Attempt.difference received headerSize) expected)
      | none          => Attempt.fail (.partialHeader received headerSize)

-- Only a header that is all there announces anything, and reading it does not consume it.
theorem announced?_of_announced {bench bench' : Attempt.Bench Unit unread} {size : Nat}
    (read : format.announced bench = (.done (some size), bench')) :
    announced? bench.cursor.unread = some size := by
  cases announced : announced? bench.cursor.unread
  case none => cases (announced_of_none announced).symm.trans read
  case some size' =>
    by_cases within : size' ≤ format.limit
    case pos =>
      cases (announced_of_within announced within).symm.trans read
      rfl
    case neg =>
      cases (announced_of_exceeds announced (Nat.lt_of_not_le within)).symm.trans read

-- A header has room for lengths below 2 ^ 32 only.
theorem checkedDecode_eq :
    format.checkedDecode = (format.decode : Attempt Unit FramingError unread (Found Bytes)) := by
  funext bench
  refine Attempt.bind_congr fun size? bench' read => ?_
  cases size?
  case none      => rfl
  case some size =>
    have short := announced_lt (format.announced?_of_announced read)
    have fits : headerSize + size < 2 ^ 64 := by
      rw [headerSize]
      omega
    simp only [Attempt.sum_eq fits, Attempt.pure_bind]

-- Where a payload is announced, its header has been received.
theorem checkedConclude_eq : format.checkedConclude =
    (format.conclude : Attempt Unit FramingError unread (Found Bytes)) := by
  funext bench
  simp only [checkedConclude, conclude, checkedDecode_eq, Attempt.bind_cursor]
  split
  case isTrue  => rfl
  case isFalse =>
    refine Attempt.bind_congr fun found bench₁ _ => ?_
    split
    case isTrue  => rfl
    case isFalse =>
      rw [Attempt.bind_cursor, Attempt.bind_cursor]
      refine Attempt.bind_congr fun size? bench₂ read => ?_
      cases size?
      case none          => rfl
      case some expected =>
        have received := headerSize_le_of_announced (format.announced?_of_announced read)
        rw [Cursor.length_unread] at received
        simp only [Attempt.difference_eq received, Attempt.pure_bind]

end LengthPrefixed

namespace Delimited

variable {unread : Bytes} (format : Delimited)

def checkedDecode : Attempt Bool FramingError unread (Found Bytes) := do
  let width := format.delimiter.length
  let cursor ← Attempt.cursor
  let skipping ← Attempt.state
  match cursor.find? format.delimiter with
  | none       =>
    let size := cursor.remaining
    if skipping then
      Attempt.advance (size - (← Attempt.difference width 1))
      return .nothing
    else if size ≤ format.limit then
      return .nothing
    else if format.skipOversized then
      Attempt.setState true
      format.skip (size - (← Attempt.difference width 1))
    else
      Attempt.fail (.oversized size format.limit)
  | some index =>
    if skipping then
      Attempt.setState false
      Attempt.advance (← Attempt.sum index width)
      return .nothing
    else if index ≤ format.limit then
      if format.keepDelimiter then
        return .frame (← Attempt.copy (← Attempt.sum index width))
      else
        let frame ← Attempt.copy index
        Attempt.advance width
        return .frame frame
    else if format.skipOversized then
      format.skip (← Attempt.sum index width)
    else
      Attempt.fail (.oversized index format.limit)

def checkedConclude : Attempt Bool FramingError unread (Found Bytes) := do
  let found ← format.checkedDecode
  let left := (← Attempt.cursor).remaining
  if found.isResult || left = 0 || (← Attempt.state) then
    return found
  else if format.acceptTail then
    return .frame (← Attempt.copy left)
  else
    Attempt.fail (.unterminated left)

-- A delimiter that is found lies within the bytes that are shown.
theorem checkedDecode_eq (short : unread.length < 2 ^ 64) :
    format.checkedDecode = (format.decode : Attempt Bool FramingError unread (Found Bytes)) := by
  funext bench
  have width : 1 ≤ format.delimiter.length := List.length_pos_iff.mpr format.delimiter_ne_nil
  simp only [checkedDecode, decode, Attempt.bind_cursor, Attempt.bind_state]
  cases somewhere : bench.cursor.find? format.delimiter
  case none       => simp only [Attempt.difference_eq width, Attempt.pure_bind]
  case some index =>
    have le := Bytes.length_le_of_offsetOf? format.delimiter_ne_nil somewhere
    rw [Cursor.length_unread, Cursor.remaining] at le
    have fits : index + format.delimiter.length < 2 ^ 64 := by omega
    simp only [Attempt.sum_eq fits, Attempt.pure_bind]

theorem checkedConclude_eq (short : unread.length < 2 ^ 64) : format.checkedConclude =
    (format.conclude : Attempt Bool FramingError unread (Found Bytes)) := by
  rw [checkedConclude, conclude, format.checkedDecode_eq short]

end Delimited
end Framing
