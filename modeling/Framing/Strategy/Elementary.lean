import Framing.Strategy

/-!
Elementary strategies: a cut into pieces of one size, a cut into single bytes, and those that return
one and the same result without looking.
-/

namespace Framing.Strategy

variable {φ ε : Type}

-- The next `size` bytes of `unread` as a frame, or all of `rest` where there are not that many.
def nextPiece (ε : Type) (size : Nat) (unread rest : Bytes) : Invocation Unit Bytes ε :=
  if size ≤ unread.length then
    { outcome := .done (.frame (unread.take size)), consumed := size, state := () }
  else if rest = [] then
    { outcome := .done .nothing, consumed := 0, state := () }
  else
    { outcome := .done (.frame rest), consumed := rest.length, state := () }

theorem nextPiece_consumed_le {size : Nat} {unread rest : Bytes}
    (h : rest.length ≤ unread.length) : (nextPiece ε size unread rest).consumed ≤ unread.length := by
  unfold nextPiece
  split
  · assumption
  · split
    · exact Nat.zero_le _
    · exact h

-- Every `size` bytes are a frame, and what is left at the end of the stream is the last one.
def pieces (ε : Type) (size : Nat) : Strategy Unit Bytes ε where
  decode   := fun _ _ unread => nextPiece ε size unread []
  conclude := fun _ _ unread => nextPiece ε size unread unread
  decode_consumed_le _ _ _   := nextPiece_consumed_le (Nat.zero_le _)
  conclude_consumed_le _ _ _ := nextPiece_consumed_le (Nat.le_refl _)

-- All there is becomes one group, with a frame for each byte.
def bytewise (ε : Type) : Strategy Unit UInt8 ε :=
  uniform
    (fun _ _ unread =>
      { outcome  := .done (if unread = [] then .nothing else .group unread)
        consumed := unread.length
        state    := () })
    (fun _ _ _ => Nat.le_refl _)

-- Comes out as `outcome` each time, and leaves all the bytes unread.
def constant (outcome : Outcome ε (Found φ)) : Strategy Unit φ ε :=
  uniform
    (fun _ _ _ => { outcome, consumed := 0, state := () })
    (fun _ _ _ => Nat.zero_le _)

end Framing.Strategy
