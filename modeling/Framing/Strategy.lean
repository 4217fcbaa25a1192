import Framing.Cursor
import Framing.Notice

/-!
Decode strategies. A strategy is shown the unread bytes of a stream and answers with a result and
with how many of the bytes it consumed; it may keep state from one invocation to the next.
-/

namespace Framing

variable {σ τ φ ε : Type}

-- What an invocation found in the bytes: nothing, a frame, or a group of frames as one result.
inductive Found (φ : Type) where
  | nothing
  | frame (frame : φ)
  | group (frames : List φ)
  deriving DecidableEq, Repr

namespace Found

def isResult : Found φ → Bool
  | nothing => false
  | _       => true

def frames : Found φ → List φ
  | nothing    => []
  | frame f    => [f]
  | group list => list

end Found

-- What a strategy may know about the stream besides its bytes. There are no more results than bytes, but
-- for one at the end, so that their number fits a 64-bit word unless the stream is as long as that.
structure Context where
  source  : Source := none
  ending  : Bool   := false
  results : Nat    := 0
  deriving DecidableEq, Repr

-- One invocation of a strategy, as it came out. The state and the cursor are those that the
-- strategy left behind, also where it failed.
structure Invocation (σ φ ε : Type) where
  outcome  : Outcome ε (Found φ)
  consumed : Nat
  state    : σ
  notices  : List Notice := []

-- A strategy with states `σ`, frames `φ` and errors `ε`. `conclude` is invoked once, on the bytes
-- that are left over when the stream has ended. The cursor never leaves the bytes that are shown.
structure Strategy (σ φ ε : Type) where
  decode               : σ → Context → Bytes → Invocation σ φ ε
  conclude             : σ → Context → Bytes → Invocation σ φ ε
  decode_consumed_le   : ∀ state context unread,
    (decode state context unread).consumed ≤ unread.length
  conclude_consumed_le : ∀ state context unread,
    (conclude state context unread).consumed ≤ unread.length

namespace Strategy

-- The strategy that treats the end of the stream like any other moment.
def uniform (decode : σ → Context → Bytes → Invocation σ φ ε)
    (h : ∀ state context unread, (decode state context unread).consumed ≤ unread.length) :
    Strategy σ φ ε where
  decode               := decode
  conclude             := decode
  decode_consumed_le   := h
  conclude_consumed_le := h

-- The strategy that leaves the end of the stream to `last`, which has a state of its own.
def concludingWith (ordinary : Strategy σ φ ε) (last : Strategy τ φ ε) :
    Strategy (σ × τ) φ ε where
  decode := fun (state, other) context unread =>
    let invocation := ordinary.decode state context unread
    { invocation with state := (invocation.state, other) }
  conclude := fun (other, state) context unread =>
    let invocation := last.conclude state context unread
    { invocation with state := (other, invocation.state) }
  decode_consumed_le   := fun _ => ordinary.decode_consumed_le _
  conclude_consumed_le := fun _ => last.conclude_consumed_le _

-- A box that holds one of `strategies` with its state, and leaves everything to it.
def boxed {ι : Type} {κ : ι → Type} (strategies : ∀ i, Strategy (κ i) φ ε) :
    Strategy (Σ i, κ i) φ ε where
  decode := fun ⟨i, state⟩ context unread =>
    let invocation := (strategies i).decode state context unread
    { invocation with state := ⟨i, invocation.state⟩ }
  conclude := fun ⟨i, state⟩ context unread =>
    let invocation := (strategies i).conclude state context unread
    { invocation with state := ⟨i, invocation.state⟩ }
  decode_consumed_le   := fun ⟨i, _⟩ => (strategies i).decode_consumed_le _
  conclude_consumed_le := fun ⟨i, _⟩ => (strategies i).conclude_consumed_le _

end Strategy
end Framing
