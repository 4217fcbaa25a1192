import Framing.Event
import Framing.Outcome

/-!
Receivers of events.
-/

namespace Framing

-- What becomes of an event: a receiver may be gone, and may break off instead of accepting.
inductive Reception where
  | accepted
  | discarded
  | refused (fault : Fault)
  deriving DecidableEq, Repr

-- A receiver may treat each event in its own way, so that what it does depends on how many events
-- went before.
structure Receiver (φ μ : Type) where
  receive : (ordinal : Nat) → Event φ μ → Reception

namespace Receiver

variable {φ μ : Type}

-- Accepts everything.
def collecting : Receiver φ μ where
  receive _ _ := .accepted

-- Is not there any more.
def gone : Receiver φ μ where
  receive _ _ := .discarded

-- Breaks off at the events with the given ordinals.
def refusingAt (ordinals : List Nat) (receiver : Receiver φ μ) : Receiver φ μ where
  receive ordinal event :=
    if ordinals.contains ordinal then
      .refused (.refused ordinal)
    else
      receiver.receive ordinal event

end Receiver
end Framing
