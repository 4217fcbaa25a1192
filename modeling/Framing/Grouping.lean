import Framing.Event
import Framing.Strategy

/-!
How a group of frames reaches the receiver: together as a batch, or each frame by itself.
-/

namespace Framing

inductive Grouping where
  | together
  | apart
  deriving DecidableEq, Repr

def Grouping.name : Grouping → String
  | together => "single"
  | apart    => "unfold"

-- The events that dispatch a result.
def Found.events {φ μ : Type} (grouping : Grouping) (source : Source) :
    Found φ → List (Event φ μ)
  | .nothing    => []
  | .frame f    => [.frame f source]
  | .group list =>
    match grouping with
    | .together => [.batch list source]
    | .apart    => list.map (.frame · source)

end Framing
