import Framing.Activity
import Framing.Receiver
import Framing.Strategy

/-!
Traces: everything that a decoder does, in order. The events, the invocations, the notices, the
counts and the requests of a run are all read off its trace.
-/

namespace Framing

variable {φ ε μ : Type}

namespace Trace

-- An invocation as it took place, the one at the end of the stream if `last`.
structure Invoked (φ ε : Type) where
  last     : Bool
  context  : Context
  unread   : Bytes
  outcome  : Outcome ε (Found φ)
  consumed : Nat
  deriving DecidableEq, Repr

inductive Entry (φ ε μ : Type) where
  | activity (activity : Activity)
  | invoked (invocation : Invoked φ ε)
  | handed (event : Event φ μ) (reception : Reception)
  deriving DecidableEq, Repr

namespace Entry

def activity? : Entry φ ε μ → Option Activity
  | activity a => some a
  | _          => none

def invocation? : Entry φ ε μ → Option (Invoked φ ε)
  | invoked i => some i
  | _         => none

-- The event that was handed over, whatever became of it.
def event? : Entry φ ε μ → Option (Event φ μ)
  | handed event _ => some event
  | _              => none

def accepted? : Entry φ ε μ → Option (Event φ μ)
  | handed event .accepted => some event
  | _                      => none

end Entry
end Trace

-- What a decoder did, from the first entry to the latest.
abbrev Trace (φ ε μ : Type) := Array (Trace.Entry φ ε μ)

namespace Trace

variable (trace : Trace φ ε μ)

def invocations : List (Invoked φ ε) :=
  trace.toList.filterMap Entry.invocation?

def events : List (Event φ μ) :=
  trace.toList.filterMap Entry.event?

def accepted : List (Event φ μ) :=
  trace.toList.filterMap Entry.accepted?

def activities : List Activity :=
  trace.toList.filterMap Entry.activity?

def notices : List Notice :=
  trace.activities.filterMap Activity.notice?

def increments : List (Metric × Nat) :=
  trace.activities.filterMap Activity.increment?

def requests : List Nat :=
  trace.activities.filterMap Activity.request?

end Trace
end Framing
