/-!
How calls come out. A call either returns, fails with an error of its own, or is cut short by a
fault: an abort that no error type announces.
-/

namespace Framing

-- What cut a call short.
inductive Fault where
  | advancePastEnd (count remaining : Nat)
  | readPastEnd (wanted remaining : Nat)
  | capacityOverflow
  | raised (text : String)
  | refused (ordinal : Nat)
  deriving DecidableEq, Repr

def Fault.message : Fault → String
  | advancePastEnd count remaining =>
    s!"cannot advance past the end of the view: {count} > {remaining}"
  | readPastEnd wanted remaining   =>
    s!"advance out of bounds: the len is {remaining} but advancing by {wanted}"
  | capacityOverflow               => "capacity overflow"
  | raised text                    => text
  | refused ordinal                => s!"downstream panic at {ordinal}"

-- How a call comes out.
inductive Outcome (ε α : Type) where
  | done (value : α)
  | failed (error : ε)
  | faulted (fault : Fault)
  deriving DecidableEq, Repr

namespace Outcome

variable {ε α β : Type}

def map (f : α → β) : Outcome ε α → Outcome ε β
  | done value    => done (f value)
  | failed error  => failed error
  | faulted fault => faulted fault

-- Whether the call came back at all, with a value or with an error.
def returns : Outcome ε α → Bool
  | faulted _ => false
  | _         => true

end Outcome
end Framing
