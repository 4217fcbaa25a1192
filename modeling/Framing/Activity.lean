import Framing.Counter
import Framing.Notice

/-!
What a decoder does beside decoding: it writes notices, counts, and requests memory.
-/

namespace Framing

inductive Activity where
  | noted (notice : Notice)
  | counted (metric : Metric) (amount : Nat)
  | requested (capacity : Nat)
  deriving DecidableEq, Repr

namespace Activity

def notice? : Activity → Option Notice
  | noted notice => some notice
  | _            => none

def increment? : Activity → Option (Metric × Nat)
  | counted metric amount => some (metric, amount)
  | _                     => none

def request? : Activity → Option Nat
  | requested capacity => some capacity
  | _                  => none

end Activity
end Framing
