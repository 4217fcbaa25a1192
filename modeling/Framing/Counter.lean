import Framing.Retention.Placement

/-!
Counters: what is counted, under which name and labels, and the totals that a reader of the counters
sees. A counter is a 64-bit word and exists from its first increment on.
-/

namespace Framing

-- What is counted.
inductive Metric where
  | frames
  | errors (kind : String)
  | allocations (placement : Placement)
  deriving DecidableEq, Repr

namespace Metric

def name : Metric → String
  | frames        => "framestream_frames_decoded_total"
  | errors _      => "framestream_decode_errors_total"
  | allocations _ => "framestream_cumulation_allocations_total"

def labels : Metric → List (String × String)
  | frames                => []
  | errors kind           => [("type", kind)]
  | allocations placement => [("policy", placement.name)]

-- The increment for dispatched frames; a dispatch without frames counts nothing.
def dispatched (count : Nat) : List (Metric × Nat) :=
  if count = 0 then [] else [(frames, count)]

end Metric

structure Counter where
  metric : Metric
  value  : UInt64
  deriving DecidableEq, Repr

namespace Counter

def hasLabel (counter : Counter) (key value : String) : Bool :=
  counter.metric.labels.contains (key, value)

-- Adds `amount` to the counter of `metric`, which comes to be if it is not there yet.
def count (metric : Metric) (amount : Nat) : List Counter → List Counter
  | []                  => [⟨metric, UInt64.ofNat amount⟩]
  | counter :: counters =>
    if counter.metric = metric then
      { counter with value := counter.value + UInt64.ofNat amount } :: counters
    else
      counter :: count metric amount counters

-- The counters after `increments`, in the order in which they came to be.
def tally (increments : List (Metric × Nat)) : List Counter :=
  increments.foldl (fun counters (metric, amount) => count metric amount counters) []

-- What a counter is called, its name before its labels.
def key (counter : Counter) : List String :=
  counter.metric.name :: counter.metric.labels.map fun (key, value) => s!"{key}={value}"

-- The counters by name, and those of one name by their labels.
def sorted (counters : List Counter) : List Counter :=
  counters.mergeSort fun a b => (List.compareLex String.instOrd.compare a.key b.key).isLE

-- The sum of the counters of one name, of those that carry `label` where one is given.
def total (counters : List Counter) (name : String) (label : Option (String × String)) : UInt64 :=
  counters.filter (fun counter => counter.metric.name = name
      && label.all fun (key, value) => counter.hasLabel key value)
    |>.foldl (fun sum counter => sum + counter.value) 0

end Counter
end Framing
