import Framing.Counter

/-!
What counters read. The counters that a reader adds up come to the sum of all increments of their
metrics, as far as a word holds it.
-/

namespace Framing

namespace Metric

variable (chosen : Metric → Bool)

-- What `increments` add up to under the metrics that are `chosen`.
def amount : List (Metric × Nat) → Nat
  | []                            => 0
  | (metric, count) :: increments => (if chosen metric then count else 0) + amount increments

@[simp]
theorem amount_append (increments more : List (Metric × Nat)) :
    amount chosen (increments ++ more) = amount chosen increments + amount chosen more := by
  induction increments
  case nil => exact (Nat.zero_add _).symm
  case cons increment increments ih =>
    rw [List.cons_append, amount, amount, ih, Nat.add_assoc]

end Metric

namespace Counter

variable {name : String} {label : Option (String × String)}

-- Whether the counter of `metric` is one of those called `name`, and carries `label` where one is given.
def selects (name : String) (label : Option (String × String)) (metric : Metric) : Bool :=
  metric.name = name && label.all fun (key, value) => metric.labels.contains (key, value)

theorem total_cons (counter : Counter) (counters : List Counter) :
    total (counter :: counters) name label =
      (if selects name label counter.metric then counter.value else 0) +
        total counters name label := by
  have shift (counters : List Counter) (start : UInt64) :
      counters.foldl (fun sum counter => sum + counter.value) start =
        start + counters.foldl (fun sum counter => sum + counter.value) 0 := by
    induction counters generalizing start
    case nil => exact (UInt64.add_zero start).symm
    case cons counter counters ih =>
      simp only [List.foldl_cons]
      rw [ih, ih (0 + _), UInt64.zero_add, UInt64.add_assoc]
  have same : selects name label counter.metric =
      (decide (counter.metric.name = name) &&
        label.all fun (key, value) => counter.hasLabel key value) := rfl
  rw [same]
  simp only [total, List.filter_cons]
  split
  case isTrue  => rw [List.foldl_cons, shift, UInt64.zero_add]
  case isFalse => rw [UInt64.zero_add]

-- An increment shows in what its counter is added up to, whether or not there was one already.
theorem total_count (metric : Metric) (amount : Nat) (counters : List Counter) :
    total (count metric amount counters) name label =
      (if selects name label metric then UInt64.ofNat amount else 0) +
        total counters name label := by
  induction counters
  case nil => exact total_cons ⟨metric, UInt64.ofNat amount⟩ []
  case cons counter counters ih =>
    simp only [count]
    split
    case isTrue same =>
      subst same
      rw [total_cons, total_cons, ← UInt64.add_assoc]
      split
      case isTrue  => rw [UInt64.add_comm counter.value]
      case isFalse => rw [UInt64.add_zero]
    case isFalse => rw [total_cons, total_cons, ih, ← UInt64.add_assoc, ← UInt64.add_assoc,
        UInt64.add_comm (if selects name label counter.metric then _ else _)]

theorem total_tally (increments : List (Metric × Nat)) :
    total (tally increments) name label =
      UInt64.ofNat (Metric.amount (selects name label) increments) := by
  have further (counters : List Counter) :
      total (increments.foldl (fun counters increment => count increment.1 increment.2 counters)
          counters) name label =
        UInt64.ofNat (Metric.amount (selects name label) increments) +
          total counters name label := by
    induction increments generalizing counters
    case nil => exact (UInt64.zero_add _).symm
    case cons increment increments ih =>
      obtain ⟨metric, amount⟩ := increment
      rw [List.foldl_cons, ih, total_count, Metric.amount, UInt64.ofNat_add, ← UInt64.add_assoc,
        UInt64.add_comm (UInt64.ofNat (Metric.amount _ _))]
      cases selects name label metric <;> rfl
  exact (further []).trans (UInt64.add_zero _)

-- The name of a metric and its label, where it has one, tell it from all others.
theorem selects_iff (metric other : Metric) :
    selects metric.name metric.labels.head? other ↔ other = metric := by
  have placements (placement placement' : Placement) :
      placement.name = placement'.name ↔ placement = placement' := by
    cases placement <;> cases placement' <;> decide
  cases metric <;> cases other <;>
    simp [selects, Metric.name, Metric.labels, placements, eq_comm]

-- What a reader of the counters sees under `metric`.
def reading (metric : Metric) (increments : List (Metric × Nat)) : UInt64 :=
  total (tally increments) metric.name metric.labels.head?

theorem reading_eq (metric : Metric) (increments : List (Metric × Nat)) :
    reading metric increments = UInt64.ofNat (Metric.amount (· = metric) increments) := by
  have same : selects metric.name metric.labels.head? = fun other => decide (other = metric) :=
    funext fun other => Bool.eq_iff_iff.mpr ((selects_iff metric other).trans decide_eq_true_iff.symm)
  rw [reading, total_tally, same]

end Counter
end Framing
