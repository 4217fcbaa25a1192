import Framing.Proofs.Appending
import Framing.Proofs.Counting
import Mathlib.Data.List.Basic

/-!
What it takes to retain bytes. Memory is requested for what is to be held, and the requests for
chunks and for what a pass leaves are counted, each by its placement; the requests for buffers of a
better size are not. What is counted without a request is that nothing was put where nothing was.
-/

namespace Framing

namespace Activity

-- Whether the activity is a request for memory or counts one.
def isAboutMemory : Activity → Bool
  | requested _ | counted (.allocations _) _ => true
  | _                                        => false

-- What is requested and what is counted of it, in order.
def memory (activities : List Activity) : List Activity :=
  activities.filter (·.isAboutMemory)

def increments (activities : List Activity) : List (Metric × Nat) :=
  activities.filterMap increment?

@[simp]
theorem memory_append (activities more : List Activity) :
    memory (activities ++ more) = memory activities ++ memory more :=
  List.filter_append ..

@[simp]
theorem increments_append (activities more : List Activity) :
    increments (activities ++ more) = increments activities ++ increments more :=
  List.filterMap_append

-- Every request is about memory.
theorem requests_memory (activities : List Activity) :
    requests (memory activities) = requests activities := by
  rw [requests, requests, memory, List.filterMap_filter]
  refine List.filterMap_congr fun activity _ => ?_
  cases activity
  case requested       => rfl
  case noted | counted => exact ite_self _

-- Where nothing is counted of what was decoded, what is counted is memory.
theorem increments_memory {activities : List Activity} (silent : tallies activities = []) :
    increments (memory activities) = increments activities := by
  rw [increments, increments, memory, List.filterMap_filter]
  refine List.filterMap_congr fun activity mem => ?_
  have upkeep : activity.isUpkeep := by simpa using List.filter_eq_nil_iff.mp silent activity mem
  cases activity
  case noted | requested => rfl
  case counted metric _  =>
    cases metric
    case allocations     => rfl
    case frames | errors => cases upkeep

-- So what is requested and what is counted can be told from what is about memory.
theorem of_memory_eq {activities expected : List Activity} (silent : tallies activities = [])
    (eq : memory activities = expected) :
    requests activities = requests expected ∧ increments activities = increments expected := by
  rw [← requests_memory, ← increments_memory silent, eq]
  exact ⟨rfl, rfl⟩

-- What is counted of memory is all that counts as an allocation.
theorem amount_memory (placement : Placement) (activities : List Activity) :
    Metric.amount (· = .allocations placement) (increments (memory activities)) =
      Metric.amount (· = .allocations placement) (increments activities) := by
  induction activities
  case nil => rfl
  case cons activity activities ih =>
    have split : memory (activity :: activities) = memory [activity] ++ memory activities :=
      memory_append [activity] activities
    have split' : increments (activity :: activities) = increments [activity] ++ increments activities :=
      increments_append [activity] activities
    have here : Metric.amount (· = .allocations placement) (increments (memory [activity])) =
        Metric.amount (· = .allocations placement) (increments [activity]) := by
      rcases activity with _ | ⟨_ | _ | _, _⟩ | _ <;> rfl
    rw [split, split', increments_append, Metric.amount_append, Metric.amount_append, ih, here]

end Activity

namespace Allocator

variable (allocator : Allocator)

-- A request for what has to hold `content`.
def asking (content : Bytes) : List Activity :=
  if content = [] then [] else [.requested (max content.length allocator.floor)]

-- A request for what has to hold `content`, counted as `placement`.
def counting (placement : Placement) (content : Bytes) : List Activity :=
  if content = [] then
    []
  else
    [.requested (max content.length allocator.floor), .counted (.allocations placement) 1]

variable (placement : Placement) (content : Bytes)

theorem requests_eq_nil_iff : allocator.requests content = [] ↔ content = [] := by
  simp [requests]

theorem length_requests_le : (allocator.requests content).length ≤ 1 := by
  rw [requests]
  split
  case isTrue  => exact Nat.zero_le 1
  case isFalse => exact Nat.le_refl 1

@[simp]
theorem requests_asking :
    Activity.requests (allocator.asking content) = allocator.requests content := by
  simp only [asking, requests]
  split <;> rfl

@[simp]
theorem increments_asking : Activity.increments (allocator.asking content) = [] := by
  rw [asking]
  split <;> rfl

@[simp]
theorem requests_counting :
    Activity.requests (allocator.counting placement content) = allocator.requests content := by
  simp only [counting, requests]
  split <;> rfl

theorem increments_counting : Activity.increments (allocator.counting placement content) =
    if allocator.requests content = [] then [] else [(.allocations placement, 1)] := by
  simp only [counting, requests_eq_nil_iff]
  split <;> rfl

end Allocator

namespace Retention

variable (allocator : Allocator) (retention : Retention)

theorem store_memory (content : Bytes) :
    Activity.memory (retention.store allocator content).2 = allocator.asking content := by
  simp only [store, Allocator.asking]
  split <;> rfl

theorem store_buffer_eq_none_iff (content : Bytes) :
    (retention.store allocator content).1.buffer = none ↔ content = [] :=
  (retention.store_rests allocator content).buffer_eq_none_iff

theorem keep_memory (remainder : Bytes) :
    Activity.memory (retention.keep allocator remainder).2 =
      allocator.counting .fresh remainder := by
  have stored := retention.store_memory allocator remainder
  have absent := retention.store_buffer_eq_none_iff allocator remainder
  simp only [keep]
  split
  case h_1 none =>
    rw [stored, Allocator.asking, Allocator.counting, if_pos (absent.mp none), if_pos (absent.mp none)]
  case h_2 some =>
    have nonempty : remainder ≠ [] := fun empty => by simp [absent.mpr empty] at some
    rw [Activity.memory_append, stored, Allocator.asking, Allocator.counting, if_neg nonempty,
      if_neg nonempty]
    rfl

theorem fit_memory :
    Activity.memory (retention.fit allocator).2 = allocator.asking retention.unread := by
  simp only [fit]
  split
  case h_1 absent => simp [unread_of_none absent, Activity.memory, Allocator.asking]
  case h_2 before present =>
    have stored := retention.store_memory allocator before.unread
    rw [unread_of_some present]
    split <;>
    · rw [Activity.memory_append, stored]
      exact List.append_nil _

theorem append_memory_of_none (absent : retention.buffer = none) (chunk : Bytes) :
    Activity.memory (retention.append allocator chunk).2.2 =
      allocator.asking chunk ++ [.counted (.allocations .fresh) 1] := by
  have stored := retention.store_memory allocator chunk
  simp only [append, absent, append.record, Activity.memory_append, stored]
  rfl

-- Only a chunk for which there is no room moves what is retained, and such a chunk is not empty.
theorem append_memory_of_some {buffer : Buffer} (present : retention.buffer = some buffer)
    (chunk : Bytes) : Activity.memory (retention.append allocator chunk).2.2 =
      if (retention.append allocator chunk).1 = .moved then
        [.requested (max (buffer.unread.length + chunk.length) allocator.floor),
          .counted (.allocations .moved) 1]
      else
        [] := by
  simp only [append, present, append.record, Activity.memory_append, Buffer.placementFor]
  split
  case isTrue => rfl
  case isFalse full =>
    split
    case isTrue => rfl
    case isFalse =>
      have nonempty : buffer.unread ++ chunk ≠ [] := by
        refine List.append_ne_nil_of_right_ne_nil _ ?_
        rintro rfl
        exact full (Nat.zero_le _)
      have stored := retention.store_memory allocator (buffer.unread ++ chunk)
      rw [Allocator.asking, if_neg nonempty, List.length_append] at stored
      simp only [place, stored]
      rfl

theorem append_allocates_iff {buffer : Buffer} (present : retention.buffer = some buffer)
    (chunk : Bytes) : (retention.append allocator chunk).1.allocates ↔
      (retention.append allocator chunk).1 = .moved := by
  have placement : (retention.append allocator chunk).1 = buffer.placementFor chunk.length := by
    rw [append, present]
    rfl
  rw [placement, Buffer.placementFor]
  split
  case isTrue  => decide
  case isFalse => split <;> decide

-- What can be done to the retained bytes.
inductive Operation where
  | append (chunk : Bytes)
  | keep (remainder : Bytes)
  | fit
  | release
  deriving DecidableEq, Repr

-- Whether the operation is one whose requests are counted.
def Operation.counts : Operation → Bool
  | append _ | keep _ => true
  | fit | release     => false

-- An operation as it took place. If it was to append a chunk, it told how that was placed.
structure Step where
  operation  : Operation
  before     : Retention
  placement  : Option Placement := none
  after      : Retention
  activities : List Activity    := []

namespace Step

variable (step : Step)

def requests : List Nat :=
  Activity.requests step.activities

def increments : List (Metric × Nat) :=
  Activity.increments step.activities

-- Whether nothing was appended where there was no buffer.
def isHollow : Bool :=
  step.operation = .append [] && !step.before.isPresent

end Step

def Operation.perform (operation : Operation) (before : Retention) : Step :=
  match operation with
  | append chunk   =>
    let (placement, after, activities) := before.append allocator chunk
    { operation, before, placement, after, activities }
  | keep remainder =>
    let (after, activities) := before.keep allocator remainder
    { operation, before, after, activities }
  | fit            =>
    let (after, activities) := before.fit allocator
    { operation, before, after, activities }
  | release        => { operation, before, after := before.release }

-- The operations one after the other.
def steps : List Operation → Retention → List Step
  | [], _                           => []
  | operation :: operations, before =>
    let step := operation.perform allocator before
    step :: steps operations step.after

-- How a step is counted. For a chunk this depends on how it is placed, which tells of a request for
-- memory unless the step is hollow; a request for what a pass has left is counted as well, and no other
-- is.
structure Step.Counted (step : Step) : Prop where
  append : ∀ chunk, step.operation = .append chunk → ∃ placement,
    step.placement = some placement ∧
    step.increments = (if placement.allocates then [(.allocations placement, 1)] else []) ∧
    (placement.allocates ↔ step.requests ≠ [] ∨ step.isHollow)
  keep   : ∀ remainder, step.operation = .keep remainder →
    step.increments = if step.requests = [] then [] else [(.allocations .fresh, 1)]
  silent : step.operation.counts = false → step.increments = []
  hollow : step.isHollow → step.requests = []
  once   : step.requests.length ≤ 1

theorem append_counted (chunk : Bytes) :
    ((Operation.append chunk).perform allocator retention).Counted := by
  let appended := retention.append allocator chunk
  have silent : Activity.tallies appended.2.2 = [] := retention.append_tallies allocator chunk
  suffices counted : Activity.increments appended.2.2 =
        (if appended.1.allocates then [(.allocations appended.1, 1)] else []) ∧
      (appended.1.allocates ↔ Activity.requests appended.2.2 ≠ [] ∨
        (chunk = [] ∧ retention.buffer = none)) ∧
      (chunk = [] ∧ retention.buffer = none → Activity.requests appended.2.2 = []) ∧
      (Activity.requests appended.2.2).length ≤ 1 by
    obtain ⟨recorded, asked, hollow, once⟩ := counted
    have same : ((Operation.append chunk).perform allocator retention).isHollow ↔
        chunk = [] ∧ retention.buffer = none := by
      simp [Step.isHollow, Operation.perform, isPresent]
    refine ⟨?_, fun _ other => ?_, fun uncounted => ?_, fun idle => hollow (same.mp idle), once⟩
    · rintro _ ⟨⟩
      exact ⟨appended.1, rfl, recorded, asked.trans (or_congr_right same.symm)⟩
    · cases other
    · cases uncounted
  cases present : retention.buffer
  case none =>
    have memory := retention.append_memory_of_none allocator present chunk
    obtain ⟨requests, increments⟩ := Activity.of_memory_eq silent memory
    have asked : Activity.requests appended.2.2 = allocator.requests chunk := by
      rw [requests, Activity.requests_append, Allocator.requests_asking]
      exact List.append_nil _
    obtain ⟨fresh, _⟩ := append_of_none allocator chunk present
    rw [show appended.1 = .fresh from fresh, asked, increments, Activity.increments_append,
      Allocator.increments_asking, Ne, Allocator.requests_eq_nil_iff]
    refine ⟨rfl, iff_of_true rfl ?_, ?_, allocator.length_requests_le chunk⟩
    · exact (Decidable.em (chunk = [])).symm.imp_right (⟨·, rfl⟩)
    · exact And.left
  case some buffer =>
    have memory := retention.append_memory_of_some allocator present chunk
    obtain ⟨requests, increments⟩ := Activity.of_memory_eq silent memory
    have allocates := retention.append_allocates_iff allocator present chunk
    have solid {goal : Prop} (hollow : chunk = [] ∧ some buffer = none) : goal :=
      absurd hollow.2 (Option.some_ne_none buffer)
    by_cases moved : appended.1 = .moved
    case pos =>
      rw [if_pos moved] at requests increments
      rw [requests, increments, moved]
      exact ⟨rfl, iff_of_true rfl (.inl (List.cons_ne_nil _ _)), solid, Nat.le_refl 1⟩
    case neg =>
      have never : appended.1.allocates = false := Bool.eq_false_iff.mpr (mt allocates.mp moved)
      rw [if_neg moved] at requests increments
      rw [requests, increments, never]
      exact ⟨rfl, by simp [Activity.requests], solid, Nat.zero_le 1⟩

theorem keep_counted (remainder : Bytes) :
    ((Operation.keep remainder).perform allocator retention).Counted := by
  have ⟨requests, increments⟩ := Activity.of_memory_eq
    (retention.keep_tallies allocator remainder) (retention.keep_memory allocator remainder)
  rw [Allocator.increments_counting] at increments
  rw [Allocator.requests_counting] at requests
  refine ⟨nofun, fun _ _ => ?_, nofun, nofun, ?_⟩
  · exact (requests ▸ increments :)
  · exact (requests ▸ allocator.length_requests_le remainder :)

theorem fit_counted : (Operation.fit.perform allocator retention).Counted := by
  have ⟨requests, increments⟩ :=
    Activity.of_memory_eq (retention.fit_tallies allocator) (retention.fit_memory allocator)
  rw [Allocator.increments_asking] at increments
  rw [Allocator.requests_asking] at requests
  refine ⟨nofun, nofun, fun _ => increments, nofun, ?_⟩
  exact (requests ▸ allocator.length_requests_le retention.unread :)

theorem perform_counted (operation : Operation) :
    (operation.perform allocator retention).Counted := by
  cases operation
  case append chunk   => exact retention.append_counted allocator chunk
  case keep remainder => exact retention.keep_counted allocator remainder
  case fit            => exact retention.fit_counted allocator
  case release        => exact ⟨nofun, nofun, fun _ => rfl, nofun, Nat.zero_le 1⟩

-- What a step adds to the counters of all placements together.
theorem Step.Counted.amount_eq {step : Step} (counted : step.Counted) :
    Metric.amount (Counter.selects (Metric.allocations .fresh).name none) step.increments =
      (if step.operation.counts then step.requests.length else 0) + step.isHollow.toNat := by
  have one (placement : Placement) : Metric.amount
      (Counter.selects (Metric.allocations .fresh).name none) [(.allocations placement, 1)] = 1 :=
    rfl
  have solid {operation : Operation} (is : step.operation = operation)
      (other : operation ≠ .append []) : step.isHollow = false := by
    simp [isHollow, is, other]
  have single (asked : step.requests ≠ []) : step.requests.length = 1 :=
    Nat.le_antisymm counted.once (List.length_pos_iff.mpr asked)
  cases operation : step.operation
  case append chunk =>
    obtain ⟨placement, _, increments, allocates⟩ := counted.append chunk operation
    rw [increments]
    cases hollow : step.isHollow
    case true =>
      rw [if_pos (allocates.mpr (.inr hollow)), one, counted.hollow hollow]
      rfl
    case false =>
      by_cases asked : step.requests = []
      case pos =>
        rw [if_neg (by simp [allocates, asked, hollow]), asked]
        rfl
      case neg =>
        rw [if_pos (allocates.mpr (.inl asked)), one, single asked]
        rfl
  case keep remainder =>
    rw [counted.keep remainder operation, solid operation nofun]
    by_cases asked : step.requests = []
    case pos => rw [if_pos asked, asked]; rfl
    case neg => rw [if_neg asked, one, single asked]; rfl
  case fit | release =>
    rw [counted.silent (by rw [operation]; rfl), solid operation nofun]
    rfl

theorem steps_counted (operations : List Operation) :
    ∀ step ∈ steps allocator operations retention, step.Counted := by
  induction operations generalizing retention
  case nil => exact nofun
  case cons operation operations ih =>
    exact List.forall_mem_cons.mpr ⟨retention.perform_counted allocator operation, ih _⟩

-- A chunk may be empty, the buffer may be one in which anything is consumed, and the provider may give
-- more than is asked for.
theorem steps_count_requests (allocator : Allocator) (retention : Retention)
    (operations : List Operation) :
    let steps := steps allocator operations retention
    (∀ step ∈ steps, step.Counted) ∧
    Counter.total (Counter.tally (steps.flatMap Step.increments)) (Metric.allocations .fresh).name
      none = UInt64.ofNat (((steps.filter (·.operation.counts)).flatMap Step.requests).length +
        steps.countP (·.isHollow)) := by
  intro steps
  have counted : ∀ step ∈ steps, step.Counted := retention.steps_counted allocator operations
  refine ⟨counted, (Counter.total_tally _).trans (congrArg UInt64.ofNat ?_)⟩
  clear_value steps
  induction steps
  case nil => rfl
  case cons step steps ih =>
    have ⟨here, rest⟩ := List.forall_mem_cons.mp counted
    rw [List.flatMap_cons, Metric.amount_append, here.amount_eq, ih rest, List.countP_cons]
    cases counts : step.operation.counts <;> cases step.isHollow <;>
      simp [counts] <;> omega

-- Nothing is put where nothing is: this is counted as a new buffer, without a request for one.
theorem append_nil_counted_unasked :
    let step := (Operation.append []).perform {} {}
    step.placement = some .fresh ∧ step.increments = [(.allocations .fresh, 1)] ∧
    step.requests = [] ∧ step.after.buffer = none ∧
    Counter.total (Counter.tally step.increments) (Metric.allocations .fresh).name none = 1 := by
  decide

end Retention
end Framing
