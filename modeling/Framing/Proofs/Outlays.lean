import Framing.Proofs.Accounts
import Framing.Proofs.Requests

/-!
What the memory of a decoder costs. As long as no pass is cut short, a chunk that is decoded where it
lies costs what is left of it, and a chunk that is appended costs a bigger buffer if there is no room
for it, and one of the right size for what is left; only the latter is not counted.
-/

namespace Framing

variable {σ φ ε μ : Type}

-- All requests for memory and what is counted of them, in order.
def Trace.memory (trace : Trace φ ε μ) : List Activity :=
  Activity.memory trace.activities

theorem Trace.requests_eq (trace : Trace φ ε μ) :
    trace.requests = Activity.requests trace.memory :=
  (Activity.requests_memory trace.activities).symm

theorem Trace.amount_memory (trace : Trace φ ε μ) (placement : Placement) :
    Activity.amount (.allocations placement) trace.memory =
      Metric.amount (· = .allocations placement) trace.increments :=
  Activity.amount_memory placement trace.activities

theorem Allocator.amount_asking (allocator : Allocator) (content : Bytes) (metric : Metric) :
    Activity.amount metric (allocator.asking content) = 0 := by
  rw [Activity.amount, allocator.increments_asking]
  rfl

namespace Retention

variable (allocator : Allocator) (retention : Retention)

-- The cost of a chunk of which `left` bytes stay unread, where nothing that was consumed is kept.
def cost (chunk left : Bytes) : List Activity :=
  match retention.buffer with
  | none        => allocator.counting .fresh left
  | some buffer =>
    let size := retention.unread.length + chunk.length
    (if buffer.capacity < size then
      [.requested (max size allocator.floor), .counted (.allocations .moved) 1]
    else
      []) ++ allocator.asking left

theorem length_requests_cost_le (chunk left : Bytes) :
    (Activity.requests (retention.cost allocator chunk left)).length ≤ 2 := by
  have once := allocator.length_requests_le left
  rw [cost]
  split
  case h_1 => exact Nat.le_succ_of_le (allocator.requests_counting .fresh left ▸ once)
  case h_2 =>
    rw [Activity.requests_append, allocator.requests_asking, List.length_append]
    split
    case isTrue  => exact Nat.add_le_add_left once 1
    case isFalse => exact Nat.add_le_add (Nat.zero_le 1) once

end Retention

namespace Decoder

variable {decoder : Decoder σ φ ε μ} {state : State σ φ ε μ}

theorem Stage.Accounts.memory_eq {made : List (Trace.Invoked φ ε)} {failed : List Notice}
    {memory : List Activity} {before after : Stage σ φ ε μ}
    (accounts : Stage.Accounts decoder made failed memory before after) :
    after.trace.memory = before.trace.memory ++ memory := by
  have ⟨_, _, tells, eq, _⟩ := accounts.activities
  rw [Trace.memory, eq, Activity.memory_append, tells.memory]
  rfl

section Outlay

variable (decoder) (chunk : Bytes)

-- Where nothing consumed is kept, the sizes tell what a chunk costs.
theorem outlay_eq_cost {content : Bytes} (rests : state.retention.Rests content)
    (nonempty : chunk ≠ []) (runs : state.ended = false) (after : State σ φ ε μ) :
    decoder.outlay chunk state after =
      state.retention.cost decoder.allocator chunk after.retention.unread := by
  have busy : ¬(chunk = [] ∨ state.ended) := not_or.mpr ⟨nonempty, by simp [runs]⟩
  rw [outlay, if_neg busy, Retention.cost]
  cases present : state.retention.buffer
  case none => simp [Retention.isPresent, present]
  case some buffer =>
    obtain ⟨_, _, takes, _⟩ := Retention.append_of_some decoder.allocator chunk present
      (rests.sound buffer present)
    have memory := state.retention.append_memory_of_some decoder.allocator present chunk
    have moved := takes.placement_iff.2.2
    rw [memory]
    simp [Retention.isPresent, present, Retention.unread_of_some present, moved]

-- Whether the call appended a chunk, and bytes were left unread behind the pass.
def leftover (chunk : Bytes) (before after : State σ φ ε μ) : Bool :=
  chunk ≠ [] && !before.ended && before.retention.isPresent && after.retention.unread ≠ []

-- What is not counted is the buffer of the right size.
theorem length_requests_outlay (before after : State σ φ ε μ) :
    let outlay := decoder.outlay chunk before after
    (Activity.requests outlay).length = Activity.amount (.allocations .fresh) outlay +
      Activity.amount (.allocations .moved) outlay + (leftover chunk before after).toNat := by
  simp only [outlay, leftover]
  split
  case isTrue ignored =>
    have none : (decide (chunk ≠ []) && !before.ended) = false := by
      rcases ignored with empty | ended <;> simp [*]
    rw [none]
    rfl
  case isFalse busy =>
    have both : (decide (chunk ≠ []) && !before.ended) = true := by simpa using busy
    rw [both]
    cases present : before.retention.buffer
    case none =>
      simp only [Retention.isPresent, present, Allocator.counting]
      by_cases empty : after.retention.unread = []
      case pos => rw [empty]; rfl
      case neg => simp [empty]; rfl
    case some buffer =>
      have moving := before.retention.append_memory_of_some decoder.allocator present chunk
      have asked : (decoder.allocator.requests after.retention.unread).length =
          (decide (after.retention.unread ≠ [])).toNat := by
        by_cases empty : after.retention.unread = [] <;> simp [Allocator.requests, empty]
      have there : before.retention.isPresent = true := by simp [Retention.isPresent, present]
      rw [if_pos there, there, moving, Activity.requests_append, Activity.amount_append,
        Activity.amount_append, Allocator.requests_asking, Allocator.amount_asking,
        Allocator.amount_asking, List.length_append, asked]
      split <;> rfl

-- How many of the calls appended a chunk and left bytes unread.
def leftovers : List (Call μ) → State σ φ ε μ → Nat
  | [], _                => 0
  | call :: calls, state =>
    let after := (decoder.perform call state).2
    (leftover call.chunk state after).toNat + leftovers calls after

theorem length_requests_outlays (calls : List (Call μ)) (state : State σ φ ε μ) :
    let outlays := decoder.outlays calls state
    (Activity.requests outlays).length = Activity.amount (.allocations .fresh) outlays +
      Activity.amount (.allocations .moved) outlays + decoder.leftovers calls state := by
  induction calls generalizing state
  case nil => rfl
  case cons call calls ih =>
    have here := decoder.length_requests_outlay call.chunk state (decoder.perform call state).2
    have rest := ih (decoder.perform call state).2
    simp only [outlays, leftovers, Activity.requests_append, Activity.amount_append,
      List.length_append] at here rest ⊢
    omega

end Outlay

-- As the calls so far are a run, too, what is said of the next call holds of each call.
theorem run_requests_memory (decoder : Decoder σ φ ε μ) (start : σ) (calls : List (Call μ))
    (returns : ∀ outcome ∈ (decoder.run calls (.initial start)).1, outcome.returns) :
    let state     := (decoder.run calls (.initial start)).2
    let trace     := state.trace
    let leftovers := decoder.leftovers calls (.initial start)
    (∀ call, (decoder.perform call state).1.returns →
      let after := (decoder.perform call state).2
      let cost  := state.retention.cost decoder.allocator call.chunk after.retention.unread
      (call.chunk = [] ∨ state.ended → after.trace.memory = trace.memory) ∧
      (call.chunk ≠ [] → state.ended = false → after.trace.memory = trace.memory ++ cost) ∧
      (Activity.requests cost).length ≤ 2) ∧
    (state.retention.buffer = none ↔ state.retention.unread = []) ∧
    trace.requests.length = Metric.amount (· = .allocations .fresh) trace.increments +
      Metric.amount (· = .allocations .moved) trace.increments + leftovers ∧
    UInt64.ofNat trace.requests.length = Counter.reading (.allocations .fresh) trace.increments +
      Counter.reading (.allocations .moved) trace.increments + UInt64.ofNat leftovers := by
  intro state trace leftovers
  let begun : State σ φ ε μ := .initial start
  have ⟨content, rests⟩ : ∃ content, state.retention.Rests content :=
    decoder.run_rests (Retention.initial_rests : begun.retention.Rests []) calls returns
  have ⟨_, _, memory, accounts, _, spent⟩ := decoder.run_accounts calls begun
  have balance : trace.requests.length = Metric.amount (· = .allocations .fresh) trace.increments +
      Metric.amount (· = .allocations .moved) trace.increments + leftovers := by
    have whole : trace.memory = decoder.outlays calls begun := spent returns ▸ accounts.memory_eq
    rw [trace.requests_eq, ← trace.amount_memory, ← trace.amount_memory, whole]
    exact decoder.length_requests_outlays calls begun
  refine ⟨fun call returns => ⟨fun ignored => ?_, fun nonempty runs => ?_, ?_⟩, ?_, balance, ?_⟩
  · have ⟨_, _, memory, accounts, _, spent⟩ := decoder.perform_accounts call state
    rw [accounts.memory_eq, spent returns, outlay, if_pos ignored, List.append_nil]
  · have ⟨_, _, memory, accounts, _, spent⟩ := decoder.perform_accounts call state
    rw [accounts.memory_eq, spent returns, decoder.outlay_eq_cost call.chunk rests nonempty runs]
  · exact state.retention.length_requests_cost_le decoder.allocator call.chunk _
  · rw [rests.buffer_eq_none_iff, rests.unread_eq]
  · rw [balance, Counter.reading_eq, Counter.reading_eq, UInt64.ofNat_add, UInt64.ofNat_add]

-- The second chunk fits behind the first one, and there is no room for the third one.
theorem run_requests_memory_of_pieces :
    let decoder : Decoder Unit Bytes FramingError Unit :=
      { strategy := .pieces FramingError 3, receiver := .collecting, allocator.floor := 2 }
    let calls : List (Call Unit) := [.feed [1] none, .feed [2] none]
    let state := (decoder.run calls (.initial ())).2
    let after := (decoder.perform (.feed [3, 4] none) state).2
    state.trace.memory = [.requested 2, .counted (.allocations .fresh) 1, .requested 2] ∧
    after.trace.memory = state.trace.memory ++
      [.requested 4, .counted (.allocations .moved) 1, .requested 2] ∧
    (decoder.perform (.finish .closed) state).2.trace.memory = state.trace.memory ∧
    state.trace.requests.length = 1 + 0 + 1 := by
  intro decoder calls state after
  have ⟨next, _, balance, _⟩ := run_requests_memory decoder () calls (by decide +kernel)
  have ⟨_, fed, _⟩  := next (.feed [3, 4] none) (by decide +kernel)
  have ⟨silent, _⟩ := next (.finish .closed) (by decide +kernel)
  refine ⟨by decide +kernel, (fed nofun (by decide +kernel)).trans (by decide +kernel),
    silent (.inl rfl), balance.trans (by decide +kernel)⟩

end Decoder
end Framing
