import Framing.Proofs.Answers

/-!
Progress. Every invocation of a pass but the last moves on by a byte at least, so that a pass ends; and
over a whole run there are no more results than bytes, but for one at the end of the stream.
-/

namespace Framing

variable {σ φ ε μ : Type}

namespace Trace

namespace Invoked

variable {invoked : Invoked φ ε}

-- The invocation did not come past the end of what it was shown.
def Inside (invoked : Invoked φ ε) : Prop :=
  invoked.consumed ≤ invoked.unread.length

theorem outcome_of_isResult (isResult : invoked.found.isResult) :
    invoked.outcome = .done invoked.found := by
  rcases invoked with ⟨_, _, _, _ | _ | _, _⟩
  case done             => rfl
  case failed | faulted => cases isResult

theorem length_taken_of_commits (inside : invoked.Inside) (commits : invoked.commits) :
    invoked.taken.length = invoked.consumed := by
  rw [taken, if_pos commits, List.length_take, Nat.min_eq_left inside]

-- Before the end of the stream, a result has taken something.
theorem toNat_yields_le (inside : invoked.Inside) :
    invoked.yields.toNat ≤ invoked.taken.length + invoked.last.toNat := by
  cases yields : invoked.yields
  case false => exact Nat.zero_le _
  case true =>
    have ⟨isResult, late⟩ := Bool.and_eq_true_iff.mp yields
    cases last : invoked.last
    case true  => exact Nat.le_add_left 1 _
    case false =>
      have progress : 0 < invoked.consumed := Nat.pos_of_ne_zero (by simpa [last] using late)
      have commits := invoked.commits_of_progress (outcome_of_isResult isResult) progress
      exact length_taken_of_commits inside commits ▸ progress

end Invoked

theorem countP_cons_toNat (chosen : Invoked φ ε → Bool) (invoked : Invoked φ ε)
    (made : List (Invoked φ ε)) :
    (invoked :: made).countP chosen = made.countP chosen + (chosen invoked).toNat := by
  rw [List.countP_cons]
  cases chosen invoked <;> rfl

theorem taken_cons (invoked : Invoked φ ε) (made : List (Invoked φ ε)) :
    taken (invoked :: made) = invoked.taken ++ taken made :=
  rfl

theorem countP_yields_le {made : List (Invoked φ ε)} (inside : ∀ invoked ∈ made, invoked.Inside) :
    made.countP (·.yields) ≤ (taken made).length + made.countP (·.last) := by
  induction made
  case nil => exact Nat.le_refl 0
  case cons invoked made ih =>
    have ⟨here, rest⟩ := List.forall_mem_cons.mp inside
    have first := Invoked.toNat_yields_le here
    have others := ih rest
    rw [countP_cons_toNat, countP_cons_toNat, taken_cons, List.length_append]
    omega

end Trace

-- No strategy can move a cursor out of the bytes that it is shown.
theorem Strategy.promises_inside (strategy : Strategy σ φ ε) :
    strategy.Promises (fun _ => True) Trace.Invoked.Inside where
  keeps _ _ _ _                   := trivial
  decode state context unread _   := strategy.decode_consumed_le state context unread
  conclude state context unread _ := strategy.conclude_consumed_le state context unread

namespace Decoder

variable {decoder : Decoder σ φ ε μ} {unread left : Bytes} {results : Nat}
variable {invoked : Trace.Invoked φ ε} {made : List (Trace.Invoked φ ε)}
variable {outcome : Outcome (DecodeError ε) Nat}

-- How the invocations of a pass over `unread` follow on each other, behind `results` results, up to
-- the `outcome`: if any but the last had not moved on, the pass would have been over.
structure Paces (unread : Bytes) (results : Nat) (made : List (Trace.Invoked φ ε))
    (outcome : Outcome (DecodeError ε) Nat) (left : Bytes) : Prop where
  few      : made.length ≤ unread.length
  moves    : ∀ earlier invoked later, made = earlier ++ invoked :: later → later ≠ [] →
    0 < invoked.taken.length
  stalls   : ∀ earlier invoked later, made = earlier ++ invoked :: later →
    invoked.found.isResult → invoked.consumed = 0 →
    later = [] ∧ outcome = .failed (.stalled (results + earlier.countP (·.yields)))
  succeeds : ∀ total, outcome = .done total → total = results + made.countP (·.yields) ∧
    (left = [] ∨ ∃ earlier invoked, made = earlier ++ [invoked] ∧
      invoked.outcome = .done .nothing ∧ invoked.consumed = 0)

namespace Paces

theorem single (nonempty : unread ≠ [])
    (stalls : invoked.found.isResult → invoked.consumed = 0 → outcome = .failed (.stalled results))
    (succeeds : ∀ total, outcome = .done total →
      total = results ∧ invoked.outcome = .done .nothing ∧ invoked.consumed = 0) :
    Paces unread results [invoked] outcome left := by
  have alone {earlier other later} (split : [invoked] = earlier ++ other :: later) :
      earlier = [] ∧ other = invoked ∧ later = [] := by
    cases earlier <;> simp_all
  refine ⟨List.length_pos_iff.mpr nonempty, ?_, ?_, fun total done => ?_⟩
  · intro _ _ _ split more
    exact absurd (alone split).2.2 more
  · intro _ _ _ split isResult still
    obtain ⟨rfl, rfl, rfl⟩ := alone split
    exact ⟨rfl, stalls isResult still⟩
  · have ⟨count, waits, still⟩ := succeeds total done
    have silent : invoked.yields = false := by
      simp [Trace.Invoked.yields, Trace.Invoked.found, waits, Found.isResult]
    exact ⟨by simp [count, silent], .inr ⟨[], invoked, rfl, waits, still⟩⟩

theorem cons (inside : invoked.Inside) (commits : invoked.commits) (progress : 0 < invoked.consumed)
    (shown : invoked.unread = unread)
    (rest : Paces (unread.drop invoked.consumed) (results + invoked.yields.toNat) made outcome left) :
    Paces unread results (invoked :: made) outcome left := by
  have count (made : List (Trace.Invoked φ ε)) : results + (invoked :: made).countP (·.yields) =
      results + invoked.yields.toNat + made.countP (·.yields) := by
    rw [Trace.countP_cons_toNat]
    omega
  refine ⟨?_, fun earlier other later split => ?_, fun earlier other later split => ?_,
    fun total done => ?_⟩
  · have le : invoked.consumed ≤ unread.length := shown ▸ inside
    have few := rest.few
    rw [List.length_drop] at few
    rw [List.length_cons]
    omega
  · cases earlier
    case nil =>
      cases split
      exact fun _ => Trace.Invoked.length_taken_of_commits inside commits ▸ progress
    case cons => exact rest.moves _ other later (List.cons.inj split).2
  · cases earlier
    case nil =>
      cases split
      exact fun _ still => absurd still (Nat.ne_of_gt progress)
    case cons =>
      obtain ⟨rfl, tail⟩ := List.cons.inj split
      exact count _ ▸ rest.stalls _ other later tail
  · obtain ⟨rfl, all | ⟨earlier, other, rfl, waits, still⟩⟩ := rest.succeeds total done
    case inl => exact ⟨(count made).symm, .inl all⟩
    case inr => exact ⟨(count _).symm, .inr ⟨invoked :: earlier, other, rfl, waits, still⟩⟩

end Paces

theorem Rounds.paces {position : Nat} {stage : Stage σ φ ε μ} {pass : Pass σ φ ε μ}
    (rounds : decoder.Rounds unread position results stage pass) :
    ∃ made handed, Stage.Grows made handed stage pass.stage ∧
      Paces unread results made pass.outcome pass.unread := by
  induction rounds
  case exhausted =>
    have none {earlier later : List (Trace.Invoked φ ε)} {invoked : Trace.Invoked φ ε} :
        [] ≠ earlier ++ invoked :: later := by simp
    refine ⟨[], [], (Stage.Grows.refl _).note _, Nat.le_refl 0, ?_, ?_, ?_⟩
    · exact fun _ _ _ split => absurd split none
    · exact fun _ _ _ split => absurd split none
    · rintro total ⟨⟩
      exact ⟨rfl, .inl rfl⟩
  case waiting nonempty h =>
    refine ⟨_, _, (invoke_grows h).note _, .single nonempty nofun ?_⟩
    rintro total ⟨⟩
    exact ⟨rfl, rfl, rfl⟩
  case failed nonempty h | faulted nonempty h =>
    exact ⟨_, _, invoke_grows h, .single nonempty nofun nofun⟩
  case stalled nonempty h isResult =>
    exact ⟨_, _, (invoke_grows h).note _, .single nonempty (fun _ _ => rfl) nofun⟩
  case refused nonempty h isResult progress d =>
    have ⟨_, _, _, grows⟩ := dispatch_grows d
    refine ⟨_, _, (invoke_grows h).trans grows, .single nonempty ?_ nofun⟩
    exact fun _ still => absurd still (Nat.ne_of_gt progress)
  case skipped unread _ _ stage consumed _ _ nonempty h progress _ ih =>
    let invoked : Trace.Invoked φ ε := ⟨false, stage.context, unread, .done .nothing, consumed⟩
    have commits := invoked.commits_of_progress rfl progress
    have ⟨_, _, grows, paces⟩ := ih
    exact ⟨_, _, ((invoke_grows h).note _).trans grows,
      .cons (invoke_consumed_le h) commits progress rfl paces⟩
  case dispatched unread _ _ stage found consumed _ _ _ nonempty h isResult progress d _ ih =>
    let invoked : Trace.Invoked φ ε := ⟨false, stage.context, unread, .done found, consumed⟩
    have commits := invoked.commits_of_progress rfl progress
    have yields  := invoked.yields_of_progress rfl isResult progress
    have ⟨_, _, grows, paces⟩ := ih
    have ⟨_, _, _, handing⟩ := dispatch_grows d
    refine ⟨_, _, ((invoke_grows h).trans handing).trans grows,
      .cons (invoke_consumed_le h) commits progress rfl ?_⟩
    rw [yields]
    exact paces

-- How a pass over `unread` went on from `position`. The invocations that were `made` saw what those
-- before them had left; any but the last took a byte of it at least. A result for which nothing was
-- consumed is not handed over and ends the pass, as does finding nothing and consuming nothing.
structure Progresses (decoder : Decoder σ φ ε μ) (unread : Bytes) (position : Nat)
    (before : Stage σ φ ε μ) (pass : Pass σ φ ε μ) (made : List (Trace.Invoked φ ε))
    (handed : List (Event φ μ)) : Prop where
  grows    : Stage.Grows made handed before pass.stage
  results  : pass.stage.context.results = before.context.results + made.countP (·.yields)
  few      : made.length ≤ unread.length
  reached  : pass.position = position + (Trace.taken made).length
  left     : pass.unread = unread.drop (Trace.taken made).length
  moves    : ∀ earlier invoked later, made = earlier ++ invoked :: later →
    let start := (Trace.taken earlier).length
    invoked.last = false ∧ invoked.unread = unread.drop start ∧
    start + invoked.taken.length ≤ unread.length ∧ (later ≠ [] → 0 < invoked.taken.length)
  stalls   : ∀ earlier invoked later, made = earlier ++ invoked :: later →
    invoked.found.isResult → invoked.consumed = 0 →
    later = [] ∧ handed = earlier.flatMap (·.emitted decoder.grouping) ∧
    pass.outcome = .failed (.stalled (earlier.countP (·.yields)))
  succeeds : ∀ total, pass.outcome = .done total → total = made.countP (·.yields) ∧
    (pass.unread = [] ∨ ∃ earlier invoked, made = earlier ++ [invoked] ∧
      invoked.outcome = .done .nothing ∧ invoked.consumed = 0)

theorem pass_progresses (decoder : Decoder σ φ ε μ) (unread : Bytes) (position : Nat)
    (stage : Stage σ φ ε μ) :
    ∃ made handed, decoder.Progresses unread position stage
      (decoder.pass unread position 0 stage) made handed := by
  have rounds := decoder.rounds_pass unread position 0 stage
  obtain ⟨made, _, grows, paces⟩ := rounds.paces
  obtain ⟨_, handed, processes, _, all⟩ := rounds.processes
  obtain ⟨_, _, grows', ordinary⟩ := rounds.contexts
  obtain rfl := (grows.unique processes.grows).1
  obtain rfl := (grows.unique grows').1
  obtain ⟨consumed, reached, left⟩ := rounds.position_eq
  have same : (Trace.taken made).length = consumed := by
    have inside := rounds.position_le
    have whole  := congrArg List.length processes.consumes.bytes
    rw [List.length_append, left, List.length_drop] at whole
    omega
  refine ⟨made, handed, processes.grows, processes.results, paces.few, same ▸ reached, same ▸ left,
    fun earlier invoked later split => ?_, fun earlier invoked later split isResult still => ?_,
    fun total done => ?_⟩
  · have shown := processes.consumes.shown earlier invoked later split
    have le := invoked.taken_prefix.length_le
    have mem : invoked ∈ made := split ▸ by simp
    refine ⟨(ordinary invoked mem).last, ?_, ?_, paces.moves earlier invoked later split⟩
    · rw [← shown, List.drop_left]
    · rw [← shown, List.length_append]
      exact Nat.add_le_add_left le _
  · obtain ⟨last, stalled⟩ := paces.stalls earlier invoked later split isResult still
    have outcome := Trace.Invoked.outcome_of_isResult isResult
    have silent : invoked.emitted (μ := μ) decoder.grouping = [] := by
      simp [Trace.Invoked.emitted, Trace.Invoked.commits, outcome, isResult, still]
    rw [Nat.zero_add] at stalled
    refine ⟨last, ?_, stalled⟩
    rw [all (by rw [stalled]; rfl), split, last, List.flatMap_append, List.flatMap_singleton, silent,
      List.append_nil]
  · obtain ⟨count, how⟩ := paces.succeeds total done
    exact ⟨count.trans (Nat.zero_add _), how⟩

section Run

variable (decoder) {state : State σ φ ε μ} {delivered : Bytes}
variable (follows : state.Follows delivered)
variable (fulfils : state.Fulfils (fun _ => True) Trace.Invoked.Inside)

-- The strategy has its last say in the call that ends the stream.
theorem perform_last_le (call : Call μ)
    (grows : (decoder.perform call state).2.trace.invocations = state.trace.invocations ++ made) :
    made.countP (·.last) + state.ended.toNat ≤ (decoder.perform call state).2.ended.toNat := by
  rw [decoder.perform_ended call state]
  cases ended : state.ended
  case true =>
    have ⟨_, idle, _⟩ := decoder.perform_of_ended call ended
    have none : made = [] := List.append_cancel_left (grows.symm.trans idle.invocations)
    rw [none]
    exact Nat.le_refl 1
  case false =>
    have le := decoder.perform_conclusions_le call state
    rw [Trace.conclusions, Trace.conclusions, grows, List.countP_append] at le
    cases ends : call.signal?
    case none =>
      rw [Call.not_concludes_of_signal? ends] at le
      exact Nat.le_of_add_le_add_left le
    case some =>
      exact Nat.le_trans (Nat.le_of_add_le_add_left le) (Bool.toNat_le _)

include follows fulfils

-- A byte that has been taken is unread no more, and each result has taken one or is the last.
theorem perform_results_le (call : Call μ) :
    let after := (decoder.perform call state).2
    after.context.results + after.retention.unread.length + state.ended.toNat ≤
      state.context.results + (state.retention.unread.length + call.chunk.length) +
        after.ended.toNat := by
  have ⟨made, left, advances⟩ := decoder.perform_advances follows call
  have fulfils' := fulfils.perform decoder.strategy.promises_inside call
  have inside : ∀ invoked ∈ made, invoked.Inside := fun invoked mem =>
    fulfils'.promised invoked (advances.invocations ▸ List.mem_append_right _ mem)
  have results  := advances.results
  have yields   := Trace.countP_yields_le inside
  have last     := decoder.perform_last_le call advances.invocations
  have bytes    := congrArg List.length advances.consumes.bytes
  have retained := advances.retained.length_le
  rw [List.length_append, List.length_append] at bytes
  dsimp only
  omega

theorem run_results_le (calls : List (Call μ)) :
    let final := (decoder.run calls state).2
    final.context.results + final.retention.unread.length + state.ended.toNat ≤
      state.context.results + (state.retention.unread.length + (calls.flatMap Call.chunk).length) +
        final.ended.toNat := by
  induction calls generalizing delivered state
  case nil => exact Nat.le_refl _
  case cons call calls ih =>
    have first := decoder.perform_results_le follows fulfils call
    have rest  := ih (follows.perform decoder call)
      (fulfils.perform decoder.strategy.promises_inside call)
    simp only [run, List.flatMap_cons, List.length_append] at first rest ⊢
    omega

end Run

theorem run_initial_results_le (decoder : Decoder σ φ ε μ) (start : σ) (calls : List (Call μ)) :
    (decoder.run calls (.initial start)).2.context.results ≤
      (calls.flatMap Call.chunk).length + 1 := by
  let final := (decoder.run calls (.initial start)).2
  have bound : final.context.results + final.retention.unread.length + 0 ≤
      0 + (0 + (calls.flatMap Call.chunk).length) + final.ended.toNat :=
    decoder.run_results_le (.initial start) (.initial trivial) calls
  have once := Bool.toNat_le final.ended
  exact show final.context.results ≤ _ by omega

-- To count the results, a 64-bit word is enough for all streams but such as fill it by their length.
theorem run_initial_results_lt (decoder : Decoder σ φ ε μ) (start : σ) {calls : List (Call μ)}
    (short : (calls.flatMap Call.chunk).length + 1 < UInt64.size) :
    (decoder.run calls (.initial start)).2.context.results < UInt64.size :=
  Nat.lt_of_le_of_lt (decoder.run_initial_results_le start calls) short

-- A pass may start at any position and from any stage, those of the run among them. The calls may
-- fail or be cut short by faults, and the next ones go on with what is left.
theorem run_progresses (decoder : Decoder σ φ ε μ) (start : σ) (calls : List (Call μ)) :
    (∀ unread position stage, ∃ made handed, decoder.Progresses unread position stage
      (decoder.pass unread position 0 stage) made handed) ∧
    (decoder.run calls (.initial start)).2.context.results ≤
      (calls.flatMap Call.chunk).length + 1 :=
  ⟨decoder.pass_progresses, decoder.run_initial_results_le start calls⟩

-- The strategy finds a frame and skips a byte. Then it reads on and seeks back, and what it has read is
-- not handed over.
theorem run_progresses_up_to_stall :
    let script : Script := { entries := [
      { operations := [.take 1], reply := .joined }, { operations := [.take 1] },
      { operations := [.take 2, .seek 0], reply := .joined }] }
    let decoder : Decoder _ _ _ Unit :=
      { strategy := script.strategy, receiver := .collecting }
    let begun : Stage _ _ _ _ := { strategyState := {} }
    let pass  := decoder.pass [1, 2, 3, 4] 0 0 begun
    let calls : List (Call Unit) := [.feed [1, 2, 3, 4] none, .finish .closed]
    pass.outcome = .failed (.stalled 1) ∧ pass.position = 2 ∧ pass.unread = [3, 4] ∧
    (∃ made, decoder.Progresses [1, 2, 3, 4] 0 begun pass made [.frame [1] none] ∧
      made.length = 3) ∧
    (decoder.run calls (.initial {})).2.context.results ≤ 5 := by
  intro script decoder begun pass calls
  have ⟨passes, bound⟩ := run_progresses decoder {} calls
  have ⟨made, handed, progresses⟩ := passes [1, 2, 3, 4] 0 begun
  have events : handed = [.frame [1] none] :=
    progresses.grows.events.symm.trans (by decide +kernel)
  have invocations : made = pass.stage.trace.invocations := progresses.grows.invocations.symm
  refine ⟨by decide +kernel, by decide +kernel, by decide +kernel, ⟨made, events ▸ progresses, ?_⟩,
    bound⟩
  rw [invocations]
  decide +kernel

end Decoder
end Framing
