import Framing.Decoder.Pass
import Framing.Proofs.Stage

/-!
Passes round by round. Everything that is proved about passes is proved by induction on their
rounds.
-/

namespace Framing

variable {σ φ ε μ : Type}

theorem Found.not_isResult_nothing : ¬(nothing : Found φ).isResult :=
  Bool.false_ne_true

theorem Found.isResult_of_ne_nothing {found : Found φ} (h : found ≠ .nothing) : found.isResult := by
  cases found <;> simp_all [isResult]

-- The invocation is one that a pass makes, and was told what `context` says of the stream.
structure Trace.Invoked.Ordinary (context : Context) (invoked : Invoked φ ε) : Prop where
  last   : invoked.last = false
  shown  : invoked.unread ≠ []
  source : invoked.context.source = context.source
  ending : invoked.context.ending = context.ending

namespace Decoder

variable {decoder : Decoder σ φ ε μ}

-- How a pass goes on from `unread`. All but `skipped` and `dispatched` are last rounds.
inductive Rounds (decoder : Decoder σ φ ε μ) :
    (unread : Bytes) → (position results : Nat) → Stage σ φ ε μ → Pass σ φ ε μ → Prop
  | exhausted {position results stage} :
    Rounds decoder [] position results stage (pass.finish [] position results stage)
  | waiting {unread position results stage after}
    (nonempty : unread ≠ [])
    (invoked : decoder.invoke false unread stage = (.done .nothing, 0, after)) :
    Rounds decoder unread position results stage (pass.finish unread position results after)
  | failed {unread position results stage error consumed after}
    (nonempty : unread ≠ [])
    (invoked : decoder.invoke false unread stage = (.failed error, consumed, after)) :
    Rounds decoder unread position results stage
      { outcome := .failed (.strategy error), position, unread, stage := after }
  | faulted {unread position results stage fault consumed after}
    (nonempty : unread ≠ [])
    (invoked : decoder.invoke false unread stage = (.faulted fault, consumed, after)) :
    Rounds decoder unread position results stage
      { outcome := .faulted fault, position, unread, stage := after }
  | stalled {unread position results stage found after}
    (nonempty : unread ≠ [])
    (invoked : decoder.invoke false unread stage = (.done found, 0, after))
    (isResult : found.isResult) :
    Rounds decoder unread position results stage
      { outcome := .failed (.stalled results), position, unread
        stage   := after.note (.stalled position unread.length results) }
  | refused {unread position results stage found consumed after fault final}
    (nonempty : unread ≠ [])
    (invoked : decoder.invoke false unread stage = (.done found, consumed, after))
    (isResult : found.isResult)
    (progress : 0 < consumed)
    (dispatched : decoder.dispatch found after.context.source after = (some fault, final)) :
    Rounds decoder unread position results stage
      { outcome := .faulted fault, position := position + consumed
        unread  := unread.drop consumed, stage := final }
  | skipped {unread position results stage consumed after pass}
    (nonempty : unread ≠ [])
    (invoked : decoder.invoke false unread stage = (.done .nothing, consumed, after))
    (progress : 0 < consumed)
    (rest : Rounds decoder (unread.drop consumed) (position + consumed) results
      (after.note (.skipped consumed)) pass) :
    Rounds decoder unread position results stage pass
  | dispatched {unread position results stage found consumed after next pass}
    (nonempty : unread ≠ [])
    (invoked : decoder.invoke false unread stage = (.done found, consumed, after))
    (isResult : found.isResult)
    (progress : 0 < consumed)
    (dispatched : decoder.dispatch found after.context.source after = (none, next))
    (rest : Rounds decoder (unread.drop consumed) (position + consumed) (results + 1) next pass) :
    Rounds decoder unread position results stage pass

theorem rounds_pass (unread : Bytes) (position results : Nat) (stage : Stage σ φ ε μ) :
    decoder.Rounds unread position results stage (decoder.pass unread position results stage) := by
  fun_induction decoder.pass unread position results stage
  case case1             => exact .exhausted
  case case2 ne _ _ _ h  => exact .failed ne h
  case case3 ne _ _ _ h  => exact .faulted ne h
  case case4 ne _ h      => exact .waiting ne h
  case case5 ne _ _ h ih => exact .skipped ne h (Nat.succ_pos _) ih
  case case6 ne _ _ f h  => exact .stalled ne h (Found.isResult_of_ne_nothing f)
  case case7 ne _ _ _ f h _ _ d ih =>
    exact .dispatched ne h (Found.isResult_of_ne_nothing f) (Nat.succ_pos _) d ih
  case case8 ne _ _ _ f h _ _ _ d =>
    exact .refused ne h (Found.isResult_of_ne_nothing f) (Nat.succ_pos _) d

namespace Rounds

variable {unread : Bytes} {position results : Nat} {stage : Stage σ φ ε μ} {pass : Pass σ φ ε μ}

theorem eq_pass (rounds : decoder.Rounds unread position results stage pass) :
    decoder.pass unread position results stage = pass := by
  induction rounds <;> rw [Decoder.pass]
  case exhausted                      => rfl
  case waiting | failed | faulted     => simp [*]
  case stalled found _ _ _ _          => cases found <;> simp_all [Found.isResult]
  case skipped consumed _ _ _ _ _ _ _ => cases consumed <;> simp_all
  case refused found consumed _ _ _ _ _ _ _ _ =>
    cases found <;> cases consumed <;> simp_all [Found.isResult]
  case dispatched found consumed _ _ _ _ _ _ _ _ _ _ =>
    cases found <;> cases consumed <;> simp_all [Found.isResult]

theorem decodes (rounds : decoder.Rounds unread position results stage pass) :
    Stage.Decodes 0 stage pass.stage := by
  induction rounds
  case exhausted           => exact (Stage.Decodes.refl _).act _
  case waiting h           => exact (invoke_decodes h).act _
  case failed h            => exact invoke_decodes h
  case faulted h           => exact invoke_decodes h
  case stalled h _         => exact (invoke_decodes h).act _
  case refused h _ _ d     => exact (invoke_decodes h).trans (dispatch_decodes d)
  case skipped h _ _ ih    => exact ((invoke_decodes h).act _).trans ih
  case dispatched h _ _ d _ ih => exact ((invoke_decodes h).trans (dispatch_decodes d)).trans ih

-- Only the number of results changes in what the strategy is told.
theorem context_eq (rounds : decoder.Rounds unread position results stage pass) :
    ∃ results, pass.stage.context = { stage.context with results } := by
  induction rounds
  case exhausted => exact ⟨_, rfl⟩
  case waiting h | failed h | faulted h | stalled h _ =>
    have context := invoke_context h
    exact ⟨_, context⟩
  case refused stage _ _ _ _ _ _ h _ _ d =>
    refine ⟨stage.context.results + 1, (dispatch_context d).trans ?_⟩
    rw [Stage.countResult, invoke_context h]
  case skipped h _ _ ih =>
    obtain ⟨results, context⟩ := ih
    refine ⟨results, context.trans ?_⟩
    rw [Stage.note, Stage.context_act, invoke_context h]
  case dispatched h _ _ d _ ih =>
    obtain ⟨results, context⟩ := ih
    refine ⟨results, context.trans ?_⟩
    rw [dispatch_context d, Stage.countResult, invoke_context h]

-- All of a pass is about the chunk that was delivered last.
theorem source_eq (rounds : decoder.Rounds unread position results stage pass) :
    pass.stage.context.source = stage.context.source := by
  have ⟨_, context⟩ := rounds.context_eq
  rw [context]

-- Where the bytes come from, and whether the stream has ended, is the same for all invocations.
theorem contexts (rounds : decoder.Rounds unread position results stage pass) :
    ∃ made handed, Stage.Grows made handed stage pass.stage ∧
      ∀ invoked ∈ made, invoked.Ordinary stage.context := by
  have once {unread outcome consumed} {stage : Stage σ φ ε μ} (nonempty : unread ≠ []) :
      ∀ invoked ∈ [(⟨false, stage.context, unread, outcome, consumed⟩ : Trace.Invoked φ ε)],
        invoked.Ordinary stage.context :=
    List.forall_mem_singleton.mpr ⟨rfl, nonempty, rfl, rfl⟩
  induction rounds
  case exhausted            => exact ⟨_, _, (Stage.Grows.refl _).note _, nofun⟩
  case waiting ne h         => exact ⟨_, _, (invoke_grows h).note _, once ne⟩
  case failed ne h          => exact ⟨_, _, invoke_grows h, once ne⟩
  case faulted ne h         => exact ⟨_, _, invoke_grows h, once ne⟩
  case stalled ne h _       => exact ⟨_, _, (invoke_grows h).note _, once ne⟩
  case refused ne h _ _ d =>
    have ⟨_, _, _, grows⟩ := dispatch_grows d
    exact ⟨_, _, (invoke_grows h).trans grows, once ne⟩
  case skipped ne h _ _ ih =>
    have ⟨_, _, grows, rest⟩ := ih
    have same := invoke_context h
    refine ⟨_, _, ((invoke_grows h).note _).trans grows, List.forall_mem_append.mpr ⟨once ne, ?_⟩⟩
    exact fun invoked mem => same ▸ rest invoked mem
  case dispatched ne h _ _ d _ ih =>
    have ⟨_, _, grows, rest⟩ := ih
    have ⟨_, _, _, handing⟩ := dispatch_grows d
    have same := invoke_context h
    refine ⟨_, _, ((invoke_grows h).trans handing).trans grows,
      List.forall_mem_append.mpr ⟨once ne, fun invoked mem => ?_⟩⟩
    have ⟨ordinary, shown, source, ending⟩ := rest invoked mem
    rw [dispatch_context d] at source ending
    exact ⟨ordinary, shown, same ▸ source, same ▸ ending⟩

-- The position tells what was left unread.
theorem position_eq (rounds : decoder.Rounds unread position results stage pass) :
    ∃ consumed, pass.position = position + consumed ∧ pass.unread = unread.drop consumed := by
  induction rounds
  case refused => exact ⟨_, rfl, rfl⟩
  case skipped ih | dispatched ih =>
    have ⟨_, h, h'⟩ := ih
    exact ⟨_, h.trans (Nat.add_assoc ..), h'.trans List.drop_drop⟩
  all_goals exact ⟨0, rfl, rfl⟩

-- A pass does not come past the end of its bytes.
theorem position_le (rounds : decoder.Rounds unread position results stage pass) :
    pass.position ≤ position + unread.length := by
  induction rounds
  case refused h _ _ _ => exact Nat.add_le_add_left (invoke_consumed_le h) _
  case skipped h _ _ ih | dispatched h _ _ _ _ ih =>
    have := invoke_consumed_le h
    rw [List.length_drop] at ih
    omega
  all_goals exact Nat.le_add_right ..

end Rounds
end Decoder
end Framing
