import Framing.Proofs.Likeness
import Framing.Proofs.Run
import Framing.Strategy.Elementary

/-!
Fragmentation. A strategy that does not change its mind when more bytes follow those that it was
shown finds the same frames in a stream, however the stream is split into chunks.
-/

namespace Framing

variable {σ φ ε μ : Type}

-- Whether the strategy waits for more bytes.
def Invocation.Waits (invocation : Invocation σ φ ε) : Prop :=
  invocation.outcome = .done .nothing ∧ invocation.consumed = 0

-- As long as it waits, a prefix-stable strategy changes nothing; and once it has an answer, more
-- bytes do not change the answer. What makes it fault is not an answer.
structure Strategy.PrefixStable (strategy : Strategy σ φ ε) : Prop where
  waiting   : ∀ state context unread, (strategy.decode state context unread).Waits →
    (strategy.decode state context unread).state = state
  answering : ∀ state context unread more, ¬(strategy.decode state context unread).Waits →
    (strategy.decode state context unread).outcome.returns →
    (strategy.decode state context unread).Agrees (strategy.decode state context (unread ++ more))

-- A piece that is complete stays the same.
theorem Strategy.pieces_prefixStable (ε : Type) (size : Nat) :
    (Strategy.pieces ε size).PrefixStable where
  waiting _ _ _ _ := rfl
  answering _ _ unread more answers _ := by
    by_cases enough : size ≤ unread.length
    case pos =>
      have enough' : size ≤ unread.length + more.length := by omega
      constructor <;>
        simp [Strategy.pieces, Strategy.nextPiece, enough, enough', List.take_append_of_le_length]
    case neg =>
      refine absurd ?_ answers
      simp [Strategy.pieces, Strategy.nextPiece, enough, Invocation.Waits]

namespace Decoder

variable {decoder : Decoder σ φ ε μ} {unread : Bytes} {position results : Nat}
variable {stage stage' after : Stage σ φ ε μ} {outcome : Outcome ε (Found φ)} {consumed : Nat}

theorem invoke_waited (stable : decoder.strategy.PrefixStable)
    (h : decoder.invoke false unread stage = (.done .nothing, 0, after)) :
    Stage.Alike .events stage after := by
  have ⟨_, eq⟩ := invoke_eq h
  have waits : (decoder.strategy.decode stage.strategyState stage.context unread).Waits := by
    simp_all [invocation_false, Invocation.Waits]
  have state := stable.waiting _ _ _ waits
  exact .self_invoke h (by simp_all [invocation_false])

-- The same answer, with more bytes behind those that were enough for it.
theorem invoke_answered (stable : decoder.strategy.PrefixStable)
    (alike : Stage.Alike .events stage stage')
    (h : decoder.invoke false unread stage = (outcome, consumed, after))
    (answers : ¬(outcome = .done .nothing ∧ consumed = 0)) (returns : outcome.returns)
    (more : Bytes) :
    ∃ after', decoder.invoke false (unread ++ more) stage' = (outcome, consumed, after') ∧
      Stage.Alike .events after after' := by
  have ⟨_, eq⟩ := invoke_eq h
  have agrees := stable.answering stage.strategyState stage.context unread more
  simp only [← invocation_false] at agrees
  refine alike.invoke_of_agrees h (agrees ?_ ?_)
  · rw [eq]
    exact answers
  · rw [eq]
    exact returns

-- What comes of a pass when `more` bytes follow its own: where the pass left off, `whole` goes on;
-- and where it broke off, so does `whole`.
inductive Pass.Resumed (decoder : Decoder σ φ ε μ) (pass : Pass σ φ ε μ) (more : Bytes)
    (whole : Pass σ φ ε μ) : Prop
  | resumed {results position' results' stage}
    (done : pass.outcome = .done results)
    (alike : Stage.Alike .events pass.stage stage)
    (eq : whole = decoder.pass (pass.unread ++ more) position' results' stage)
  | brokenOff
    (broken : ∀ results, pass.outcome ≠ .done results)
    (alike : Pass.Alike .events { pass with unread := pass.unread ++ more } whole)

theorem Rounds.resumed (stable : decoder.strategy.PrefixStable) {pass : Pass σ φ ε μ}
    (rounds : decoder.Rounds unread position results stage pass)
    (calm : ∀ invoked ∈ pass.stage.trace.invocations, invoked.outcome.returns)
    (alike : Stage.Alike .events stage stage') (more : Bytes) (position' results' : Nat) :
    pass.Resumed decoder more (decoder.pass (unread ++ more) position' results' stage') := by
  induction rounds generalizing stage' position' results'
  case exhausted => exact .resumed rfl (alike.act_left _) rfl
  case waiting h => exact .resumed rfl (((invoke_waited stable h).symm.trans alike).act_left _) rfl
  case failed nonempty h =>
    have ⟨_, h', alike⟩ := invoke_answered stable alike h nofun rfl more
    rw [(Rounds.failed (List.append_ne_nil_of_left_ne_nil nonempty _) h').eq_pass]
    exact .brokenOff nofun ⟨rfl, rfl, alike⟩
  case faulted h =>
    have returns := calm _ (by rw [(invoke_grows h).invocations]; exact List.mem_concat_self)
    cases returns
  case stalled nonempty h isResult =>
    have ⟨_, h', alike⟩ := invoke_answered stable alike h (by rintro ⟨⟨⟩, _⟩; cases isResult) rfl more
    rw [(Rounds.stalled (List.append_ne_nil_of_left_ne_nil nonempty _) h' isResult).eq_pass]
    exact .brokenOff nofun ⟨rfl, rfl, alike.note _ _⟩
  case refused nonempty h isResult progress d =>
    have ⟨_, h', alike⟩ := invoke_answered stable alike h (by simp; omega) rfl more
    have ⟨_, d', alike'⟩ := alike.dispatch d
    rw [(Rounds.refused (List.append_ne_nil_of_left_ne_nil nonempty _) h' isResult progress
      (alike.context ▸ d')).eq_pass]
    exact .brokenOff nofun
      ⟨rfl, (List.drop_append_of_le_length (invoke_consumed_le h)).symm, alike'⟩
  case skipped nonempty h progress _ ih =>
    have ⟨_, h', alike⟩ := invoke_answered stable alike h (by simp; omega) rfl more
    rw [(Rounds.skipped (List.append_ne_nil_of_left_ne_nil nonempty _) h' progress
      (rounds_pass ..)).eq_pass, List.drop_append_of_le_length (invoke_consumed_le h)]
    exact ih calm (alike.note _ _) _ _
  case dispatched nonempty h isResult progress d _ ih =>
    have ⟨_, h', alike⟩ := invoke_answered stable alike h (by simp; omega) rfl more
    have ⟨_, d', alike'⟩ := alike.dispatch d
    rw [(Rounds.dispatched (List.append_ne_nil_of_left_ne_nil nonempty _) h' isResult progress
      (alike.context ▸ d') (rounds_pass ..)).eq_pass,
      List.drop_append_of_le_length (invoke_consumed_le h)]
    exact ih calm alike' _ _

-- The strategy needs more than `unread` to go on.
def Waits (decoder : Decoder σ φ ε μ) (unread : Bytes) (stage : Stage σ φ ε μ) : Prop :=
  unread ≠ [] → ∃ after, decoder.invoke false unread stage = (.done .nothing, 0, after)

theorem Waits.alike {focus : Trace.Focus φ ε μ} (waits : decoder.Waits unread stage)
    (alike : Stage.Alike focus stage stage') : decoder.Waits unread stage' := by
  intro nonempty
  have ⟨_, h⟩ := waits nonempty
  have ⟨_, h', _⟩ := alike.invoke h
  exact ⟨_, h'⟩

-- A pass gets nowhere as long as the strategy waits.
theorem Waits.pass (stable : decoder.strategy.PrefixStable) (waits : decoder.Waits unread stage)
    (position results : Nat) : Pass.Alike .events
      { outcome := .done results, position, unread, stage }
      (decoder.pass unread position results stage) := by
  by_cases nonempty : unread = []
  case pos =>
    rw [nonempty, Rounds.exhausted.eq_pass]
    exact ⟨rfl, rfl, .self_act ..⟩
  case neg =>
    have ⟨_, h⟩ := waits nonempty
    rw [(Rounds.waiting nonempty h).eq_pass]
    exact ⟨rfl, rfl, (invoke_waited stable h).act_right _⟩

-- A pass that does not break off goes on until the strategy waits.
theorem Rounds.waits (stable : decoder.strategy.PrefixStable) {pass : Pass σ φ ε μ}
    (rounds : decoder.Rounds unread position results stage pass) {total : Nat}
    (done : pass.outcome = .done total) : decoder.Waits pass.unread pass.stage := by
  induction rounds
  case exhausted => exact absurd rfl
  case waiting h =>
    have waits : decoder.Waits _ _ := fun _ => ⟨_, h⟩
    exact waits.alike ((invoke_waited stable h).act_right _)
  case skipped ih | dispatched ih => exact ih done
  all_goals cases done

-- A decoder whose stream goes on, and whose strategy waits for another chunk from `source`.
structure Awaits (decoder : Decoder σ φ ε μ) (source : Source) (state : State σ φ ε μ) : Prop where
  runs  : state.ended = false
  rests : state.retention.Rests state.retention.unread
  waits : decoder.Waits state.retention.unread (state.toStage.hearing source)

theorem initial_awaits (decoder : Decoder σ φ ε μ) (start : σ) (source : Source) :
    decoder.Awaits source (.initial start) where
  runs  := rfl
  rests := Retention.initial_rests
  waits := absurd rfl

-- What feeding chunks from `source` came to, if `whole` is the pass over all of their bytes.
structure AmountsTo (source : Source) (result : Outcome (DecodeError ε) Unit × State σ φ ε μ)
    (whole : Pass σ φ ε μ) : Prop where
  outcome : result.1.uncounted = whole.outcome.uncounted
  stage   : Stage.Alike .events (result.2.toStage.hearing source) whole.stage
  unread  : result.1 = .done () → result.2.retention.unread = whole.unread
  ended   : result.2.ended = false

variable {source : Source} {chunk : Bytes} {state : State σ φ ε μ} {pass whole : Pass σ φ ε μ}
variable {result : Outcome (DecodeError ε) Unit × State σ φ ε μ}

namespace Fed

theorem hearing_alike (fed : decoder.Fed chunk source state pass result) :
    Stage.Alike .events (result.2.toStage.hearing source) pass.stage := by
  have ⟨_, _, rounds⟩ := fed.rounds
  have ⟨settling, stage⟩ := fed.stage
  have same : pass.stage.hearing source = pass.stage := Stage.hearing_eq rounds.source_eq
  have alike : Stage.Alike .events pass.stage (pass.stage.act settling) := .self_act ..
  rw [stage, ← same]
  exact alike.symm.hearing source

-- Where a pass goes on until the strategy waits, another chunk is awaited.
theorem awaits (stable : decoder.strategy.PrefixStable)
    (fed : decoder.Fed chunk source state pass result) {total : Nat}
    (done : pass.outcome = .done total) : decoder.Awaits source result.2 := by
  have ⟨_, _, rounds⟩ := fed.rounds
  have rests  := fed.rests (by rw [done]; rfl)
  have unread := rests.unread_eq
  refine ⟨fed.ended, unread.symm ▸ rests, ?_⟩
  rw [unread]
  exact (rounds.waits stable done).alike fed.hearing_alike.symm

end Fed

-- However many chunks follow, feeding them is one pass over all of their bytes.
theorem Awaits.feedEach (stable : decoder.strategy.PrefixStable) (chunks : List Bytes)
    (awaits : decoder.Awaits source state)
    (calm : ∀ invoked ∈
      (decoder.feedEach (chunks.map (·, source)) state).2.trace.invocations, invoked.outcome.returns)
    (alike : Stage.Alike .events (state.toStage.hearing source) stage) (position results : Nat) :
    AmountsTo source (decoder.feedEach (chunks.map (·, source)) state)
      (decoder.pass (state.retention.unread ++ chunks.flatten) position results stage) := by
  induction chunks generalizing state stage position results
  case nil =>
    have ⟨outcome, unread, stage⟩ := (awaits.waits.alike alike).pass stable position results
    simp only [List.flatten_nil, List.append_nil]
    exact ⟨outcome, alike.trans stage, fun _ => unread, awaits.runs⟩
  case cons chunk chunks ih =>
    by_cases nonempty : chunk = []
    case pos =>
      subst nonempty
      rw [List.map_cons, feedEach_cons_of_done rfl, feed_nil] at calm ⊢
      have noted : Stage.Alike .events ((state.note .emptyChunkIgnored).toStage.hearing source)
          (state.toStage.hearing source) :=
        (Stage.Alike.self_act state.toStage _).symm.hearing source
      have awaits' : decoder.Awaits source (state.note .emptyChunkIgnored) :=
        { awaits with waits := awaits.waits.alike noted.symm }
      exact ih awaits' calm (noted.trans alike) position results
    case neg =>
      have ⟨pass, fed⟩ := decoder.feed_fed nonempty source awaits.runs awaits.rests.sound
      have ⟨_, _, rounds⟩ := fed.rounds
      have ⟨_, settled⟩ := fed.stage
      have calm' : ∀ invoked ∈ pass.stage.trace.invocations, invoked.outcome.returns := by
        intro invoked made
        apply calm invoked
        apply feedEach_cons_invocations_subset
        simpa [settled] using made
      have resumed := rounds.resumed stable calm' (alike.act_left _) chunks.flatten position results
      rw [List.flatten_cons, ← List.append_assoc]
      cases resumed
      case resumed total position' results' stage' done alike' eq =>
        have done' : (decoder.feed chunk source state).1 = .done () := by
          rw [fed.outcome, done]
          rfl
        rw [List.map_cons, feedEach_cons_of_done done'] at calm ⊢
        rw [eq, ← (fed.rests (by rw [done]; rfl)).unread_eq]
        exact ih (fed.awaits stable done) calm (fed.hearing_alike.trans alike') position' results'
      case brokenOff broken alike' =>
        have broken' : (decoder.feed chunk source state).1 ≠ .done () := by
          rw [fed.outcome]
          cases h : pass.outcome <;> simp_all [Outcome.map]
        rw [List.map_cons, feedEach_cons_of_ne broken']
        refine ⟨?_, fed.hearing_alike.trans alike'.stage, (absurd · broken'), fed.ended⟩
        rw [fed.outcome, Outcome.uncounted_map]
        exact alike'.outcome

variable (decoder) in
theorem AmountsTo.thenFinish {result' : Outcome (DecodeError ε) Unit × State σ φ ε μ}
    (amounts : AmountsTo source result whole) (amounts' : AmountsTo source result' whole)
    (signal : EndSignal) :
    (decoder.thenFinish signal result).1.uncounted =
      (decoder.thenFinish signal result').1.uncounted ∧
    (decoder.thenFinish signal result).2.trace.events =
      (decoder.thenFinish signal result').2.trace.events := by
  have outcome := amounts.outcome.trans amounts'.outcome.symm
  have alike   := amounts.stage.trans amounts'.stage.symm
  have unread (done : result.1 = .done ()) (done' : result'.1 = .done ()) :=
    (amounts.unread done).trans (amounts'.unread done').symm
  rcases result with ⟨_ | _ | _, state⟩ <;> rcases result' with ⟨_ | _ | _, state'⟩ <;>
    simp only [Outcome.uncounted, reduceCtorEq] at outcome
  case done.done =>
    have concur : Concur .events (decoder.finish signal state) (decoder.finish signal state') :=
      finish_concur signal alike.beginEnding (unread rfl rfl) amounts.ended amounts'.ended
    exact ⟨congrArg _ concur.outcome, concur.stage.events⟩
  case failed.failed | faulted.faulted => exact ⟨outcome, alike.events⟩

-- The outcome is the same but for the number of results in the last delivery.
theorem stream_eq_of_flatten_eq (decoder : Decoder σ φ ε μ) (stable : decoder.strategy.PrefixStable)
    (start : σ) (source : Source) (signal : EndSignal) (chunks chunks' : List Bytes)
    (same : chunks.flatten = chunks'.flatten)
    (calm : ∀ invoked ∈ (decoder.feedAll source chunks (.initial start)).2.trace.invocations,
      invoked.outcome.returns)
    (calm' : ∀ invoked ∈ (decoder.feedAll source chunks' (.initial start)).2.trace.invocations,
      invoked.outcome.returns) :
    let fed    := decoder.feedAll source chunks (.initial start)
    let fed'   := decoder.feedAll source chunks' (.initial start)
    let ended  := decoder.thenFinish signal fed
    let ended' := decoder.thenFinish signal fed'
    ended.2.trace.events = ended'.2.trace.events ∧
    ended.1.uncounted = ended'.1.uncounted ∧
    fed.1.uncounted = fed'.1.uncounted ∧
    (fed.1 = .done () → fed.2.retention.unread = fed'.2.retention.unread) := by
  simp only [feedAll_eq_feedEach] at calm calm' ⊢
  have awaits := decoder.initial_awaits start source
  have amounts  := awaits.feedEach stable chunks calm (.refl _) 0 0
  have amounts' := awaits.feedEach stable chunks' calm' (.refl _) 0 0
  rw [← same] at amounts'
  have outcome := amounts.outcome.trans amounts'.outcome.symm
  have ⟨outcome', events⟩ := amounts.thenFinish decoder amounts' signal
  refine ⟨events, outcome', outcome, fun done => ?_⟩
  have done' := Outcome.uncounted_eq_done_iff.mp (outcome.symm.trans (congrArg _ done))
  exact (amounts.unread done).trans (amounts'.unread done').symm

-- Pieces of two bytes, of which the last is cut short by the end of the stream.
theorem stream_pieces_eq_of_flatten_eq :
    let decoder : Decoder _ _ _ Unit :=
      { strategy := .pieces FramingError 2, receiver := .collecting }
    let chunks  := [[1], [2, 3], [], [4, 5]]
    let chunks' := [[1, 2, 3, 4], [5]]
    let ended   := decoder.thenFinish .closed (decoder.feedAll none chunks (.initial ()))
    let ended'  := decoder.thenFinish .closed (decoder.feedAll none chunks' (.initial ()))
    decoder.strategy.PrefixStable ∧ chunks.flatten = chunks'.flatten ∧
    ended.2.trace.events = ended'.2.trace.events ∧ ended.1.uncounted = ended'.1.uncounted ∧
    ended.2.trace.events =
      [.frame [1, 2] none, .frame [3, 4] none, .frame [5] none, .ended .closed] := by
  intro decoder chunks chunks' ended ended'
  have stable : decoder.strategy.PrefixStable := Strategy.pieces_prefixStable FramingError 2
  have same : chunks.flatten = chunks'.flatten := rfl
  have ⟨events, outcome, _⟩ := decoder.stream_eq_of_flatten_eq stable () none .closed chunks chunks'
    same (by decide +kernel) (by decide +kernel)
  exact ⟨stable, same, events, outcome, by decide +kernel⟩

end Decoder
end Framing
