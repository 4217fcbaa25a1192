import Framing.Proofs.Conservation
import Framing.Proofs.Ending
import Framing.Strategy.Script

/-!
The first end of a stream. The strategy goes over what is unread once more and then, if that went
well, has its last say on the rest, and the signal comes behind all of it, on every way out.
-/

namespace Framing.Decoder

variable {σ φ ε μ : Type}

-- How the strategy's last say on `unread` comes out: what the flush comes to, the one invocation
-- that this is, and the events that are handed over. A result is dispatched whatever it has
-- consumed.
inductive Concludes (decoder : Decoder σ φ ε μ) (unread : Bytes) (stage : Stage σ φ ε μ) :
    Outcome (DecodeError ε) Unit → Trace.Invoked φ ε → List (Event φ μ) → Prop
  | failed {error consumed state notices}
    (invoked : decoder.invocation true unread stage = ⟨.failed error, consumed, state, notices⟩) :
    Concludes decoder unread stage (.failed (.strategy error))
      ⟨true, stage.context, unread, .failed error, consumed⟩ []
  | faulted {fault consumed state notices}
    (invoked : decoder.invocation true unread stage = ⟨.faulted fault, consumed, state, notices⟩) :
    Concludes decoder unread stage (.faulted fault)
      ⟨true, stage.context, unread, .faulted fault, consumed⟩ []
  | dispatched {found consumed state notices}
    (invoked : decoder.invocation true unread stage = ⟨.done found, consumed, state, notices⟩) :
    Concludes decoder unread stage (.done ())
      ⟨true, stage.context, unread, .done found, consumed⟩ (found.events decoder.grouping none)
  | refused {found consumed state notices handed event fault}
    (invoked : decoder.invocation true unread stage = ⟨.done found, consumed, state, notices⟩)
    (part : handed ++ [event] <+: found.events decoder.grouping none)
    (refuses : decoder.receiver.receive (stage.handed + handed.length) event = .refused fault) :
    Concludes decoder unread stage (.faulted fault)
      ⟨true, stage.context, unread, .done found, consumed⟩ (handed ++ [event])

-- How a flush goes on behind the `pass` over what was unread: unless that went well, it is over.
inductive Flushes (decoder : Decoder σ φ ε μ) (pass : Pass σ φ ε μ) :
    Outcome (DecodeError ε) Unit → List (Trace.Invoked φ ε) → List (Event φ μ) → Prop
  | failed {error} (failed : pass.outcome = .failed error) :
    Flushes decoder pass (.failed error) [] []
  | faulted {fault} (faulted : pass.outcome = .faulted fault) :
    Flushes decoder pass (.faulted fault) [] []
  | concluded {total outcome invoked handed} (went : pass.outcome = .done total)
    (last : Concludes decoder pass.unread pass.stage outcome invoked handed) :
    Flushes decoder pass outcome [invoked] handed

variable {decoder : Decoder σ φ ε μ} {unread : Bytes} {stage : Stage σ φ ε μ}
variable {outcome : Outcome (DecodeError ε) Unit} {invoked : Trace.Invoked φ ε}
variable {handed : List (Event φ μ)}

namespace Concludes

-- Notices and counts make no difference to it.
theorem act (concludes : decoder.Concludes unread stage outcome invoked handed)
    (activities : List Activity) :
    decoder.Concludes unread (stage.act activities) outcome invoked handed := by
  cases concludes
  case failed invoked               => exact .failed invoked
  case faulted invoked              => exact .faulted invoked
  case dispatched invoked           => exact .dispatched invoked
  case refused invoked part refuses => exact .refused invoked part refuses

theorem invoked_eq (concludes : decoder.Concludes unread stage outcome invoked handed) :
    invoked.last = true ∧ invoked.context = stage.context ∧ invoked.unread = unread := by
  cases concludes <;> exact ⟨rfl, rfl, rfl⟩

theorem isDecoded (concludes : decoder.Concludes unread stage outcome invoked handed) :
    ∀ event ∈ handed, event.isDecoded := by
  cases concludes
  case failed | faulted => exact nofun
  case dispatched       => exact fun _ => Found.isDecoded_of_mem_events
  case refused part _   => exact fun _ mem => Found.isDecoded_of_mem_events (part.subset mem)

end Concludes

theorem conclude_concludes (unread : Bytes) (stage : Stage σ φ ε μ) :
    ∃ invoked handed,
      decoder.Concludes unread stage (decoder.conclude unread stage).1 invoked handed ∧
      Stage.Grows [invoked] handed stage (decoder.conclude unread stage).2 := by
  rcases invokes : decoder.invoke true unread stage with ⟨outcome, consumed, after⟩
  obtain ⟨notices, invoked⟩ := invoke_eq invokes
  have grows := invoke_grows invokes
  cases outcome
  case failed error =>
    rw [conclude_of_failed invokes]
    exact ⟨_, _, .failed invoked, grows⟩
  case faulted fault =>
    rw [conclude, invokes]
    exact ⟨_, _, .faulted invoked, grows⟩
  case done found =>
    rw [conclude_of_done invokes]
    dsimp only
    split
    case isFalse nothing =>
      cases found
      case nothing       => exact ⟨_, _, .dispatched invoked, grows.act _⟩
      case frame | group => exact absurd rfl nothing
    case isTrue =>
      let left := after.act (discarding (unread.length - consumed))
      have same : left.handed = stage.handed :=
        (Stage.handed_act ..).trans (invoke_handed invokes)
      rcases dispatches : decoder.dispatch found none left with ⟨_ | fault, final⟩
      case none =>
        obtain ⟨_, _, all, grows'⟩ := dispatch_grows dispatches
        cases all rfl
        exact ⟨_, _, .dispatched invoked, (grows.act _).trans grows'⟩
      case some =>
        obtain ⟨_, _, part, refuses, grows'⟩ := dispatch_refused dispatches
        exact ⟨_, _, .refused invoked part (same ▸ refuses), (grows.act _).trans grows'⟩

-- Unless the pass over the retained bytes goes well, the flush comes out as it does.
theorem flush_of_broken {pass : Pass σ φ ε μ} {position : Nat}
    (rounds : decoder.Rounds unread position 0
      (stage.beginEnding.note (.ending unread.length)) pass)
    (broken : ∀ total, pass.outcome ≠ .done total) :
    decoder.flush unread position stage = (pass.outcome.map fun _ => (), pass.stage) := by
  simp only [flush]
  split
  case isTrue empty =>
    subst empty
    rw [← rounds.eq_pass, Rounds.exhausted.eq_pass] at broken
    exact absurd rfl (broken 0)
  case isFalse =>
    rw [rounds.eq_pass]
    rcases outcome : pass.outcome with total | error | fault
    case done             => exact absurd outcome (broken total)
    case failed | faulted => rfl

theorem Flushes.isDecoded {pass : Pass σ φ ε μ} {last : List (Trace.Invoked φ ε)}
    (flushes : decoder.Flushes pass outcome last handed) : ∀ event ∈ handed, event.isDecoded := by
  cases flushes
  case failed | faulted    => exact nofun
  case concluded concludes => exact concludes.isDecoded

theorem Flushes.context_eq {pass : Pass σ φ ε μ} {last : List (Trace.Invoked φ ε)}
    (flushes : decoder.Flushes pass outcome last handed) :
    ∀ invoked ∈ last, invoked.context = pass.stage.context := by
  cases flushes
  case failed | faulted    => exact nofun
  case concluded concludes => exact List.forall_mem_singleton.mpr concludes.invoked_eq.2.1

theorem flush_flushes {pass : Pass σ φ ε μ} {position : Nat}
    (rounds : decoder.Rounds unread position 0
      (stage.beginEnding.note (.ending unread.length)) pass) :
    ∃ last handed, decoder.Flushes pass (decoder.flush unread position stage).1 last handed ∧
      Stage.Grows last handed pass.stage (decoder.flush unread position stage).2 := by
  rcases outcome : pass.outcome with total | error | fault
  case done =>
    have ⟨before, passing, settled, flushed⟩ := flush_of_done rounds outcome
    have ⟨invoked, handed, concludes, grows⟩ := decoder.conclude_concludes pass.unread before
    rw [flushed]
    exact ⟨[invoked], handed, .concluded outcome (settled ▸ concludes.act passing),
      settled ▸ grows.of_act _ passing⟩
  case failed =>
    rw [flush_of_broken rounds (by simp [outcome]), outcome]
    exact ⟨_, _, .failed outcome, .refl _⟩
  case faulted =>
    rw [flush_of_broken rounds (by simp [outcome]), outcome]
    exact ⟨_, _, .faulted outcome, .refl _⟩

-- The state may be any in which the stream goes on, whatever has happened before. The signal is the
-- event that was handed over last, so what the receiver makes of it is said of that ordinal.
theorem finish_flushes_once (decoder : Decoder σ φ ε μ) {state : State σ φ ε μ}
    (runs : state.ended = false) (signal : EndSignal) :
    let unread := state.retention.unread
    let begun  := state.beginEnding.note (.ending unread.length)
    let pass   := decoder.pass unread (state.retention.buffer.elim 0 Buffer.consumed) 0 begun
    let result := decoder.finish signal state
    ∃ outcome made last passed handed,
      Stage.Processes decoder unread made passed pass.unread begun pass.stage ∧
      decoder.Flushes pass outcome last handed ∧
      result.2.trace.invocations = state.trace.invocations ++ made ++ last ∧
      result.2.trace.events = state.trace.events ++ passed ++ handed ++ [.ended signal] ∧
      (∀ invoked ∈ made, invoked.last = false) ∧
      (∀ invoked ∈ made ++ last, invoked.context.source = none ∧ invoked.context.ending = true) ∧
      (∀ event ∈ passed ++ handed, event.isDecoded) ∧
      ((∀ fault, decoder.receiver.receive (result.2.handed - 1) (.ended signal) ≠ .refused fault) →
        result.1 = outcome) ∧
      result.2.ended = true ∧ result.2.retention.buffer = none := by
  intro unread begun pass result
  let position := state.retention.buffer.elim 0 Buffer.consumed
  let flushed  := decoder.flush unread position state.toStage
  let settled : Outcome (DecodeError ε) Unit × State σ φ ε μ := recorded
    (flushed.1, { toStage := flushed.2, retention := state.retention.release, ended := true })
  have eq : result = decoder.forward signal settled := finish_of_runs runs rfl signal
  have rounds : decoder.Rounds unread position 0 begun pass := decoder.rounds_pass ..
  have ⟨_, passed, processes, _⟩ := rounds.processes
  have ⟨made, _, grows, ordinary⟩ := rounds.contexts
  obtain rfl := (grows.unique processes.grows).1
  have ⟨last, handed, flushes, grown⟩ := flush_flushes rounds
  have ⟨settling, stage, _⟩ := recorded_stage
    (flushed.1, { toStage := flushed.2, retention := state.retention.release, ended := true })
  have ⟨_, context⟩ := rounds.context_eq
  have ended : Stage.Grows (made ++ last) (passed ++ handed ++ [.ended signal])
      state.toStage result.2.toStage := by
    have decoded := ((beginEnding_grows state.toStage _).trans processes.grows).trans grown
    have forwarded : Stage.Grows [] [.ended signal] settled.2.toStage result.2.toStage :=
      eq ▸ forward_grows signal settled
    rw [stage] at forwarded
    simpa using (decoded.act settling).trans forwarded
  refine ⟨flushed.1, made, last, passed, handed, processes, flushes, ?_, ?_,
    fun invoked mem => (ordinary invoked mem).last, ?_, ?_, fun taken => ?_, ?_⟩
  · simp [ended.invocations]
  · simp [ended.events]
  · refine List.forall_mem_append.mpr ⟨fun invoked mem => ?_, fun invoked mem => ?_⟩
    · exact ⟨(ordinary invoked mem).source, (ordinary invoked mem).ending⟩
    · rw [flushes.context_eq invoked mem, context]
      exact ⟨rfl, rfl⟩
  · exact List.forall_mem_append.mpr ⟨processes.dispatches.isDecoded, flushes.isDecoded⟩
  · rw [eq, forward_handed, Nat.add_sub_cancel] at taken
    rw [eq, forward_of_taken signal settled taken, recorded_fst]
  · exact ⟨finish_ended signal state, finish_releases signal state runs⟩

-- The strategy faults behind a byte that is retained. At the end it is shown both bytes, finds a
-- frame, and then has a last say, on a byte of which it consumes nothing: two more frames, at the
-- second of which the receiver breaks off.
theorem finish_flushes_once_after_fault :
    let script : Script := { entries := [
      {}, { reply := .fault "broken" }, { operations := [.take 1], reply := .joined }, {},
      { reply := .group [[7], [8]] } ] }
    let decoder : Decoder _ _ _ Unit :=
      { strategy := script.strategy, receiver := .refusingAt [2] .collecting, grouping := .apart }
    let run    := decoder.run [.feed [1] none, .feed [2] (some "peer")] (.initial {})
    let begun  := run.2.beginEnding.note (.ending 2)
    let pass   := decoder.pass [1, 2] 0 0 begun
    let result := decoder.finish .closed run.2
    run.1 = [.done .unit, .faulted (.raised "broken")] ∧ run.2.ended = false ∧
    run.2.retention.unread = [1, 2] ∧ result.1 = .faulted (.refused 2) ∧
    result.2.trace.events = [.frame [1] none, .frame [7] none, .frame [8] none, .ended .closed] ∧
    result.2.ended = true ∧ result.2.retention.buffer = none ∧
    pass.unread = [2] ∧ ∃ made last handed, decoder.Flushes pass result.1 last handed ∧
      result.2.trace.invocations = run.2.trace.invocations ++ made ++ last ∧
      ∀ invoked ∈ made ++ last, invoked.context.source = none ∧ invoked.context.ending = true := by
  intro script decoder run begun pass result
  have runs : run.2.ended = false := by decide +kernel
  have unread : run.2.retention.unread = [1, 2] := by decide +kernel
  have position : run.2.retention.buffer.elim 0 Buffer.consumed = 0 := by decide +kernel
  have taken : ∀ fault,
      decoder.receiver.receive (result.2.handed - 1) (.ended .closed) ≠ .refused fault := by
    have last : result.2.handed - 1 = 3 := by decide +kernel
    rw [last]
    exact nofun
  have ⟨outcome, made, last, _, handed, _, flushes, invocations, _, _, contexts, _, outcome_eq,
    ended, absent⟩ := finish_flushes_once decoder runs .closed
  rw [unread, position] at flushes
  refine ⟨by decide +kernel, runs, unread, by decide +kernel, by decide +kernel, ended, absent,
    by decide +kernel, made, last, handed, ?_, invocations, contexts⟩
  exact outcome_eq taken ▸ flushes

end Framing.Decoder
