import Framing.Proofs.Allocation
import Framing.Proofs.Flushing
import Framing.Proofs.LengthPrefixed
import Framing.Proofs.Lifecycle

/-!
Headers that are refused. A header that announces too much is not consumed, so whatever is delivered
behind it, decoding does not get past it: every delivery is refused as the first one was.
-/

namespace Framing

-- A pass that the strategy fails ends with the invocation that failed, which was shown all that is
-- left unread.
theorem Decoder.Rounds.failed_at {σ φ ε μ : Type} {decoder : Decoder σ φ ε μ} {unread : Bytes}
    {position results : Nat} {stage : Stage σ φ ε μ} {pass : Pass σ φ ε μ} {error : ε}
    (rounds : decoder.Rounds unread position results stage pass)
    (failed : pass.outcome = .failed (.strategy error)) :
    ∃ last consumed, decoder.invoke false pass.unread last = (.failed error, consumed, pass.stage) := by
  induction rounds
  case failed invoked =>
    cases failed
    exact ⟨_, _, invoked⟩
  case skipped ih | dispatched ih => exact ih failed
  all_goals cases failed

namespace LengthPrefixed

open Decoder (Call Stage State Pass Rounds Fed)

variable {format : LengthPrefixed} {μ : Type} {decoder : Decoder Unit Bytes FramingError μ}
variable {bytes unread : Bytes} {size : Nat} {stage after : Stage Unit Bytes FramingError μ}

-- How a delivery of `chunk` comes out behind a header that announces `size` bytes, which is too much.
def refusal (format : LengthPrefixed) (size : Nat) (chunk : Bytes) :
    Outcome (DecodeError FramingError) Unit :=
  if chunk = [] then .done () else .failed (.strategy (.oversized size format.limit))

section Rejecting

variable (same : decoder.strategy = format.strategy)
include same

theorem invoke_of_excess (excess : format.excess? bytes = some size)
    (stage : Stage Unit Bytes FramingError μ) :
    ∃ after, decoder.invoke false bytes stage =
      (.failed (.oversized size format.limit), 0, after) := by
  have ⟨announced, exceeds⟩ := excess?_eq_some_iff.mp excess
  have read := @decode_of_oversized format bytes size { state := (), cursor := .start bytes }
    announced exceeds
  have ⟨after, invoked, _⟩ := Decoder.invoke_of_decode same stage read
  exact ⟨after, invoked⟩

-- Nothing else is refused as too large.
theorem excess_of_invoke {max consumed : Nat}
    (h : decoder.invoke false bytes stage = (.failed (.oversized size max), consumed, after)) :
    format.excess? bytes = some size ∧ max = format.limit ∧ consumed = 0 := by
  have waits (read : format.decode { state := (), cursor := .start bytes } =
      (.done .nothing, { state := (), cursor := .start bytes })) : False := by
    have ⟨_, invoked, _⟩ := Decoder.invoke_of_decode same stage read
    cases h.symm.trans invoked
  cases format.starts bytes
  case oversized announced exceeds =>
    have excess := excess?_eq_some_iff.mpr ⟨announced, exceeds⟩
    have ⟨_, invoked⟩ := invoke_of_excess same excess stage
    cases h.symm.trans invoked
    exact ⟨excess, rfl, rfl⟩
  case partialHeader announced => exact (waits (decode_of_partialHeader announced)).elim
  case partialPayload announced within short =>
    exact (waits (decode_of_partialPayload announced within short)).elim
  case frame announced within enough =>
    have ⟨_, _, read⟩ := decode_start_of_frame announced within enough
    have ⟨_, invoked, _⟩ := Decoder.invoke_of_decode same stage read
    cases h.symm.trans invoked

-- A pass over bytes that are refused is over at once.
theorem pass_of_excess (excess : format.excess? bytes = some size) (position results : Nat)
    (stage : Stage Unit Bytes FramingError μ) :
    let pass := decoder.pass bytes position results stage
    pass.outcome = .failed (.strategy (.oversized size format.limit)) ∧ pass.unread = bytes ∧
      pass.stage.handed = stage.handed ∧
      ∃ invoked, Stage.Grows [invoked] [] stage pass.stage := by
  have ⟨after, invoked⟩ := invoke_of_excess same excess stage
  have nonempty := ne_nil_of_announced (excess?_eq_some_iff.mp excess).1
  have rounds : decoder.Rounds bytes position results stage _ := .failed nonempty invoked
  intro pass
  rw [show pass = _ from rounds.eq_pass]
  exact ⟨rfl, rfl, Decoder.invoke_handed invoked, _, Decoder.invoke_grows invoked⟩

end Rejecting

-- The stream goes on, and what is retained starts with a header that announces `size` bytes, which is
-- too much.
structure Rejecting (format : LengthPrefixed) (size : Nat) (bytes : Bytes)
    (state : State Unit Bytes FramingError μ) : Prop where
  runs   : state.ended = false
  rests  : state.retention.Rests bytes
  excess : format.excess? bytes = some size

-- Nothing was handed over between the two states.
structure Quiet (before after : State Unit Bytes FramingError μ) : Prop where
  events : after.trace.events = before.trace.events
  handed : after.handed = before.handed

namespace Rejecting

variable {chunk : Bytes} {source : Source} {state : State Unit Bytes FramingError μ}

-- What is left by a delivery that was refused starts with the header that was. On record, the last
-- invocation was shown just that.
theorem of_feed (same : decoder.strategy = format.strategy) (sound : state.retention.Sound)
    {max : Nat} (rejected : (decoder.feed chunk source state).1 =
      .failed (.strategy (.oversized size max))) :
    let rejecting := (decoder.feed chunk source state).2
    max = format.limit ∧ format.Rejecting size rejecting.retention.unread rejecting ∧
      ∃ context, rejecting.trace.invocations.getLast? = some
        ⟨false, context, rejecting.retention.unread, .failed (.oversized size max), 0⟩ := by
  intro rejecting
  rcases decoder.feed_cases chunk source sound with ⟨_, eq⟩ | ⟨pass, fed⟩
  case inl => cases (congrArg Prod.fst eq).symm.trans rejected
  case inr =>
    have ⟨_, _, rounds⟩ := fed.rounds
    have ⟨settling, stage⟩ := fed.stage
    have failed := Outcome.eq_failed_of_map (fed.outcome.symm.trans rejected)
    have rests := fed.rests (failed ▸ rfl)
    have unread := rests.unread_eq
    have ⟨last, consumed, invoked⟩ := rounds.failed_at failed
    obtain ⟨excess, rfl, rfl⟩ := excess_of_invoke same invoked
    refine ⟨rfl, ⟨fed.ended, unread.symm ▸ rests, unread.symm ▸ excess⟩, last.context, ?_⟩
    simp [rejecting, stage, unread, (Decoder.invoke_grows invoked).invocations]

variable (same : decoder.strategy = format.strategy) (rejecting : format.Rejecting size bytes state)
include same rejecting

theorem feed (chunk : Bytes) (source : Source) :
    (decoder.feed chunk source state).1 = format.refusal size chunk ∧
      format.Rejecting size (bytes ++ chunk) (decoder.feed chunk source state).2 ∧
      Quiet state (decoder.feed chunk source state).2 := by
  obtain ⟨runs, rests, excess⟩ := rejecting
  by_cases nonempty : chunk = []
  case pos =>
    subst nonempty
    rw [List.append_nil, Decoder.feed_nil, refusal, if_pos rfl]
    exact ⟨rfl, ⟨runs, rests, excess⟩, Stage.events_act .., rfl⟩
  case neg =>
    have ⟨pass, fed⟩ := decoder.feed_fed nonempty source runs rests.sound
    have ⟨position, merging, rounds⟩ := fed.rounds
    have ⟨settling, stage⟩ := fed.stage
    have excess' := excess?_append excess chunk
    have ⟨outcome, unread, handed, _, grows⟩ := pass_of_excess same excess' position 0
      ((state.toStage.hearing source).act merging)
    rw [← rests.unread_eq, rounds.eq_pass] at outcome unread handed grows
    rw [rests.unread_eq] at unread
    have rests' := fed.rests (outcome ▸ rfl)
    rw [unread] at rests'
    refine ⟨?_, ⟨fed.ended, rests', excess'⟩, ?_, ?_⟩
    · rw [fed.outcome, outcome, refusal, if_neg nonempty]
      rfl
    · rw [(fed.grows grows).events, List.append_nil]
    · rw [stage, Stage.handed_act, handed]
      rfl

-- By induction on the deliveries, none of which comes past the header.
theorem run (deliveries : List (Bytes × Source)) :
    let result := decoder.run (Decoder.feeding deliveries) state
    result.1 = deliveries.map (fun (chunk, _) => Decoder.perform.unit (format.refusal size chunk)) ∧
      format.Rejecting size (bytes ++ Decoder.delivered deliveries) result.2 ∧
      Quiet state result.2 := by
  induction deliveries generalizing bytes state
  case nil =>
    rw [show Decoder.delivered [] = [] from rfl, List.append_nil]
    exact ⟨rfl, rejecting, rfl, rfl⟩
  case cons delivery deliveries ih =>
    obtain ⟨chunk, source⟩ := delivery
    have ⟨outcome, rejecting', quiet⟩ := rejecting.feed same chunk source
    have ⟨outcomes, rejecting'', quiet'⟩ := ih rejecting'
    rw [Decoder.run_feeding_cons, Decoder.delivered_cons, ← List.append_assoc]
    have head := congrArg Decoder.perform.unit outcome
    exact ⟨congr (congrArg List.cons head) outcomes, rejecting'',
      quiet'.events.trans quiet.events, quiet'.handed.trans quiet.handed⟩

variable (signal : EndSignal)

-- The end of the stream does not come past the header either.
theorem finish :
    (decoder.finish signal state).2.trace.events = state.trace.events ++ [.ended signal] ∧
    ((∀ fault, decoder.receiver.receive state.handed (.ended signal) ≠ .refused fault) →
      (decoder.finish signal state).1 = .failed (.strategy (.oversized size format.limit))) := by
  obtain ⟨runs, rests, excess⟩ := rejecting
  rw [← rests.unread_eq] at excess
  let position := state.retention.buffer.elim 0 Buffer.consumed
  let begun := state.toStage.beginEnding.note (.ending state.retention.unread.length)
  let pass := decoder.pass state.retention.unread position 0 begun
  have ⟨failed, _, handed, invoked, grows⟩ := pass_of_excess same excess position 0 begun
  have flushed := Decoder.flush_of_broken (decoder.rounds_pass _ position 0 begun)
    fun total done => nomatch failed.symm.trans done
  let result : Outcome (DecodeError FramingError) Unit × State Unit Bytes FramingError μ :=
    (pass.outcome.map fun _ => (),
      { toStage := pass.stage, retention := state.retention.release, ended := true })
  have ⟨settling, stage, _⟩ := Decoder.recorded_stage result
  rw [Decoder.finish_of_runs runs flushed]
  constructor
  case left =>
    rw [(Decoder.forward_grows signal (Decoder.recorded result)).events, Decoder.recorded_events]
    have before := (Decoder.beginEnding_grows state.toStage _).trans grows
    exact congrArg (· ++ _) (before.events.trans (List.append_nil _))
  case right =>
    intro taken
    have same : (Decoder.recorded result).2.handed = state.handed :=
      (congrArg Stage.handed stage).trans handed
    rw [Decoder.forward_of_taken signal (Decoder.recorded result) (same ▸ taken),
      Decoder.recorded_fst]
    exact congrArg (Outcome.map _) failed

variable (decoder) in
omit same in
-- To give up the stream gives up all of it from the header on.
theorem abort :
    (decoder.abort signal state).2.trace.events = state.trace.events ++ [.ended signal] ∧
    ((∀ fault, decoder.receiver.receive state.handed (.ended signal) ≠ .refused fault) →
      (decoder.abort signal state).1 = .done bytes.length) := by
  obtain ⟨runs, rests, _⟩ := rejecting
  refine ⟨(Decoder.abort_grows signal state).events, fun taken => ?_⟩
  have forwarded := Decoder.forward_of_taken signal (.done (), State.note
    { state with retention := state.retention.release, ended := true }
    (.aborted state.retention.unread.length signal)) taken
  rw [Decoder.abort_of_runs runs, ← rests.unread_eq]
  exact congrArg (Outcome.map _) forwarded

end Rejecting

-- Whatever was called before, and whatever became of it. As the deliveries so far are deliveries, too,
-- what is said of the state behind them holds after each of them: one more delivery fails unless it is
-- empty, and adds its own bytes to those that are retained.
theorem run_keeps_rejecting (same : decoder.strategy = format.strategy) (calls : List (Call μ))
    (chunk : Bytes) (source : Source) {size max : Nat}
    (rejected : (decoder.feed chunk source (decoder.run calls (.initial ())).2).1 =
      .failed (.strategy (.oversized size max)))
    (deliveries : List (Bytes × Source)) (signal : EndSignal) :
    let rejecting := (decoder.feed chunk source (decoder.run calls (.initial ())).2).2
    let header    := rejecting.retention.unread
    let run       := decoder.run (Decoder.feeding deliveries) rejecting
    let finished  := decoder.finish signal run.2
    let aborted   := decoder.abort signal run.2
    max = format.limit ∧ max < size ∧ announced? header = some size ∧
    (∃ context, rejecting.trace.invocations.getLast? =
      some ⟨false, context, header, .failed (.oversized size max), 0⟩) ∧
    run.1 = deliveries.map (fun (chunk, _) =>
      if chunk = [] then .done .unit else .failed (.strategy (.oversized size max))) ∧
    run.2.trace.events = rejecting.trace.events ∧
    run.2.retention.unread = header ++ Decoder.delivered deliveries ∧
    finished.2.trace.events = rejecting.trace.events ++ [.ended signal] ∧
    aborted.2.trace.events = rejecting.trace.events ++ [.ended signal] ∧
    ((∀ fault, decoder.receiver.receive run.2.handed (.ended signal) ≠ .refused fault) →
      finished.1 = .failed (.strategy (.oversized size max)) ∧
      aborted.1 = .done (header.length + (Decoder.delivered deliveries).length)) := by
  intro rejecting header run finished aborted
  obtain ⟨rfl, began, last⟩ := Rejecting.of_feed same (decoder.run_sound () calls) rejected
  have ⟨outcomes, rejects, quiet⟩ := began.run same deliveries
  have ⟨events, refused⟩ := rejects.finish same signal
  have ⟨events', given⟩ := rejects.abort decoder signal
  have ⟨announced, exceeds⟩ := excess?_eq_some_iff.mp began.excess
  rw [quiet.events] at events events'
  refine ⟨rfl, exceeds, announced, last, ?_, quiet.events, rejects.rests.unread_eq, events, events',
    fun taken => ⟨refused taken, ?_⟩⟩
  · refine outcomes.trans (List.map_congr_left fun (chunk, _) _ => ?_)
    simp only [refusal]
    split <;> rfl
  · rw [← List.length_append]
    exact given taken

-- The receiver breaks off at the only frame. The header behind it comes in two chunks.
theorem run_keeps_rejecting_after_fault :
    let format : LengthPrefixed := { limit := 4 }
    let decoder : Decoder Unit Bytes FramingError Unit :=
      { strategy := format.strategy, receiver := .refusingAt [0] .collecting }
    let calls : List (Call Unit) := [.feed [0, 0, 0, 1, 7] none, .feed [0, 0] (some "a")]
    let deliveries : List (Bytes × Source) := [([1, 2], none), ([], some "b"), ([0, 0, 0], none)]
    let rejected := decoder.feed [0, 9, 5] none (decoder.run calls (.initial ())).2
    let run      := decoder.run (Decoder.feeding deliveries) rejected.2
    decoder.strategy = format.strategy ∧
    (decoder.run calls (.initial ())).1 = [.faulted (.refused 0), .done .unit] ∧
    rejected.1 = .failed (.strategy (.oversized 9 4)) ∧
    rejected.2.retention.unread = [0, 0, 0, 9, 5] ∧
    run.1 = [.failed (.strategy (.oversized 9 4)), .done .unit,
      .failed (.strategy (.oversized 9 4))] ∧
    run.2.retention.unread = [0, 0, 0, 9, 5, 1, 2, 0, 0, 0] ∧
    (∀ fault, decoder.receiver.receive run.2.handed (.ended .closed) ≠ .refused fault) ∧
    (decoder.finish .closed run.2).1 = .failed (.strategy (.oversized 9 4)) ∧
    (decoder.finish .closed run.2).2.trace.events = [.frame [7] none, .ended .closed] ∧
    (decoder.abort .closed run.2).1 = .done 10 := by
  intro format decoder calls deliveries rejected run
  have failed : rejected.1 = .failed (.strategy (.oversized 9 4)) := by decide +kernel
  have header : rejected.2.retention.unread = [0, 0, 0, 9, 5] := by decide +kernel
  have handed : run.2.handed = 1 := by decide +kernel
  have taken : ∀ fault, decoder.receiver.receive run.2.handed (.ended .closed) ≠ .refused fault :=
    handed ▸ nofun
  have ⟨_, _, _, _, outcomes, _, unread, events, _, ended⟩ :=
    run_keeps_rejecting (show _ = format.strategy from rfl) calls [0, 9, 5] none failed deliveries .closed
  have ⟨finished, aborted⟩ := ended taken
  rw [show (decoder.feed _ _ _).2.retention.unread = _ from header] at unread aborted
  exact ⟨rfl, by decide +kernel, failed, header, outcomes, unread, taken, finished,
    events.trans (by decide +kernel), aborted⟩

end LengthPrefixed
end Framing
