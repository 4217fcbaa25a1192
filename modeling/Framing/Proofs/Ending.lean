import Framing.Decoder.Ending
import Framing.Proofs.Feeding

/-!
The end of a stream. Whatever the flush comes to, the signal is handed over behind it.
-/

namespace Framing.Decoder

variable {σ φ ε μ : Type} {decoder : Decoder σ φ ε μ} {unread : Bytes} {consumed : Nat}
variable {stage after : Stage σ φ ε μ}

theorem conclude_of_failed {error : ε}
    (h : decoder.invoke true unread stage = (.failed error, consumed, after)) :
    decoder.conclude unread stage = (.failed (.strategy error), after) := by
  rw [conclude, h]

-- What goes on record of the bytes that the strategy leaves, which are discarded.
def discarding (left : Nat) : List Activity :=
  if left = 0 then [] else [.noted (.leftoverDiscarded left)]

-- A last result is dispatched, whatever it left unread.
theorem conclude_of_done {found : Found φ}
    (h : decoder.invoke true unread stage = (.done found, consumed, after)) :
    decoder.conclude unread stage =
      let left := after.act (discarding (unread.length - consumed))
      if found.isResult then
        let (fault, final) := decoder.dispatch found none left
        (fault.elim (.done ()) .faulted, final)
      else
        (.done (), left) := by
  have same : (if unread.length - consumed = 0 then after
      else after.note (.leftoverDiscarded (unread.length - consumed))) =
        after.act (discarding (unread.length - consumed)) := by
    simp only [discarding]
    split <;> rfl
  simp only [conclude, h, same]
  split
  case isTrue  => rcases decoder.dispatch found none _ with ⟨_ | fault, final⟩ <;> rfl
  case isFalse => rfl

theorem conclude_of_nothing
    (h : decoder.invoke true unread stage = (.done .nothing, consumed, after)) :
    ∃ discarding, decoder.conclude unread stage = (.done (), after.act discarding) :=
  ⟨_, conclude_of_done h⟩

theorem conclude_of_result (steady : decoder.receiver.Steady) {found : Found φ}
    (isResult : found.isResult)
    (h : decoder.invoke true unread stage = (.done found, consumed, after)) :
    ∃ final, decoder.conclude unread stage = (.done (), final) ∧
      final.trace.events = stage.trace.events ++ found.events decoder.grouping none := by
  let left := after.act (discarding (unread.length - consumed))
  rcases dispatched : decoder.dispatch found none left with ⟨fault, final⟩
  have accepted := dispatch_fault_of_steady steady found none left
  rw [dispatched] at accepted
  subst accepted
  have ⟨_, _, all, grows⟩ := dispatch_grows dispatched
  have whole := ((invoke_grows h).act _).trans grows
  refine ⟨final, ?_, all rfl ▸ whole.events⟩
  rw [conclude_of_done h, if_pos isResult, show decoder.dispatch found none _ = _ from dispatched]
  rfl

-- That the stream ends is not on record but for a notice.
theorem beginEnding_grows (stage : Stage σ φ ε μ) (notice : Notice) :
    Stage.Grows [] [] stage (stage.beginEnding.note notice) :=
  have begun : Stage.Grows [] [] stage stage.beginEnding := { Stage.Grows.refl stage with }
  begun.note notice

-- Where the pass over the retained bytes goes well, what it left is concluded.
theorem flush_of_done {position total : Nat} {pass : Pass σ φ ε μ}
    (rounds : decoder.Rounds unread position 0
      (stage.beginEnding.note (.ending unread.length)) pass)
    (done : pass.outcome = .done total) :
    ∃ last passing, pass.stage = last.act passing ∧
      decoder.flush unread position stage = decoder.conclude pass.unread last := by
  simp only [flush]
  split
  case isTrue empty =>
    subst empty
    rw [← rounds.eq_pass, Rounds.exhausted.eq_pass]
    exact ⟨_, _, rfl, rfl⟩
  case isFalse =>
    rw [rounds.eq_pass, done]
    exact ⟨_, [], rfl, rfl⟩

section Forward

variable (signal : EndSignal) (result : Outcome (DecodeError ε) Unit × State σ φ ε μ)

-- The signal is handed over whatever went before, and whether or not the receiver breaks off at it.
theorem forward_grows :
    Stage.Grows [] [.ended signal] result.2.toStage (decoder.forward signal result).2.toStage := by
  rcases handed : decoder.hand (.ended signal) result.2.toStage with ⟨fault, last⟩
  cases fault <;>
    simpa only [forward, handed] using hand_grows handed

@[simp]
theorem forward_retention : (decoder.forward signal result).2.retention = result.2.retention := by
  simp only [forward]
  split <;> rfl

@[simp]
theorem forward_ended : (decoder.forward signal result).2.ended = result.2.ended := by
  simp only [forward]
  split <;> rfl

@[simp]
theorem forward_context : (decoder.forward signal result).2.context = result.2.context := by
  rcases handed : decoder.hand (.ended signal) result.2.toStage with ⟨fault, last⟩
  cases fault <;>
    simpa only [forward, handed] using hand_context handed

theorem forward_handed : (decoder.forward signal result).2.handed = result.2.handed + 1 := by
  rcases handed : decoder.hand (.ended signal) result.2.toStage with ⟨fault, last⟩
  cases fault <;>
    simpa only [forward, handed] using hand_handed handed

theorem forward_of_taken
    (taken : ∀ fault, decoder.receiver.receive result.2.handed (.ended signal) ≠ .refused fault) :
    (decoder.forward signal result).1 = result.1 := by
  have accepted := hand_fault_of_taken taken
  simp only [forward, accepted]

theorem forward_of_steady (steady : decoder.receiver.Steady) :
    (decoder.forward signal result).1 = result.1 ∧
      (decoder.forward signal result).2.trace.events = result.2.trace.events ++ [.ended signal] :=
  ⟨forward_of_taken signal result (steady _ _), (forward_grows signal result).events⟩

end Forward

theorem finish_of_ended {state : State σ φ ε μ} (ended : state.ended) (signal : EndSignal) :
    decoder.finish signal state =
      decoder.forward signal (.done (), state.note (.endedBefore signal)) :=
  if_pos ended

theorem finish_of_runs {state : State σ φ ε μ} {outcome : Outcome (DecodeError ε) Unit}
    (runs : state.ended = false)
    (flushed : decoder.flush state.retention.unread
      (state.retention.buffer.elim 0 Buffer.consumed) state.toStage = (outcome, after))
    (signal : EndSignal) :
    decoder.finish signal state = decoder.forward signal (recorded
      (outcome, { toStage := after, retention := state.retention.release, ended := true })) := by
  simp only [finish, runs, flushed]
  rfl

-- Only the first end gives up any bytes.
theorem abort_of_ended {state : State σ φ ε μ} (ended : state.ended) (signal : EndSignal) :
    decoder.abort signal state =
      (decoder.forward signal (.done (), state.note (.aborted 0 signal))).map
        (·.map fun _ => 0) id := by
  have same : { state with ended := true } = state := by rw [← ended]
  simp only [abort, ended, if_true, same]
  rfl

theorem abort_of_runs {state : State σ φ ε μ} (runs : state.ended = false) (signal : EndSignal) :
    decoder.abort signal state =
      (decoder.forward signal (.done (), State.note
        { state with retention := state.retention.release, ended := true }
        (.aborted state.retention.unread.length signal))).map
          (·.map fun _ => state.retention.unread.length) id := by
  simp only [abort, runs]
  rfl

theorem abort_of_steady {state : State σ φ ε μ} (steady : decoder.receiver.Steady)
    (runs : state.ended = false) (signal : EndSignal) :
    (decoder.abort signal state).1 = .done state.retention.unread.length ∧
      (decoder.abort signal state).2.trace.events = state.trace.events ++ [.ended signal] := by
  have ⟨same, events⟩ := forward_of_steady signal (.done (), State.note
    { state with retention := state.retention.release, ended := true }
    (.aborted state.retention.unread.length signal)) steady
  rw [abort_of_runs runs]
  refine ⟨congrArg (Outcome.map _) same, events.trans ?_⟩
  simp [State.note, Stage.note]

section Releasing

variable (signal : EndSignal) (state : State σ φ ε μ)

@[simp]
theorem finish_ended : (decoder.finish signal state).2.ended = true := by
  cases ended : state.ended
  case true  => simp [finish_of_ended ended, State.note, ended]
  case false => simp [finish_of_runs ended rfl]

theorem finish_releases (runs : state.ended = false) :
    (decoder.finish signal state).2.retention.buffer = none := by
  simp [finish_of_runs runs rfl, Retention.release]

@[simp]
theorem abort_ended : (decoder.abort signal state).2.ended = true := by
  simp [abort, State.note]

theorem abort_releases (runs : state.ended = false) :
    (decoder.abort signal state).2.retention.buffer = none := by
  simp [abort_of_runs runs, State.note, Retention.release]

-- Nothing that could fail is left to do.
theorem abort_ne_failed (error : DecodeError ε) :
    (decoder.abort signal state).1 ≠ .failed error := by
  have forwarded (state : State σ φ ε μ) :
      (decoder.forward signal (.done (), state)).1 ≠ .failed error := by
    intro failed
    simp only [forward] at failed
    split at failed <;> cases failed
  exact fun failed => forwarded _ (Outcome.eq_failed_of_map failed)

end Releasing

-- The call comes out as the flush does, and the signal is the only event after it.
theorem finish_of_flush {state : State σ φ ε μ} {outcome : Outcome (DecodeError ε) Unit}
    (steady : decoder.receiver.Steady) (runs : state.ended = false)
    (flushed : decoder.flush state.retention.unread
      (state.retention.buffer.elim 0 Buffer.consumed) state.toStage = (outcome, after))
    (signal : EndSignal) :
    (decoder.finish signal state).1 = outcome ∧
      (decoder.finish signal state).2.trace.events = after.trace.events ++ [.ended signal] := by
  have ⟨same, events⟩ := forward_of_steady signal (recorded
    (outcome, { toStage := after, retention := state.retention.release, ended := true })) steady
  rw [finish_of_runs runs flushed, same, events, recorded_fst, recorded_events]
  exact ⟨rfl, rfl⟩

-- Where the pass over the retained bytes hands over nothing, only their conclusion is of consequence.
theorem finish_of_silent {state : State σ φ ε μ} {pass : Pass σ φ ε μ} {total : Nat}
    {made : List (Trace.Invoked φ ε)} {more : List (Event φ μ)}
    {outcome : Outcome (DecodeError ε) Unit}
    (steady : decoder.receiver.Steady) (runs : state.ended = false)
    (rounds : decoder.Rounds state.retention.unread (state.retention.buffer.elim 0 Buffer.consumed) 0
      (state.beginEnding.note (.ending state.retention.unread.length)) pass)
    (done : pass.outcome = .done total)
    (silent : Stage.Grows made []
      (state.beginEnding.note (.ending state.retention.unread.length)) pass.stage)
    (concluded : ∀ last passing, pass.stage = last.act passing →
      ∃ after, decoder.conclude pass.unread last = (outcome, after) ∧
        after.trace.events = last.trace.events ++ more)
    (signal : EndSignal) :
    (decoder.finish signal state).1 = outcome ∧
      (decoder.finish signal state).2.trace.events =
        state.trace.events ++ more ++ [.ended signal] := by
  have ⟨last, passing, settled, flushed⟩ := flush_of_done rounds done
  have ⟨after, eq, events⟩ := concluded last passing settled
  have ⟨outcome', events'⟩ := finish_of_flush steady runs (flushed.trans eq) signal
  have before := calc last.trace.events
    _ = pass.stage.trace.events        := by rw [settled, Stage.events_act]
    _ = state.beginEnding.trace.events := by
        rw [silent.events, List.append_nil]
        exact Stage.events_act ..
  refine ⟨outcome', ?_⟩
  rw [events', events, before]
  rfl

end Framing.Decoder
