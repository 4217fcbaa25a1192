import Framing.Proofs.Ending
import Framing.Proofs.Run
import Framing.Strategy.Script

/-!
The life of a stream. Whatever is called, in which order and with what outcome, a stream ends once:
the strategy has its last say at most once, nothing is decoded after that, and each call that ends
the stream hands over its own signal.
-/

namespace Framing

variable {σ φ ε μ : Type}

-- The signal that the event forwards, if it is one of the end.
def Event.signal? : Event φ μ → Option EndSignal
  | ended signal => some signal
  | _            => none

theorem Event.signal?_of_isDecoded {event : Event φ μ} (h : event.isDecoded) :
    event.signal? = none := by
  cases event
  case frame | batch   => rfl
  case message | ended => cases h

namespace Trace

variable (trace : Trace φ ε μ)

-- How many times the strategy was invoked at the end of the stream.
def conclusions : Nat :=
  trace.invocations.countP (·.last)

-- The events that dispatch frames.
def dispatched : List (Event φ μ) :=
  trace.events.filter (·.isDecoded)

-- The signals that were handed over.
def signals : List EndSignal :=
  trace.events.filterMap (·.signal?)

end Trace

namespace Decoder

namespace Stage

variable {s₁ s₂ : Stage σ φ ε μ} {last : Nat}

theorem Grows.signals_eq {made : List (Trace.Invoked φ ε)} {handed : List (Event φ μ)}
    (grows : Grows made handed s₁ s₂) :
    s₂.trace.signals = s₁.trace.signals ++ handed.filterMap (·.signal?) := by
  simp [Trace.signals, grows.events]

theorem Grows.dispatched_eq {made : List (Trace.Invoked φ ε)} {handed : List (Event φ μ)}
    (grows : Grows made handed s₁ s₂) :
    s₂.trace.dispatched = s₁.trace.dispatched ++ handed.filter (·.isDecoded) := by
  simp [Trace.dispatched, grows.events]

theorem Grows.conclusions_eq {made : List (Trace.Invoked φ ε)} {handed : List (Event φ μ)}
    (grows : Grows made handed s₁ s₂) :
    s₂.trace.conclusions = s₁.trace.conclusions + made.countP (·.last) := by
  simp [Trace.conclusions, grows.invocations]

theorem Decodes.signals_eq (decodes : Decodes last s₁ s₂) :
    s₂.trace.signals = s₁.trace.signals := by
  have ⟨_, handed, grows, _, decoded⟩ := decodes
  have none : handed.filterMap (·.signal?) = [] :=
    List.filterMap_eq_nil_iff.mpr fun _ mem => Event.signal?_of_isDecoded (decoded _ mem)
  rw [grows.signals_eq, none, List.append_nil]

theorem Decodes.conclusions_le (decodes : Decodes last s₁ s₂) :
    s₂.trace.conclusions ≤ s₁.trace.conclusions + last := by
  have ⟨_, _, grows, most, _⟩ := decodes
  exact grows.conclusions_eq ▸ Nat.add_le_add_left most _

end Stage

variable {decoder : Decoder σ φ ε μ}

-- The strategy has its last say once, whatever that comes to.
theorem conclude_decodes (unread : Bytes) (stage : Stage σ φ ε μ) :
    Stage.Decodes 1 stage (decoder.conclude unread stage).2 := by
  rcases invoked : decoder.invoke true unread stage with ⟨outcome, consumed, after⟩
  have decodes : Stage.Decodes 1 stage after := invoke_decodes invoked
  simp only [conclude, invoked]
  cases outcome
  case failed | faulted => exact decodes
  case done found =>
    have left : Stage.Decodes 1 stage (if unread.length - consumed = 0 then after
        else after.note (.leftoverDiscarded (unread.length - consumed))) := by
      split
      case isTrue  => exact decodes
      case isFalse => exact decodes.act _
    dsimp only
    split
    case isFalse => exact left
    case isTrue =>
      split
      case h_1 dispatched | h_2 dispatched => exact left.trans (dispatch_decodes dispatched)

-- Where the pass over the retained bytes breaks off, the strategy is not asked any more.
theorem flush_decodes (unread : Bytes) (position : Nat) (stage : Stage σ φ ε μ) :
    Stage.Decodes 1 stage (decoder.flush unread position stage).2 := by
  have begun : Stage.Decodes 0 stage (stage.beginEnding.note (.ending unread.length)) :=
    ⟨[], [], beginEnding_grows stage _, Nat.le_refl _, nofun⟩
  simp only [flush]
  split
  case isTrue => exact begun.trans (conclude_decodes ..)
  case isFalse =>
    have passed := begun.trans (decoder.rounds_pass unread position 0 _).decodes
    split
    case h_1       => exact passed.trans (conclude_decodes ..)
    case h_2 | h_3 => exact passed.mono (Nat.zero_le _)

section Termination

variable (signal : EndSignal) (state : State σ φ ε μ)

-- Before it hands over the signal, a call that ends the stream does nothing but decode.
theorem finish_decodes : ∃ before, Stage.Decodes 1 state.toStage before ∧
    Stage.Grows [] [.ended signal] before (decoder.finish signal state).2.toStage := by
  cases ended : state.ended
  case true =>
    rw [finish_of_ended ended]
    have noted : Stage.Decodes 0 state.toStage (state.note (.endedBefore signal)).toStage :=
      (Stage.Decodes.refl _).act _
    exact ⟨_, noted.mono (Nat.zero_le _),
      forward_grows signal (.done (), state.note (.endedBefore signal))⟩
  case false =>
    rcases flushed : decoder.flush state.retention.unread
      (state.retention.buffer.elim 0 Buffer.consumed) state.toStage with ⟨outcome, after⟩
    have decodes := decoder.flush_decodes state.retention.unread
      (state.retention.buffer.elim 0 Buffer.consumed) state.toStage
    rw [flushed] at decodes
    rw [finish_of_runs ended flushed]
    exact ⟨_, recorded_decodes decodes, forward_grows ..⟩

theorem abort_grows :
    Stage.Grows [] [.ended signal] state.toStage (decoder.abort signal state).2.toStage := by
  let discarded := if state.ended then 0 else state.retention.unread.length
  have noted : Stage.Grows [] [] state.toStage (state.note (.aborted discarded signal)).toStage :=
    (Stage.Grows.refl _).act _
  exact noted.trans (forward_grows signal (.done (), State.note { state with
    retention := if state.ended then state.retention else state.retention.release
    ended     := true } (.aborted discarded signal)))

theorem finish_signals :
    (decoder.finish signal state).2.trace.signals = state.trace.signals ++ [signal] := by
  have ⟨_, decodes, grows⟩ := decoder.finish_decodes signal state
  rw [grows.signals_eq, decodes.signals_eq]
  rfl

theorem finish_conclusions_le :
    (decoder.finish signal state).2.trace.conclusions ≤ state.trace.conclusions + 1 := by
  have ⟨_, decodes, grows⟩ := decoder.finish_decodes signal state
  rw [grows.conclusions_eq]
  exact decodes.conclusions_le

end Termination

-- The signal with which the call ends the stream, if it does.
def Call.signal? : Call μ → Option EndSignal
  | receive (.ended signal) => some signal
  | finish signal           => some signal
  | abort signal            => some signal
  | _                       => none

-- Whether the call lets the strategy have its last say.
def Call.concludes : Call μ → Bool
  | receive (.ended _) | finish _ => true
  | _                             => false

theorem Call.not_concludes_of_signal? {call : Call μ} (h : call.signal? = none) :
    call.concludes = false := by
  rcases call with (_ | _ | _) | _ | _ | _ <;> first | rfl | cases h

section Perform

variable (call : Call μ) (state : State σ φ ε μ)

theorem perform_signals : (decoder.perform call state).2.trace.signals =
    state.trace.signals ++ call.signal?.toList := by
  have fed (chunk : Bytes) (source : Source) :
      (decoder.feed chunk source state).2.trace.signals = state.trace.signals ++ [] :=
    (decoder.feed_decodes chunk source state).signals_eq.trans (List.append_nil _).symm
  rcases call with (⟨chunk, source⟩ | content | signal) | ⟨chunk, source⟩ | signal | signal
  case receive.chunk | feed   => exact fed chunk source
  case receive.message        => exact (hand_grows (Prod.eta _).symm).signals_eq
  case receive.ended | finish => exact finish_signals signal state
  case abort                  => exact (abort_grows signal state).signals_eq

theorem perform_conclusions_le : (decoder.perform call state).2.trace.conclusions ≤
    state.trace.conclusions + call.concludes.toNat := by
  rcases call with (⟨chunk, source⟩ | content | signal) | ⟨chunk, source⟩ | signal | signal
  case receive.chunk | feed   => exact (decoder.feed_decodes chunk source state).conclusions_le
  case receive.message        => exact Nat.le_of_eq (hand_grows (Prod.eta _).symm).conclusions_eq
  case receive.ended | finish => exact finish_conclusions_le signal state
  case abort                  => exact Nat.le_of_eq (abort_grows signal state).conclusions_eq

theorem perform_ended :
    (decoder.perform call state).2.ended = (state.ended || call.signal?.isSome) := by
  rcases call with (⟨chunk, source⟩ | content | signal) | ⟨chunk, source⟩ | signal | signal
  case receive.chunk | feed   => simp [perform, receive, Call.signal?]
  case receive.message        => simp [perform, receive, Call.signal?]
  case receive.ended | finish => simp [perform, receive, Call.signal?]
  case abort                  => simp [perform, Call.signal?]

variable {state}

-- Once the stream has ended, a call at most passes a message or a signal on.
theorem perform_of_ended (ended : state.ended) : ∃ handed,
    Stage.Grows [] handed state.toStage (decoder.perform call state).2.toStage ∧
      handed.filter (·.isDecoded) = [] ∧
      (decoder.perform call state).2.retention = state.retention := by
  have ignored (notice : Notice) :
      Stage.Grows [] [] state.toStage (state.note notice).toStage :=
    (Stage.Grows.refl _).act _
  have fed (chunk : Bytes) (source : Source) :
      Stage.Grows [] [] state.toStage (decoder.feed chunk source state).2.toStage ∧
        (decoder.feed chunk source state).2.retention = state.retention := by
    have ⟨notice, eq⟩ := decoder.feed_of_ended ended chunk source
    rw [eq]
    exact ⟨ignored notice, rfl⟩
  have finished (signal : EndSignal) :
      Stage.Grows [] [.ended signal] state.toStage (decoder.finish signal state).2.toStage ∧
        (decoder.finish signal state).2.retention = state.retention := by
    rw [finish_of_ended ended, forward_retention]
    exact ⟨(ignored _).trans (forward_grows signal (.done (), state.note _)), rfl⟩
  rcases call with (⟨chunk, source⟩ | content | signal) | ⟨chunk, source⟩ | signal | signal
  case receive.chunk | feed   => exact ⟨[], (fed chunk source).1, rfl, (fed chunk source).2⟩
  case receive.message        => exact ⟨[.message content], hand_grows (Prod.eta _).symm, rfl, rfl⟩
  case receive.ended | finish =>
    exact ⟨[.ended signal], (finished signal).1, rfl, (finished signal).2⟩
  case abort =>
    exact ⟨[.ended signal], abort_grows signal state, rfl,
      by simp [perform, abort, State.note, ended]⟩

end Perform

-- The stream has ended, and nothing is retained any more.
structure State.Over (state : State σ φ ε μ) : Prop where
  ended  : state.ended = true
  absent : state.retention.buffer = none

namespace State.Over

variable {state : State σ φ ε μ}

-- The first call that ends the stream leaves nothing to decode.
theorem of_perform {call : Call μ} (runs : state.ended = false) (ends : call.signal? ≠ none) :
    (decoder.perform call state).2.Over := by
  refine ⟨by simp [perform_ended, Option.isSome_iff_ne_none, ends], ?_⟩
  rcases call with (_ | _ | signal) | _ | signal | signal
  case receive.ended | finish => exact finish_releases signal state runs
  case abort                  => exact abort_releases signal state runs
  all_goals exact absurd rfl ends

variable (decoder) in
theorem run (past : state.Over) (calls : List (Call μ)) :
    (decoder.run calls state).2.Over ∧
      (decoder.run calls state).2.trace.invocations = state.trace.invocations ∧
      (decoder.run calls state).2.trace.dispatched = state.trace.dispatched := by
  induction calls generalizing state
  case nil => exact ⟨past, rfl, rfl⟩
  case cons call calls ih =>
    have ⟨handed, grows, ordinary, retained⟩ := decoder.perform_of_ended call past.ended
    have past' : (decoder.perform call state).2.Over :=
      ⟨by simp [perform_ended, past.ended], retained ▸ past.absent⟩
    have ⟨final, invocations, dispatched⟩ := ih past'
    refine ⟨final, invocations.trans ?_, dispatched.trans ?_⟩
    · rw [grows.invocations, List.append_nil]
    · rw [grows.dispatched_eq, ordinary, List.append_nil]

end State.Over

section Run

variable (calls : List (Call μ)) (state : State σ φ ε μ)

-- Each call that ends the stream hands over its signal, and no other call does.
theorem run_signals : (decoder.run calls state).2.trace.signals =
    state.trace.signals ++ calls.filterMap Call.signal? := by
  induction calls generalizing state
  case nil => simp [run]
  case cons call calls ih =>
    have first := decoder.perform_signals call state
    have rest  := ih (decoder.perform call state).2
    rw [first] at rest
    cases signal : call.signal? <;> simpa [run, signal] using rest

variable {calls state}

-- Until the stream is ended, it goes on, and the strategy does not have its last say.
theorem run_of_unended (state : State σ φ ε μ) (unended : ∀ call ∈ calls, call.signal? = none) :
    (decoder.run calls state).2.ended = state.ended ∧
      (decoder.run calls state).2.trace.conclusions ≤ state.trace.conclusions := by
  induction calls generalizing state
  case nil => exact ⟨rfl, Nat.le_refl _⟩
  case cons call calls ih =>
    have ⟨ordinary, unended⟩ := List.forall_mem_cons.mp unended
    have ⟨ended, conclusions⟩ := ih (decoder.perform call state).2 unended
    have first := decoder.perform_conclusions_le call state
    rw [Call.not_concludes_of_signal? ordinary] at first
    exact ⟨ended.trans (by simp [perform_ended, ordinary]), Nat.le_trans conclusions first⟩

-- The first call that ends the stream.
theorem run_at_end {before : List (Call μ)} {call : Call μ} (runs : state.ended = false)
    (unended : ∀ earlier ∈ before, earlier.signal? = none) (ends : call.signal? ≠ none) :
    (decoder.run (before ++ [call]) state).2.Over ∧
      (decoder.run (before ++ [call]) state).2.trace.conclusions ≤
        state.trace.conclusions + call.concludes.toNat := by
  have ⟨ended, conclusions⟩ := decoder.run_of_unended state unended
  rw [run_append]
  refine ⟨.of_perform (ended.trans runs) ends, ?_⟩
  exact Nat.le_trans (perform_conclusions_le call _) (Nat.add_le_add_right conclusions _)

-- If the stream is ended at all, there is a first call that ends it.
theorem exists_first_end (ends : ¬∀ call ∈ calls, call.signal? = none) :
    ∃ before call after, calls = before ++ call :: after ∧
      (∀ earlier ∈ before, earlier.signal? = none) ∧ call.signal? ≠ none := by
  induction calls
  case nil => exact absurd nofun ends
  case cons call calls ih =>
    by_cases ordinary : call.signal? = none
    case neg => exact ⟨[], call, calls, rfl, nofun, ordinary⟩
    case pos =>
      have ⟨before, first, after, split, unended, ends⟩ :=
        ih fun rest => ends (List.forall_mem_cons.mpr ⟨ordinary, rest⟩)
      exact ⟨call :: before, first, after, congrArg _ split,
        List.forall_mem_cons.mpr ⟨ordinary, unended⟩, ends⟩

-- Nothing is retained any more where the stream has ended.
theorem run_over (start : σ) (calls : List (Call μ))
    (ended : (decoder.run calls (.initial start)).2.ended) :
    (decoder.run calls (.initial start)).2.Over := by
  let begun : State σ φ ε μ := .initial start
  by_cases unended : ∀ call ∈ calls, call.signal? = none
  case pos =>
    cases ended.symm.trans (run_of_unended begun unended).1
  case neg =>
    have ⟨before, call, after, split, unended, ends⟩ := exists_first_end unended
    have ⟨past, _⟩ := decoder.run_at_end (show begun.ended = false from rfl) unended ends
    rw [split, List.append_cons before call after, run_append]
    exact (past.run decoder after).1

end Run

-- A run of calls is split at the first that ends the stream. What is said of the last state here
-- holds after every call from that one on, as the calls so far are a run, too.
theorem run_ends_once (decoder : Decoder σ φ ε μ) (start : σ) (calls : List (Call μ)) :
    let final := (decoder.run calls (.initial start)).2
    final.trace.signals = calls.filterMap Call.signal? ∧ final.trace.conclusions ≤ 1 ∧
    ∀ before call after, calls = before ++ call :: after →
      (∀ earlier ∈ before, earlier.signal? = none) → call.signal? ≠ none →
      let ended := (decoder.run (before ++ [call]) (.initial start)).2
      final.ended = true ∧ final.retention.buffer = none ∧
      final.trace.invocations = ended.trace.invocations ∧
      final.trace.dispatched = ended.trace.dispatched ∧
      (∀ signal, call = .abort signal → final.trace.conclusions = 0) := by
  intro final
  have after_end {before call after} (split : calls = before ++ call :: after)
      (unended : ∀ earlier ∈ before, earlier.signal? = none) (ends : call.signal? ≠ none) :
      let ended := (decoder.run (before ++ [call]) (.initial start)).2
      final.Over ∧ final.trace.invocations = ended.trace.invocations ∧
        final.trace.dispatched = ended.trace.dispatched ∧
        final.trace.conclusions ≤ call.concludes.toNat := by
    intro ended
    let begun : State σ φ ε μ := .initial start
    have runs : begun.ended = false := rfl
    have ⟨past, conclusions⟩ := decoder.run_at_end runs unended ends
    have ⟨past', invocations, dispatched⟩ := past.run decoder after
    have eq : final = (decoder.run after ended).2 := by
      simp only [final, ended, split, List.append_cons before call after, run_append]
    rw [eq]
    refine ⟨past', invocations, dispatched, ?_⟩
    rw [Trace.conclusions, invocations]
    exact Nat.le_trans conclusions (Nat.le_of_eq (Nat.zero_add _))
  refine ⟨run_signals calls (.initial start), ?_, ?_⟩
  · by_cases unended : ∀ call ∈ calls, call.signal? = none
    case pos => exact Nat.le_trans (run_of_unended (.initial start) unended).2 (Nat.zero_le 1)
    case neg =>
      have ⟨_, call, _, split, unended, ends⟩ := exists_first_end unended
      exact Nat.le_trans (after_end split unended ends).2.2.2 (Bool.toNat_le _)
  · intro before call after split unended ends ended
    have ⟨past, invocations, dispatched, conclusions⟩ := after_end split unended ends
    refine ⟨past.ended, past.absent, invocations, dispatched, ?_⟩
    rintro signal rfl
    exact Nat.le_zero.mp conclusions

-- The receiver breaks off at a message, and the strategy faults when it should have its last say on
-- a byte that is retained. After that, a chunk and two more ends follow.
theorem run_ends_once_despite_faults :
    let script : Script := { entries := [
      { operations := [.take 1], reply := .joined }, {}, {}, { reply := .fault "broken" } ] }
    let decoder : Decoder _ _ _ Unit :=
      { strategy := script.strategy, receiver := .refusingAt [1] .collecting }
    let before : List (Call Unit) := [.feed [1] none, .receive (.message ()), .feed [2] none]
    let after : List (Call Unit) :=
      [.feed [3] none, .abort .disconnected, .receive (.ended .closed)]
    let run   := decoder.run (before ++ .finish .closed :: after) (.initial {})
    let ended := (decoder.run (before ++ [.finish .closed]) (.initial {})).2
    (∀ earlier ∈ before, earlier.signal? = none) ∧
    run.1 = [.done .unit, .faulted (.refused 1), .done .unit, .faulted (.raised "broken"),
      .done .unit, .done (.discarded 0), .done .unit] ∧
    run.2.trace.signals = [.closed, .disconnected, .closed] ∧ run.2.trace.conclusions ≤ 1 ∧
    run.2.ended = true ∧ run.2.retention.buffer = none ∧
    run.2.trace.invocations = ended.trace.invocations ∧ ended.trace.invocations.length = 4 := by
  intro script decoder before after run ended
  have unended : ∀ earlier ∈ before, earlier.signal? = none := by decide
  have ⟨signals, most, split⟩ := run_ends_once decoder {} (before ++ .finish .closed :: after)
  have ⟨past, absent, silent, _⟩ := split before (.finish .closed) after rfl unended nofun
  exact ⟨unended, by decide +kernel, signals, most, past, absent, silent, by decide +kernel⟩

end Decoder
end Framing
