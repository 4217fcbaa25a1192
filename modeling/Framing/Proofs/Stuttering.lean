import Framing.Proofs.Positions
import Framing.Proofs.Simulation

/-!
Calls that might as well be left out: messages that pass through, empty chunks, and chunks that come
when the stream has ended. Whichever of them are left out, all other calls come out the same.
-/

namespace Framing

variable {σ φ ε μ : Type}

-- All that is counted and requested, in order.
def Trace.ledger (trace : Trace φ ε μ) : List Activity :=
  trace.activities.filter (·.notice?.isNone)

theorem Trace.increments_ledger (trace : Trace φ ε μ) :
    trace.increments = trace.ledger.filterMap Activity.increment? := by
  rw [Trace.ledger, List.filterMap_filter]
  refine congrArg (trace.activities.filterMap ·) (funext fun activity => ?_)
  cases activity <;> rfl

theorem Trace.requests_ledger (trace : Trace φ ε μ) :
    trace.requests = trace.ledger.filterMap Activity.request? := by
  rw [Trace.ledger, List.filterMap_filter]
  refine congrArg (trace.activities.filterMap ·) (funext fun activity => ?_)
  cases activity <;> rfl

namespace Decoder

namespace Stage

@[simp]
theorem ledger_act (stage : Stage σ φ ε μ) (activities : List Activity) :
    (stage.act activities).trace.ledger =
      stage.trace.ledger ++ activities.filter (·.notice?.isNone) := by
  simp [Trace.ledger, Trace.activities, trace_act, List.filterMap_map, Function.comp_def,
    Trace.Entry.activity?]

-- The same in every respect that a strategy, a counter or a provider can tell.
structure Level (stage stage' : Stage σ φ ε μ) : Prop where
  strategyState : stage.strategyState = stage'.strategyState
  context       : stage.context = stage'.context
  invocations   : stage.trace.invocations = stage'.trace.invocations
  ledger        : stage.trace.ledger = stage'.trace.ledger

-- Beside that, the same was handed over since the events were those of `base` and `base'`.
structure Parallel (base base' : List (Event φ μ)) (stage stage' : Stage σ φ ε μ) : Prop
    extends Level stage stage' where
  events : ∃ handed, stage.trace.events = base ++ handed ∧ stage'.trace.events = base' ++ handed

namespace Level

variable {s₁ s₂ s₃ : Stage σ φ ε μ}

theorem refl (stage : Stage σ φ ε μ) : Level stage stage :=
  ⟨rfl, rfl, rfl, rfl⟩

theorem symm (level : Level s₁ s₂) : Level s₂ s₁ :=
  ⟨level.strategyState.symm, level.context.symm, level.invocations.symm, level.ledger.symm⟩

theorem trans (level : Level s₁ s₂) (level' : Level s₂ s₃) : Level s₁ s₃ where
  strategyState := level.strategyState.trans level'.strategyState
  context       := level.context.trans level'.context
  invocations   := level.invocations.trans level'.invocations
  ledger        := level.ledger.trans level'.ledger

theorem parallel (level : Level s₁ s₂) : Parallel s₁.trace.events s₂.trace.events s₁ s₂ :=
  ⟨level, [], (List.append_nil _).symm, (List.append_nil _).symm⟩

-- A notice is neither a count nor a request.
theorem note (stage : Stage σ φ ε μ) (notice : Notice) : Level stage (stage.note notice) where
  strategyState := rfl
  context       := rfl
  invocations   := by simp [Stage.note]
  ledger        := by simp [Stage.note, Activity.notice?]

end Level
end Stage

variable {decoder : Decoder σ φ ε μ} {stage stage' after : Stage σ φ ε μ}
variable {event : Event φ μ} {fault : Option Fault} {base base' : List (Event φ μ)}

-- A receiver that is gone is only worth a notice.
theorem hand_ledger (h : decoder.hand event stage = (fault, after)) :
    after.trace.ledger = stage.trace.ledger := by
  obtain ⟨_, _, rfl⟩ := hand_eq h
  rw [Stage.ledger_act]
  simp [Trace.ledger, Trace.activities, Trace.Entry.activity?, Activity.notice?]

theorem hand_level (h : decoder.hand event stage = (fault, after)) : Stage.Level stage after where
  strategyState := (hand_strategyState h).symm
  context       := (hand_context h).symm
  invocations   := by rw [(hand_grows h).invocations, List.append_nil]
  ledger        := (hand_ledger h).symm

variable (decoder) in
theorem handAll_level (events : List (Event φ μ)) (stage : Stage σ φ ε μ) :
    Stage.Level stage (decoder.handAll events stage).2 := by
  fun_induction decoder.handAll events stage
  case case1      => exact .refl _
  case case2 h ih => exact (hand_level h).trans ih
  case case3 h    => exact hand_level h

namespace Stage.Parallel

variable (parallel : Parallel base base' stage stage')
include parallel

theorem act (activities : List Activity) :
    Parallel base base' (stage.act activities) (stage'.act activities) where
  strategyState := parallel.strategyState
  context       := parallel.context
  invocations   := by simp [parallel.invocations]
  ledger        := by simp [parallel.ledger]
  events        := by simpa using parallel.events

theorem invoke (last : Bool) (unread : Bytes) :
    ∃ outcome consumed after after', decoder.invoke last unread stage = (outcome, consumed, after) ∧
      decoder.invoke last unread stage' = (outcome, consumed, after') ∧
      Parallel base base' after after' := by
  -- One more invocation is on record, the same in both.
  have pushed (state : σ) (invoked : Trace.Invoked φ ε) : Parallel base base'
      { stage with strategyState := state, trace := stage.trace.push (.invoked invoked) }
      { stage' with
        strategyState := state
        context       := stage.context
        trace         := stage'.trace.push (.invoked invoked) } := by
    have ⟨⟨_, _, invocations, ledger⟩, handed, eq, eq'⟩ := parallel
    refine ⟨⟨rfl, rfl, ?_, ?_⟩, handed, ?_, ?_⟩ <;> simp_all [Trace.invocations, Trace.ledger,
      Trace.activities, Trace.events, List.filterMap_cons, Trace.Entry.invocation?,
      Trace.Entry.activity?, Trace.Entry.event?]
  simp only [Decoder.invoke, ← parallel.strategyState, ← parallel.context]
  exact ⟨_, _, _, _, rfl, rfl, (pushed _ _).act _⟩

variable (steady : decoder.receiver.Steady)
include steady

theorem handAll (events : List (Event φ μ)) :
    ∃ after after', decoder.handAll events stage = (none, after) ∧
      decoder.handAll events stage' = (none, after') ∧ Parallel base base' after after' := by
  have taken (stage : Stage σ φ ε μ) : (decoder.handAll events stage).1 = none :=
    handAll_fault_of_steady steady ..
  have ⟨_, _, all, grows⟩   := decoder.handAll_grows events stage
  have ⟨_, _, all', grows'⟩ := decoder.handAll_grows events stage'
  have level := (decoder.handAll_level events stage).symm.trans
    (parallel.toLevel.trans (decoder.handAll_level events stage'))
  have ⟨handed, eq, eq'⟩ := parallel.events
  refine ⟨_, _, Prod.ext (taken _) rfl, Prod.ext (taken _) rfl, level, handed ++ events, ?_, ?_⟩
  · rw [grows.events, all (taken _), eq, List.append_assoc]
  · rw [grows'.events, all' (taken _), eq', List.append_assoc]

theorem dispatch (found : Found φ) (source : Source) :
    ∃ fault after after', decoder.dispatch found source stage = (fault, after) ∧
      decoder.dispatch found source stage' = (fault, after') ∧ Parallel base base' after after' := by
  have counted : Parallel base base' stage.countResult stage'.countResult :=
    { parallel with context := by simp [Stage.countResult, parallel.context] }
  obtain ⟨_, _, handed, handed', parallel⟩ :=
    counted.handAll steady (found.events decoder.grouping source)
  simp only [Decoder.dispatch, handed, handed']
  exact ⟨_, _, _, rfl, rfl, parallel.act _⟩

theorem hand (event : Event φ μ) :
    ∃ fault after after', decoder.hand event stage = (fault, after) ∧
      decoder.hand event stage' = (fault, after') ∧ Parallel base base' after after' := by
  have ⟨_, _, handed, handed', parallel⟩ := parallel.handAll steady [event]
  rw [handAll_singleton] at handed handed'
  exact ⟨_, _, _, handed, handed', parallel⟩

end Stage.Parallel

theorem simulates_parallel (steady : decoder.receiver.Steady) (base base' : List (Event φ μ)) :
    decoder.Simulates decoder (Stage.Parallel base base') where
  allocator              := rfl
  context parallel       := parallel.context
  act parallel           := parallel.act
  hearing parallel _     :=
    { parallel with context := by simp [Stage.hearing, parallel.context] }
  beginEnding parallel   :=
    { parallel with context := by simp [Stage.beginEnding, parallel.context] }
  invoke parallel        := parallel.invoke
  dispatch parallel      := parallel.dispatch steady
  hand parallel event _  := parallel.hand steady event

-- The message that the call passes on, if it does.
def Call.messages : Call μ → List (Event φ μ)
  | receive (.message content) => [.message content]
  | _                          => []

-- What becomes of the call: how it comes out, and what is handed over in it.
def course (decoder : Decoder σ φ ε μ) (call : Call μ) (state : State σ φ ε μ) :
    Outcome (DecodeError ε) Reply × List (Event φ μ) :=
  let (outcome, after) := decoder.perform call state
  (outcome, after.trace.events.drop state.trace.events.length)

-- What becomes of each of the calls of a run.
def courses (decoder : Decoder σ φ ε μ) :
    List (Call μ) → State σ φ ε μ → List (Outcome (DecodeError ε) Reply × List (Event φ μ))
  | [], _               => []
  | call :: calls, state =>
    decoder.course call state :: courses decoder calls (decoder.perform call state).2

theorem course_eq {call : Call μ} {outcome : Outcome (DecodeError ε) Reply}
    {state after : State σ φ ε μ} {handed : List (Event φ μ)}
    (performed : decoder.perform call state = (outcome, after))
    (events : after.trace.events = state.trace.events ++ handed) :
    decoder.course call state = (outcome, handed) := by
  rw [course, performed]
  simp [events]

section Steady

variable {state state' : State σ φ ε μ} (steady : decoder.receiver.Steady)
include steady

theorem perform_parallel (level : State.Match Stage.Level state state') (call : Call μ) :
    Matched Stage.Level (decoder.perform call state) (decoder.perform call state') ∧
    ∃ handed, (decoder.perform call state).2.trace.events = state.trace.events ++ handed ∧
      (decoder.perform call state').2.trace.events = state'.trace.events ++ handed := by
  have parallel : State.Match (Stage.Parallel state.trace.events state'.trace.events) state state' :=
    { level with stage := level.stage.parallel }
  have ⟨outcome, stage, retention, ended⟩ :=
    (simulates_parallel steady _ _).perform parallel call
  exact ⟨⟨outcome, stage.toLevel, retention, ended⟩, stage.events⟩

-- A step that leaves everything as it is but for a message that is passed on.
theorem perform_idle (call : Call μ) (state : State σ φ ε μ) (unended : call.signal? = none)
    (ignored : call.chunk = [] ∨ state.ended) :
    decoder.course call state = (.done .unit, call.messages) ∧
      State.Match Stage.Level state (decoder.perform call state).2 := by
  have fed {chunk : Bytes} (source : Source) (ignored : chunk = [] ∨ state.ended) :
      decoder.course (.feed chunk source) state = (.done .unit, []) ∧
        State.Match Stage.Level state (decoder.perform (.feed chunk source) state).2 := by
    have ⟨notice, eq⟩ : ∃ notice, decoder.feed chunk source state =
        (.done (), state.note notice) := by
      rcases ignored with rfl | ended
      case inl => exact ⟨_, decoder.feed_nil source state⟩
      case inr => exact decoder.feed_of_ended ended chunk source
    have same : decoder.perform (.feed chunk source) state = (.done .unit, state.note notice) := by
      rw [perform, eq]
      rfl
    have silent : (state.note notice).trace.events = state.trace.events ++ [] := by
      simp [State.note, Stage.note]
    rw [course_eq same silent, same]
    exact ⟨rfl, .note _ notice, rfl, rfl⟩
  rcases call with (⟨chunk, source⟩ | content | signal) | ⟨chunk, source⟩ | signal | signal
  case receive.chunk | feed => exact fed source ignored
  case receive.message =>
    have taken := hand_fault_of_steady steady (.message content) state.toStage
    rcases handed : decoder.hand (.message content) state.toStage with ⟨fault, after⟩
    rw [handed] at taken
    cases taken
    have same : decoder.perform (.receive (.message content)) state =
        (.done .unit, { state with toStage := after }) := by
      simp only [perform, receive, handed]
      rfl
    rw [course_eq same (hand_grows handed).events, same]
    exact ⟨rfl, hand_level handed, rfl, rfl⟩
  all_goals cases unended

-- What is handed over in a run is what is handed over in its calls.
theorem run_courses (calls : List (Call μ)) (state : State σ φ ε μ) :
    (decoder.run calls state).1 = (decoder.courses calls state).map Prod.fst ∧
      (decoder.run calls state).2.trace.events =
        state.trace.events ++ (decoder.courses calls state).flatMap Prod.snd := by
  induction calls generalizing state
  case nil => simp [run, courses]
  case cons call calls ih =>
    have level : State.Match Stage.Level state state := ⟨.refl _, rfl, rfl⟩
    obtain ⟨_, handed, events, _⟩ := perform_parallel steady level call
    obtain ⟨outcomes, whole⟩      := ih (decoder.perform call state).2
    rw [events] at whole
    rw [courses, course_eq (Prod.eta _).symm events]
    exact ⟨congrArg _ outcomes, whole.trans (by simp)⟩

theorem courses_message (calls : List (Call μ)) (state : State σ φ ε μ) :
    ∀ entry ∈ calls.zip (decoder.courses calls state),
      ∀ content, entry.1 = .receive (.message content) →
        entry.2 = (.done .unit, [.message content]) := by
  induction calls generalizing state
  case nil => exact List.forall_mem_nil _
  case cons call calls ih =>
    refine List.forall_mem_cons.mpr ⟨?_, ih _⟩
    rintro content rfl
    exact (perform_idle steady (.receive (.message content)) state rfl (.inl rfl)).1

-- By induction on the calls: those that are left out are steps of one run only, and lead to states
-- that are level with those of the other.
theorem courses_erase {marked : List (Call μ × Bool)} (level : State.Match Stage.Level state state')
    (idle : ∀ before call after, marked = before ++ (call, false) :: after →
      call.signal? = none ∧
        (call.chunk = [] ∨ state.ended ∨ ∃ earlier ∈ before, earlier.1.signal? ≠ none)) :
    let calls   := marked.map Prod.fst
    let kept    := (marked.filter Prod.snd).map Prod.fst
    let courses := decoder.courses calls state
    decoder.courses kept state' = ((marked.zip courses).filter (·.1.2)).map Prod.snd ∧
    (∀ entry ∈ marked.zip courses, entry.1.2 = false →
      entry.2 = (.done .unit, entry.1.1.messages)) ∧
    State.Match Stage.Level (decoder.run calls state).2 (decoder.run kept state').2 := by
  induction marked generalizing state state'
  case nil => exact ⟨rfl, List.forall_mem_nil _, level⟩
  case cons entry marked ih =>
    obtain ⟨call, keeps⟩ := entry
    -- What holds of the calls behind the first one, in the state that it leads to.
    have later : ∀ before other after, marked = before ++ (other, false) :: after →
        other.signal? = none ∧ (other.chunk = [] ∨ (decoder.perform call state).2.ended ∨
          ∃ earlier ∈ before, earlier.1.signal? ≠ none) := by
      intro before other after split
      have ⟨unended, ignored⟩ := idle ((call, keeps) :: before) other after (congrArg _ split)
      rw [perform_ended, Bool.or_eq_true]
      rcases ignored with empty | ended | ⟨earlier, mem, ends⟩
      case inl     => exact ⟨unended, .inl empty⟩
      case inr.inl => exact ⟨unended, .inr (.inl (.inl ended))⟩
      case inr.inr =>
        rcases List.mem_cons.mp mem with rfl | mem
        case inl => exact ⟨unended, .inr (.inl (.inr (Option.isSome_iff_ne_none.mpr ends)))⟩
        case inr => exact ⟨unended, .inr (.inr ⟨earlier, mem, ends⟩)⟩
    cases keeps
    case true =>
      have ⟨⟨outcome, level'⟩, handed, events, events'⟩ := perform_parallel steady level call
      have ⟨kept, dropped, final⟩ := ih level' later
      have same : decoder.course call state = decoder.course call state' := by
        rw [course_eq (Prod.eta _).symm events, course_eq (Prod.eta _).symm events', outcome]
      refine ⟨?_, List.forall_mem_cons.mpr ⟨nofun, dropped⟩, final⟩
      exact congr (congrArg List.cons same.symm) kept
    case false =>
      have ⟨unended, ignored⟩ := idle [] call marked rfl
      have ⟨course, stays⟩ := perform_idle steady call state unended
        (ignored.imp_right (·.resolve_right nofun))
      have level' : State.Match Stage.Level (decoder.perform call state).2 state' :=
        ⟨stays.stage.symm.trans level.stage, stays.retention.symm.trans level.retention,
          stays.ended.symm.trans level.ended⟩
      have ⟨kept, dropped, final⟩ := ih level' later
      exact ⟨kept, List.forall_mem_cons.mpr ⟨fun _ => course, dropped⟩, final⟩

end Steady

-- Each of the calls is `marked` with whether it is kept in the other run. Calls that end the stream are
-- kept, and chunks that are not empty as long as it goes on. As the marked calls so far are marked
-- calls, too, what is said of the last states holds after every call.
theorem run_stutters (decoder : Decoder σ φ ε μ) (steady : decoder.receiver.Steady) (start : σ)
    (marked : List (Call μ × Bool))
    (idle : ∀ before call after, marked = before ++ (call, false) :: after →
      call.signal? = none ∧ (call.chunk = [] ∨ ∃ earlier ∈ before, earlier.1.signal? ≠ none)) :
    let calls    := marked.map Prod.fst
    let kept     := (marked.filter Prod.snd).map Prod.fst
    let courses  := decoder.courses calls (.initial start)
    let courses' := decoder.courses kept (.initial start)
    let run      := decoder.run calls (.initial start)
    let run'     := decoder.run kept (.initial start)
    courses' = ((marked.zip courses).filter (·.1.2)).map Prod.snd ∧
    (∀ entry ∈ marked.zip courses, entry.1.2 = false →
      entry.2 = (.done .unit, entry.1.1.messages)) ∧
    (∀ entry ∈ calls.zip courses, ∀ content, entry.1 = .receive (.message content) →
      entry.2 = (.done .unit, [.message content])) ∧
    run.1 = courses.map Prod.fst ∧ run.2.trace.events = courses.flatMap Prod.snd ∧
    run'.1 = courses'.map Prod.fst ∧ run'.2.trace.events = courses'.flatMap Prod.snd ∧
    run.2.trace.invocations = run'.2.trace.invocations ∧
    run.2.trace.increments = run'.2.trace.increments ∧
    run.2.trace.requests = run'.2.trace.requests ∧ run.2.retention = run'.2.retention ∧
    run.2.context = run'.2.context ∧ run.2.strategyState = run'.2.strategyState ∧
    run.2.ended = run'.2.ended := by
  intro calls kept courses courses' run run'
  let begun : State σ φ ε μ := .initial start
  have level : State.Match Stage.Level begun begun := ⟨.refl _, rfl, rfl⟩
  have ⟨same, dropped, final⟩ := courses_erase steady level fun before call after split =>
    have ⟨unended, ignored⟩ := idle before call after split
    ⟨unended, ignored.imp_right .inr⟩
  have ⟨⟨strategyState, context, invocations, ledger⟩, retention, ended⟩ := final
  have ⟨outcomes, events⟩   := run_courses steady calls begun
  have ⟨outcomes', events'⟩ := run_courses steady kept begun
  have increments : run.2.trace.increments = run'.2.trace.increments := by
    rw [Trace.increments_ledger, Trace.increments_ledger, ledger]
  have requests : run.2.trace.requests = run'.2.trace.requests := by
    rw [Trace.requests_ledger, Trace.requests_ledger, ledger]
  exact ⟨same, dropped, courses_message steady calls begun, outcomes, events, outcomes', events',
    invocations, increments, requests, retention, context, strategyState, ended⟩

-- A message between two chunks of one frame, an empty chunk after an error, and a chunk and a message
-- after the end are left out. A message after a fault is kept.
theorem run_stutters_across_failures :
    let script : Script := { entries := [
      {}, { operations := [.take 2], reply := .joined }, { reply := .error "bad" },
      { reply := .fault "broken" }, {}, { operations := [.take 1], reply := .joined } ] }
    let decoder : Decoder _ _ _ Nat := { strategy := script.strategy, receiver := .collecting }
    let marked : List (Call Nat × Bool) := [
      (.feed [1] (some "a"), true), (.receive (.message 0), false), (.feed [2, 3] (some "b"), true),
      (.feed [] (some "c"), false), (.feed [4] none, true), (.receive (.message 1), true),
      (.finish .closed, true), (.feed [5] (some "d"), false), (.receive (.message 2), false) ]
    let kept := (marked.filter Prod.snd).map Prod.fst
    let run  := decoder.run (marked.map Prod.fst) (.initial {})
    let run' := decoder.run kept (.initial {})
    decoder.receiver.Steady ∧
    (∀ before call after, marked = before ++ (call, false) :: after →
      call.signal? = none ∧ (call.chunk = [] ∨ ∃ earlier ∈ before, earlier.1.signal? ≠ none)) ∧
    run'.1 = [.done .unit, .failed (.strategy "bad"), .faulted (.raised "broken"), .done .unit,
      .done .unit] ∧
    run.2.trace.events = [.message 0, .frame [1, 2] (some "b"), .message 1, .frame [3] none,
      .ended .closed, .message 2] ∧
    run'.2.trace.events = [.frame [1, 2] (some "b"), .message 1, .frame [3] none,
      .ended .closed] ∧
    run.2.trace.invocations = run'.2.trace.invocations ∧ run.2.retention = run'.2.retention := by
  intro script decoder marked kept run run'
  have steady : decoder.receiver.Steady := Receiver.collecting_steady
  have idle : ∀ before call after, marked = before ++ (call, false) :: after →
      call.signal? = none ∧ (call.chunk = [] ∨ ∃ earlier ∈ before, earlier.1.signal? ≠ none) := by
    have checked : ∀ n < marked.length, ∀ entry ∈ marked[n]?, entry.2 = false →
        entry.1.signal? = none ∧
          (entry.1.chunk = [] ∨ ∃ earlier ∈ marked.take n, earlier.1.signal? ≠ none) := by
      decide
    intro before call after split
    have inside : before.length < marked.length := by
      simp [split]
    have found : marked[before.length]? = some (call, false) := by
      simp [split]
    have earlier : marked.take before.length = before := by
      simp [split]
    exact earlier ▸ checked before.length inside (call, false) found rfl
  have ⟨_, _, _, _, _, _, _, invocations, _, _, retention, _⟩ :=
    run_stutters decoder steady {} marked idle
  exact ⟨steady, idle, by decide +kernel, by decide +kernel, by decide +kernel, invocations,
    retention⟩

end Decoder
end Framing
