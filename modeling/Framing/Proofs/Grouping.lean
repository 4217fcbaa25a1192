import Framing.Proofs.Simulation
import Framing.Strategy.Script

/-!
Groups of frames. Whether a group is handed over as a batch or frame by frame shows in the events
that dispatch it and nowhere else, as long as the receiver never breaks off.
-/

namespace Framing

variable {σ φ ε μ : Type}

-- The frames of a batch one by one, and any other event as it is.
def Event.members : Event φ μ → List (Event φ μ)
  | batch frames source => frames.map (.frame · source)
  | event               => [event]

theorem Found.flatMap_members_events (found : Found φ) (source : Source) :
    (found.events (μ := μ) .together source).flatMap Event.members = found.events .apart source := by
  cases found <;> simp [events, Event.members]

namespace Decoder

-- The decoder with another grouping.
def grouped (decoder : Decoder σ φ ε μ) (grouping : Grouping) : Decoder σ φ ε μ :=
  { decoder with grouping }

namespace Stage

@[simp]
theorem increments_act (stage : Stage σ φ ε μ) (activities : List Activity) :
    (stage.act activities).trace.increments =
      stage.trace.increments ++ activities.filterMap Activity.increment? := by
  simp [Trace.increments, Trace.activities, trace_act, List.filterMap_map, Function.comp_def,
    Trace.Entry.activity?]

-- The same in every respect that a strategy or a counter can tell, where the first stage comes from
-- handing over groups as batches and the second from handing over frames one by one.
structure Regroups (stage stage' : Stage σ φ ε μ) : Prop where
  strategyState : stage.strategyState = stage'.strategyState
  context       : stage.context = stage'.context
  invocations   : stage.trace.invocations = stage'.trace.invocations
  increments    : stage.trace.increments = stage'.trace.increments
  events        : stage.trace.events.flatMap Event.members = stage'.trace.events

namespace Regroups

variable {stage stage' : Stage σ φ ε μ}

theorem refl_of_silent (silent : stage.trace.events = []) : Regroups stage stage where
  strategyState := rfl
  context       := rfl
  invocations   := rfl
  increments    := rfl
  events        := by simp [silent]

theorem act (regroups : Regroups stage stage') (activities : List Activity) :
    Regroups (stage.act activities) (stage'.act activities) where
  strategyState := regroups.strategyState
  context       := regroups.context
  invocations   := by simp [regroups.invocations]
  increments    := by simp [regroups.increments]
  events        := by simp [regroups.events]

end Regroups
end Stage

variable {decoder : Decoder σ φ ε μ} {stage stage' after : Stage σ φ ε μ}

-- Only dispatching a result is counted, not what is handed over for it.
theorem hand_increments {event : Event φ μ} {fault : Option Fault}
    (h : decoder.hand event stage = (fault, after)) :
    after.trace.increments = stage.trace.increments := by
  obtain ⟨_, _, rfl⟩ := hand_eq h
  rw [Stage.increments_act]
  simp [Trace.increments, Trace.activities, Trace.Entry.activity?, List.filterMap_map,
    Function.comp_def, Activity.increment?]

theorem handAll_increments (events : List (Event φ μ)) (stage : Stage σ φ ε μ) :
    (decoder.handAll events stage).2.trace.increments = stage.trace.increments := by
  fun_induction decoder.handAll events stage
  case case1      => rfl
  case case2 h ih => exact ih.trans (hand_increments h)
  case case3 h    => exact hand_increments h

namespace Stage.Regroups

theorem invoke (regroups : Regroups stage stage') (last : Bool) (unread : Bytes) :
    ∃ outcome consumed after after', decoder.invoke last unread stage = (outcome, consumed, after) ∧
      (decoder.grouped .apart).invoke last unread stage' = (outcome, consumed, after') ∧
      Regroups after after' := by
  -- One more invocation is on record, the same in both.
  have pushed (state : σ) (invoked : Trace.Invoked φ ε) : Regroups
      { stage with strategyState := state, trace := stage.trace.push (.invoked invoked) }
      { stage' with
        strategyState := state
        context       := stage.context
        trace         := stage'.trace.push (.invoked invoked) } := by
    have ⟨_, _, invocations, increments, events⟩ := regroups
    constructor <;> simp_all [Trace.invocations, Trace.increments, Trace.activities, Trace.events,
      List.filterMap_cons, Trace.Entry.invocation?, Trace.Entry.activity?, Trace.Entry.event?]
  simp only [Decoder.invoke, ← regroups.strategyState, ← regroups.context]
  exact ⟨_, _, _, _, rfl, rfl, Regroups.act (pushed _ _) _⟩

section Steady

variable (steady : decoder.receiver.Steady) (regroups : Regroups stage stage')
include steady regroups

theorem handAll (events : List (Event φ μ)) :
    ∃ after after', decoder.handAll events stage = (none, after) ∧
      (decoder.grouped .apart).handAll (events.flatMap Event.members) stage' = (none, after') ∧
      Regroups after after' := by
  let apart   := decoder.grouped .apart
  let events' := events.flatMap Event.members
  have taken : (decoder.handAll events stage).1 = none := handAll_fault_of_steady steady ..
  have taken' : (apart.handAll events' stage').1 = none :=
    apart.handAll_fault_of_steady steady events' stage'
  have ⟨_, _, all, grows⟩   := decoder.handAll_grows events stage
  have ⟨_, _, all', grows'⟩ := apart.handAll_grows events' stage'
  refine ⟨_, _, Prod.ext taken rfl, Prod.ext taken' rfl, ?_, ?_, ?_, ?_, ?_⟩
  case refine_1 => simp [handAll_strategyState, regroups.strategyState]
  case refine_2 => simp [handAll_context, regroups.context]
  case refine_3 =>
    have same := congrArg (· ++ []) regroups.invocations
    exact (grows.invocations.trans same).trans grows'.invocations.symm
  case refine_4 => simp [handAll_increments, regroups.increments]
  case refine_5 =>
    refine Eq.trans ?_ grows'.events.symm
    rw [grows.events, all taken, all' taken', List.flatMap_append, regroups.events]

-- What dispatches no frames is handed over alike.
theorem hand {event : Event φ μ} (undecoded : event.isDecoded = false) :
    ∃ fault after after', decoder.hand event stage = (fault, after) ∧
      (decoder.grouped .apart).hand event stage' = (fault, after') ∧ Regroups after after' := by
  have alone : event.members = [event] := by
    cases event
    case message | ended => rfl
    case frame | batch   => cases undecoded
  have ⟨_, _, handed, handed', regroups⟩ := regroups.handAll steady [event]
  rw [List.flatMap_singleton, alone] at handed'
  rw [handAll_singleton] at handed handed'
  exact ⟨_, _, _, handed, handed', regroups⟩

theorem dispatch (together : decoder.grouping = .together) (found : Found φ) (source : Source) :
    ∃ fault after after', decoder.dispatch found source stage = (fault, after) ∧
      (decoder.grouped .apart).dispatch found source stage' = (fault, after') ∧
      Regroups after after' := by
  have counted : Regroups stage.countResult stage'.countResult :=
    { regroups with context := by simp [Stage.countResult, regroups.context] }
  obtain ⟨_, _, handed, handed', regroups⟩ := counted.handAll steady (found.events .together source)
  have handed' : (decoder.grouped .apart).handAll
      (found.events (decoder.grouped .apart).grouping source) stage'.countResult = _ :=
    Found.flatMap_members_events found source ▸ handed'
  simp only [Decoder.dispatch, together, handed, handed']
  exact ⟨_, _, _, rfl, rfl, regroups.act _⟩

end Steady
end Stage.Regroups

section Steady

variable (steady : decoder.receiver.Steady) (together : decoder.grouping = .together)
include steady together

theorem simulates_grouped : decoder.Simulates (decoder.grouped .apart) Stage.Regroups where
  allocator            := rfl
  context regroups     := regroups.context
  act regroups         := regroups.act
  hearing regroups _   := { regroups with context := by simp [Stage.hearing, regroups.context] }
  beginEnding regroups :=
    { regroups with context := by simp [Stage.beginEnding, regroups.context] }
  invoke regroups      := regroups.invoke
  dispatch regroups    := regroups.dispatch steady together
  hand regroups _      := regroups.hand steady

-- States whose stages do, and that retain the same.
abbrev State.Regroups (state state' : State σ φ ε μ) : Prop :=
  State.Match Stage.Regroups state state'

theorem State.Regroups.run {state state' : State σ φ ε μ} (regroups : Regroups state state')
    (calls : List (Call μ)) : Matched Stage.Regroups (decoder.run calls state)
      ((decoder.grouped .apart).run calls state') :=
  (simulates_grouped steady together).run regroups calls

end Steady

-- As the calls so far are a run, too, what is said of the last state holds after every call.
theorem run_grouped (decoder : Decoder σ φ ε μ) (steady : decoder.receiver.Steady) (start : σ)
    (calls : List (Call μ)) :
    let run  := (decoder.grouped .together).run calls (.initial start)
    let run' := (decoder.grouped .apart).run calls (.initial start)
    run.1 = run'.1 ∧ run.2.trace.invocations = run'.2.trace.invocations ∧
    run.2.retention = run'.2.retention ∧ run.2.ended = run'.2.ended ∧
    run.2.context = run'.2.context ∧ run.2.trace.increments = run'.2.trace.increments ∧
    run.2.trace.events.flatMap Event.members = run'.2.trace.events := by
  let begun : State σ φ ε μ := .initial start
  have same : State.Regroups begun begun := ⟨.refl_of_silent rfl, rfl, rfl⟩
  have steady' : (decoder.grouped .together).receiver.Steady := steady
  have ⟨outcomes, stage, retention, ended⟩ := same.run steady' rfl calls
  exact ⟨outcomes, stage.invocations, retention, ended, stage.context, stage.increments,
    stage.events⟩

-- A group, an empty group, an error, a fault and a message, and a group that is found at the end.
theorem run_grouped_across_failures :
    let script : Script := { entries := [
      { operations := [.take 1, .take 1], reply := .pieces },
      { operations := [.advance 1], reply := .group [] }, { reply := .error "bad" },
      { reply := .fault "broken" }, {}, { operations := [.take 1, .take 1], reply := .pieces } ] }
    let decoder : Decoder _ _ _ Unit := { strategy := script.strategy, receiver := .collecting }
    let calls : List (Call Unit) := [.feed [1, 2, 3, 4] (some "a"), .feed [5] none,
      .receive (.message ()), .finish .closed]
    let run  := (decoder.grouped .together).run calls (.initial {})
    let run' := (decoder.grouped .apart).run calls (.initial {})
    decoder.receiver.Steady ∧
    run.1 = [.failed (.strategy "bad"), .faulted (.raised "broken"), .done .unit, .done .unit] ∧
    run.1 = run'.1 ∧ run.2.trace.increments = run'.2.trace.increments ∧
    run.2.trace.events.flatMap Event.members = run'.2.trace.events ∧
    run.2.trace.events.length = 5 ∧ run'.2.trace.events = [.frame [1] (some "a"),
      .frame [2] (some "a"), .message (), .frame [4] none, .frame [5] none, .ended .closed] := by
  intro script decoder calls run run'
  have ⟨outcomes, _, _, _, _, increments, events⟩ :=
    run_grouped decoder Receiver.collecting_steady {} calls
  exact ⟨Receiver.collecting_steady, by decide +kernel, outcomes, increments, events,
    by decide +kernel, by decide +kernel⟩

end Decoder
end Framing
