import Framing.Decoder.Ending
import Framing.Proofs.Feeding

/-!
Stages that a strategy and a receiver cannot tell apart. Whatever is done in one of them comes out
the same in the other, however much else they have on record and wherever their bytes lie.
-/

namespace Framing

variable {σ φ ε μ : Type}

-- The entries of traces that are looked at. What a decoder writes to its logs and how it goes about
-- memory are never among them.
structure Trace.Focus (φ ε μ : Type) where
  includes        : Trace.Entry φ ε μ → Bool
  includes_upkeep : ∀ activity, activity.isUpkeep → includes (.activity activity) = false

-- Looks at the events only.
def Trace.Focus.events : Trace.Focus φ ε μ where
  includes
    | .handed .. => true
    | _          => false
  includes_upkeep _ _ := rfl

-- The error without the number of results before it, which counts from the last delivery.
def DecodeError.uncounted : DecodeError ε → DecodeError ε
  | stalled _ => .stalled 0
  | error     => error

-- How a call came out, whatever the number of results.
def Outcome.uncounted {α : Type} : Outcome (DecodeError ε) α → Outcome (DecodeError ε) Unit
  | done _        => .done ()
  | failed error  => .failed error.uncounted
  | faulted fault => .faulted fault

@[simp]
theorem Outcome.uncounted_map {α β : Type} (outcome : Outcome (DecodeError ε) α) (f : α → β) :
    (outcome.map f).uncounted = outcome.uncounted := by
  cases outcome <;> rfl

theorem Outcome.uncounted_eq_done_iff {outcome : Outcome (DecodeError ε) Unit} :
    outcome.uncounted = .done () ↔ outcome = .done () := by
  cases outcome <;> simp [uncounted]

-- Whether invocations come to the same, whatever they write to the log.
structure Invocation.Agrees (invocation invocation' : Invocation σ φ ε) : Prop where
  outcome  : invocation'.outcome = invocation.outcome
  consumed : invocation'.consumed = invocation.consumed
  state    : invocation'.state = invocation.state

namespace Decoder

-- A strategy is told its state and the context, and a receiver how many events it was handed.
structure Stage.Alike (focus : Trace.Focus φ ε μ) (stage stage' : Stage σ φ ε μ) : Prop where
  strategyState : stage.strategyState = stage'.strategyState
  context       : stage.context = stage'.context
  handed        : stage.handed = stage'.handed
  trace         : stage.trace.toList.filter focus.includes = stage'.trace.toList.filter focus.includes

namespace Stage.Alike

variable {focus : Trace.Focus φ ε μ} {s₁ s₂ s₃ : Stage σ φ ε μ}

theorem refl (stage : Stage σ φ ε μ) : Alike focus stage stage :=
  ⟨rfl, rfl, rfl, rfl⟩

theorem symm (alike : Alike focus s₁ s₂) : Alike focus s₂ s₁ :=
  ⟨alike.strategyState.symm, alike.context.symm, alike.handed.symm, alike.trace.symm⟩

theorem trans (alike : Alike focus s₁ s₂) (alike' : Alike focus s₂ s₃) : Alike focus s₁ s₃ where
  strategyState := alike.strategyState.trans alike'.strategyState
  context       := alike.context.trans alike'.context
  handed        := alike.handed.trans alike'.handed
  trace         := alike.trace.trans alike'.trace

-- What only goes on record makes no difference, other than to the tallies.
theorem act (alike : Alike focus s₁ s₂) {activities more : List Activity}
    (same : Activity.tallies activities = Activity.tallies more) :
    Alike focus (s₁.act activities) (s₂.act more) where
  strategyState := alike.strategyState
  context       := alike.context
  handed        := alike.handed
  trace         := by
    have eq (list : List Activity) : (list.map Trace.Entry.activity).filter focus.includes =
        ((Activity.tallies list).map Trace.Entry.activity).filter focus.includes := by
      simp only [List.filter_map, Activity.tallies, List.filter_filter]
      congr 1
      apply List.filter_congr
      intro activity _
      cases upkeep : activity.isUpkeep <;> simp [focus.includes_upkeep activity, upkeep]
    simp only [trace_act, List.filter_append, alike.trace]
    rw [eq, same, ← eq]

theorem note (alike : Alike focus s₁ s₂) (notice notice' : Notice) :
    Alike focus (s₁.note notice) (s₂.note notice') :=
  alike.act rfl

-- Where only events are looked at, nothing that goes on record makes a difference.
theorem self_act (stage : Stage σ φ ε μ) (activities : List Activity) :
    Alike .events stage (stage.act activities) where
  strategyState := rfl
  context       := rfl
  handed        := rfl
  trace         := by simp [trace_act, Trace.Focus.events]

theorem act_left (alike : Alike .events s₁ s₂) (activities : List Activity) :
    Alike .events (s₁.act activities) s₂ :=
  (self_act ..).symm.trans alike

theorem act_right (alike : Alike .events s₁ s₂) (activities : List Activity) :
    Alike .events s₁ (s₂.act activities) :=
  alike.trans (self_act ..)

theorem hearing (alike : Alike focus s₁ s₂) (source : Source) :
    Alike focus (s₁.hearing source) (s₂.hearing source) :=
  { alike with context := by simp [Stage.hearing, alike.context] }

theorem countResult (alike : Alike focus s₁ s₂) :
    Alike focus s₁.countResult s₂.countResult :=
  { alike with context := by simp [Stage.countResult, alike.context] }

-- Which source a chunk came from makes no difference once the stream has ended.
theorem beginEnding {source : Source} (alike : Alike focus (s₁.hearing source) (s₂.hearing source)) :
    Alike focus s₁.beginEnding s₂.beginEnding where
  strategyState := alike.strategyState
  context       := by
    have := alike.context
    simp_all [Stage.hearing, Stage.beginEnding]
  handed        := alike.handed
  trace         := alike.trace

theorem events (alike : Alike .events s₁ s₂) : s₁.trace.events = s₂.trace.events := by
  have eq (list : List (Trace.Entry φ ε μ)) : list.filterMap Trace.Entry.event? =
      (list.filter Trace.Focus.events.includes).filterMap Trace.Entry.event? := by
    rw [List.filterMap_filter]
    congr 1
    funext entry
    cases entry <;> rfl
  simp only [Trace.events]
  rw [eq, alike.trace, ← eq]

end Stage.Alike

variable {decoder : Decoder σ φ ε μ} {focus : Trace.Focus φ ε μ} {stage stage' after : Stage σ φ ε μ}
variable {last : Bool} {unread : Bytes} {outcome : Outcome ε (Found φ)} {consumed : Nat}
variable {event : Event φ μ} {found : Found φ} {source : Source} {fault : Option Fault}

theorem Stage.Alike.invoke (alike : Stage.Alike focus stage stage')
    (h : decoder.invoke last unread stage = (outcome, consumed, after)) :
    ∃ after', decoder.invoke last unread stage' = (outcome, consumed, after') ∧
      Stage.Alike focus after after' := by
  cases h
  simp only [Decoder.invoke, ← alike.strategyState, ← alike.context]
  refine ⟨_, rfl, ?_⟩
  refine Stage.Alike.act ?_ rfl
  exact ⟨rfl, rfl, alike.handed, by simp [List.filter_append, alike.trace]⟩

-- Where only events are looked at, invocations may be shown different bytes, as long as the answers
-- are the same.
theorem Stage.Alike.invoke_of_agrees (alike : Stage.Alike .events stage stage') {unread' : Bytes}
    (h : decoder.invoke last unread stage = (outcome, consumed, after))
    (agrees : (decoder.invocation last unread stage).Agrees
      (decoder.invocation last unread' stage)) :
    ∃ after', decoder.invoke last unread' stage' = (outcome, consumed, after') ∧
      Stage.Alike .events after after' := by
  have ⟨outcome', consumed', state'⟩ := agrees
  simp only [invocation] at outcome' consumed' state'
  cases h
  simp only [Decoder.invoke, ← alike.strategyState, ← alike.context, outcome', consumed', state']
  refine ⟨_, rfl, (Stage.Alike.act_left ?_ _).act_right _⟩
  refine ⟨rfl, rfl, alike.handed, ?_⟩
  simpa [List.filter_append, Trace.Focus.events] using alike.trace

-- An invocation that leaves the strategy as it was is not noticed where only events are looked at.
theorem Stage.Alike.self_invoke
    (h : decoder.invoke last unread stage = (outcome, consumed, after))
    (same : after.strategyState = stage.strategyState) : Stage.Alike .events stage after := by
  cases h
  apply Stage.Alike.act_right
  exact ⟨same.symm, rfl, rfl, by simp [List.filter_append, Trace.Focus.events]⟩

theorem Stage.Alike.hand (alike : Stage.Alike focus stage stage')
    (h : decoder.hand event stage = (fault, after)) :
    ∃ after', decoder.hand event stage' = (fault, after') ∧ Stage.Alike focus after after' := by
  have pushed (reception : Reception) : Stage.Alike focus
      { stage with
        handed := stage.handed + 1
        trace  := stage.trace.push (.handed event reception) }
      { stage' with
        handed := stage.handed + 1
        trace  := stage'.trace.push (.handed event reception) } :=
    ⟨alike.strategyState, alike.context, rfl, by simp [List.filter_append, alike.trace]⟩
  simp only [Decoder.hand, ← alike.handed] at h ⊢
  split at h <;> cases h
  case h_1 | h_3 => exact ⟨_, rfl, pushed _⟩
  case h_2       => exact ⟨_, rfl, (pushed _).note _ _⟩

theorem Stage.Alike.handAll {events : List (Event φ μ)} (alike : Stage.Alike focus stage stage')
    (h : decoder.handAll events stage = (fault, after)) :
    ∃ after', decoder.handAll events stage' = (fault, after') ∧ Stage.Alike focus after after' := by
  fun_induction Decoder.handAll decoder events stage generalizing stage'
  case case1 =>
    cases h
    exact ⟨_, rfl, alike⟩
  case case2 hand ih =>
    obtain ⟨_, hand', alike⟩ := alike.hand hand
    simpa [Decoder.handAll, hand'] using ih alike h
  case case3 hand =>
    cases h
    obtain ⟨_, hand', alike⟩ := alike.hand hand
    exact ⟨_, by simp [Decoder.handAll, hand'], alike⟩

theorem Stage.Alike.dispatch (alike : Stage.Alike focus stage stage')
    (h : decoder.dispatch found source stage = (fault, after)) :
    ∃ after', decoder.dispatch found source stage' = (fault, after') ∧
      Stage.Alike focus after after' := by
  simp only [Decoder.dispatch] at h
  split at h <;> cases h
  case h_1 handed =>
    have ⟨_, handed', alike⟩ := alike.countResult.handAll handed
    simp only [Decoder.dispatch, handed']
    exact ⟨_, rfl, alike.act rfl⟩
  case h_2 handed =>
    have ⟨_, handed', alike⟩ := alike.countResult.handAll handed
    simp only [Decoder.dispatch, handed']
    exact ⟨_, rfl, alike⟩

-- Passes that come out the same and leave the same bytes, if not at the same position.
structure Pass.Alike (focus : Trace.Focus φ ε μ) (pass pass' : Pass σ φ ε μ) : Prop where
  outcome : pass.outcome.uncounted = pass'.outcome.uncounted
  unread  : pass.unread = pass'.unread
  stage   : Stage.Alike focus pass.stage pass'.stage

theorem Rounds.alike {position results : Nat} {pass : Pass σ φ ε μ}
    (rounds : decoder.Rounds unread position results stage pass)
    (alike : Stage.Alike focus stage stage') (position' results' : Nat) :
    Pass.Alike focus pass (decoder.pass unread position' results' stage') ∧
      (results = results' →
        pass.outcome = (decoder.pass unread position' results' stage').outcome) := by
  induction rounds generalizing stage' position' results'
  case exhausted =>
    rw [Rounds.exhausted.eq_pass]
    exact ⟨⟨rfl, rfl, alike.note _ _⟩, congrArg _⟩
  case waiting nonempty invoked =>
    have ⟨_, invoked', alike⟩ := alike.invoke invoked
    rw [(Rounds.waiting nonempty invoked').eq_pass]
    exact ⟨⟨rfl, rfl, alike.note _ _⟩, congrArg _⟩
  case failed nonempty invoked =>
    have ⟨_, invoked', alike⟩ := alike.invoke invoked
    rw [(Rounds.failed nonempty invoked').eq_pass]
    exact ⟨⟨rfl, rfl, alike⟩, fun _ => rfl⟩
  case faulted nonempty invoked =>
    have ⟨_, invoked', alike⟩ := alike.invoke invoked
    rw [(Rounds.faulted nonempty invoked').eq_pass]
    exact ⟨⟨rfl, rfl, alike⟩, fun _ => rfl⟩
  case stalled nonempty invoked isResult =>
    have ⟨_, invoked', alike⟩ := alike.invoke invoked
    rw [(Rounds.stalled nonempty invoked' isResult).eq_pass]
    exact ⟨⟨rfl, rfl, alike.note _ _⟩, fun h => h ▸ rfl⟩
  case refused nonempty invoked isResult progress dispatched =>
    have ⟨_, invoked', alike⟩ := alike.invoke invoked
    have ⟨_, dispatched', alike'⟩ := alike.dispatch dispatched
    rw [(Rounds.refused nonempty invoked' isResult progress (alike.context ▸ dispatched')).eq_pass]
    exact ⟨⟨rfl, rfl, alike'⟩, fun _ => rfl⟩
  case skipped nonempty invoked progress _ ih =>
    have ⟨_, invoked', alike⟩ := alike.invoke invoked
    rw [(Rounds.skipped nonempty invoked' progress (rounds_pass ..)).eq_pass]
    exact ih (alike.note _ _) _ _
  case dispatched consumed _ _ _ nonempty invoked isResult progress dispatched _ ih =>
    have ⟨_, invoked', alike⟩ := alike.invoke invoked
    have ⟨_, dispatched', alike'⟩ := alike.dispatch dispatched
    rw [(Rounds.dispatched nonempty invoked' isResult progress (alike.context ▸ dispatched')
      (rounds_pass ..)).eq_pass]
    have ⟨alike, outcome⟩ := ih alike' (position' + consumed) (results' + 1)
    exact ⟨alike, fun h => outcome (congrArg _ h)⟩

variable {ending : Outcome (DecodeError ε) Unit}

theorem Stage.Alike.conclude (alike : Stage.Alike focus stage stage')
    (h : decoder.conclude unread stage = (ending, after)) :
    ∃ after', decoder.conclude unread stage' = (ending, after') ∧
      Stage.Alike focus after after' := by
  rcases invoked : decoder.invoke true unread stage with ⟨outcome, consumed, next⟩
  obtain ⟨next', invoked', alike⟩ := alike.invoke invoked
  simp only [Decoder.conclude, invoked, invoked'] at h ⊢
  cases outcome
  case failed | faulted =>
    cases h
    exact ⟨_, rfl, alike⟩
  case done found =>
    let left (stage : Stage σ φ ε μ) : Stage σ φ ε μ :=
      if unread.length - consumed = 0 then stage
      else stage.note (.leftoverDiscarded (unread.length - consumed))
    have alike : Stage.Alike focus (left next) (left next') := by
      simp only [left]
      split
      case isTrue  => exact alike
      case isFalse => exact alike.note _ _
    cases isResult : found.isResult <;> simp only [isResult] at h ⊢
    case false =>
      cases h
      exact ⟨_, rfl, alike⟩
    case true =>
      rcases dispatched : decoder.dispatch found none (left next) with ⟨fault, final⟩
      obtain ⟨_, dispatched', alike⟩ := alike.dispatch dispatched
      simp only [left] at dispatched dispatched'
      simp only [dispatched, dispatched', if_true] at h ⊢
      cases fault <;> cases h <;> exact ⟨_, rfl, alike⟩

-- Neither the source of the last chunk nor the position of the unread bytes has a say in the end.
theorem Stage.Alike.flush {position : Nat} (position' : Nat)
    (alike : Stage.Alike focus stage.beginEnding stage'.beginEnding)
    (h : decoder.flush unread position stage = (ending, after)) :
    ∃ after', decoder.flush unread position' stage' = (ending, after') ∧
      Stage.Alike focus after after' := by
  have alike := alike.note (.ending unread.length) (.ending unread.length)
  simp only [Decoder.flush] at h ⊢
  split at h
  case isTrue empty =>
    rw [if_pos empty]
    exact alike.conclude h
  case isFalse nonempty =>
    rw [if_neg nonempty]
    have ⟨pass, outcome⟩ := (decoder.rounds_pass unread position 0 _).alike alike position' 0
    rw [← outcome rfl, ← pass.unread]
    split at h
    case h_1    => exact pass.stage.conclude h
    case h_2 | h_3 =>
      cases h
      exact ⟨_, rfl, pass.stage⟩

-- Calls that come out the same and lead to stages that are alike.
structure Concur (focus : Trace.Focus φ ε μ)
    (result result' : Outcome (DecodeError ε) Unit × State σ φ ε μ) : Prop where
  outcome : result.1 = result'.1
  stage   : Stage.Alike focus result.2.toStage result'.2.toStage

namespace Concur

variable {result result' : Outcome (DecodeError ε) Unit × State σ φ ε μ}

theorem recorded (concur : Concur focus result result') :
    Concur focus (Decoder.recorded result) (Decoder.recorded result') := by
  have ⟨outcome, stage⟩ := concur
  simp only [Decoder.recorded, ← outcome]
  split
  case h_1 => exact ⟨rfl, (stage.note _ _).act rfl⟩
  case h_2 => exact ⟨outcome, stage⟩

theorem forward (concur : Concur focus result result') (signal : EndSignal) :
    Concur focus (decoder.forward signal result) (decoder.forward signal result') := by
  have ⟨outcome, stage⟩ := concur
  rcases handed : decoder.hand (.ended signal) result.2.toStage with ⟨fault, after⟩
  have ⟨_, handed', stage⟩ := stage.hand handed
  simp only [Decoder.forward, handed, handed']
  cases fault
  case none => exact ⟨outcome, stage⟩
  case some => exact ⟨by simp [outcome], stage⟩

end Concur

-- The end of a stream is the same for all decoders that have the same bytes left.
theorem finish_concur {state state' : State σ φ ε μ} (signal : EndSignal)
    (alike : Stage.Alike focus state.beginEnding state'.beginEnding)
    (unread : state.retention.unread = state'.retention.unread)
    (runs : state.ended = false) (runs' : state'.ended = false) :
    Concur focus (decoder.finish signal state) (decoder.finish signal state') := by
  rcases flushed : decoder.flush state.retention.unread
    (state.retention.buffer.elim 0 Buffer.consumed) state.toStage with ⟨outcome, stage⟩
  have ⟨stage', flushed', alike⟩ :=
    alike.flush (state'.retention.buffer.elim 0 Buffer.consumed) flushed
  simp only [finish, runs, runs', ← unread, flushed, flushed']
  have : Concur focus
      (outcome, { toStage := stage, retention := state.retention.release, ended := true })
      (outcome, { toStage := stage', retention := state'.retention.release, ended := true }) :=
    ⟨rfl, alike⟩
  exact this.recorded.forward signal

end Decoder
end Framing
