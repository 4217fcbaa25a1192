import Framing.Proofs.Ending
import Framing.Proofs.Run

/-!
Decoders side by side. Where the steps that passes and ends are made of come out the same in two
decoders, so does everything that they are called with.
-/

namespace Framing.Decoder

variable {σ φ ε μ : Type}

-- Each step of one decoder comes out like that of the other, in any two stages that match, and leads
-- to two that match again.
structure Simulates (decoder decoder' : Decoder σ φ ε μ)
    (Matches : Stage σ φ ε μ → Stage σ φ ε μ → Prop) : Prop where
  allocator   : decoder.allocator = decoder'.allocator
  context     : ∀ {stage stage'}, Matches stage stage' → stage.context = stage'.context
  act         : ∀ {stage stage'}, Matches stage stage' → ∀ activities : List Activity,
    Matches (stage.act activities) (stage'.act activities)
  hearing     : ∀ {stage stage'}, Matches stage stage' → ∀ source : Source,
    Matches (stage.hearing source) (stage'.hearing source)
  beginEnding : ∀ {stage stage'}, Matches stage stage' →
    Matches stage.beginEnding stage'.beginEnding
  invoke      : ∀ {stage stage'}, Matches stage stage' → ∀ last unread,
    ∃ outcome consumed after after', decoder.invoke last unread stage = (outcome, consumed, after) ∧
      decoder'.invoke last unread stage' = (outcome, consumed, after') ∧ Matches after after'
  dispatch    : ∀ {stage stage'}, Matches stage stage' → ∀ found source,
    ∃ fault after after', decoder.dispatch found source stage = (fault, after) ∧
      decoder'.dispatch found source stage' = (fault, after') ∧ Matches after after'
  hand        : ∀ {stage stage'}, Matches stage stage' → ∀ event, event.isDecoded = false →
    ∃ fault after after', decoder.hand event stage = (fault, after) ∧
      decoder'.hand event stage' = (fault, after') ∧ Matches after after'

-- Passes that come out the same, and come equally far.
structure Pass.Match (Matches : Stage σ φ ε μ → Stage σ φ ε μ → Prop)
    (pass pass' : Pass σ φ ε μ) : Prop where
  outcome  : pass.outcome = pass'.outcome
  position : pass.position = pass'.position
  unread   : pass.unread = pass'.unread
  stage    : Matches pass.stage pass'.stage

-- States that match retain the same.
structure State.Match (Matches : Stage σ φ ε μ → Stage σ φ ε μ → Prop)
    (state state' : State σ φ ε μ) : Prop where
  stage     : Matches state.toStage state'.toStage
  retention : state.retention = state'.retention
  ended     : state.ended = state'.ended

-- Calls that come out the same.
structure Matched {α : Type} (Matches : Stage σ φ ε μ → Stage σ φ ε μ → Prop)
    (result result' : α × State σ φ ε μ) : Prop where
  outcome : result.1 = result'.1
  state   : State.Match Matches result.2 result'.2

namespace Simulates

variable {decoder decoder' : Decoder σ φ ε μ} {Matches : Stage σ φ ε μ → Stage σ φ ε μ → Prop}
variable (simulates : decoder.Simulates decoder' Matches)
include simulates

section Stages

variable {stage stage' : Stage σ φ ε μ}

theorem note (matched : Matches stage stage') (notice : Notice) :
    Matches (stage.note notice) (stage'.note notice) :=
  simulates.act matched _

-- By induction on the rounds of one pass, which are those of the other.
theorem rounds {unread : Bytes} {position results : Nat} {pass : Pass σ φ ε μ}
    (rounds : decoder.Rounds unread position results stage pass) (matched : Matches stage stage') :
    Pass.Match Matches pass (decoder'.pass unread position results stage') := by
  have invoke {unread outcome consumed} {stage stage' after : Stage σ φ ε μ}
      (matched : Matches stage stage')
      (invoked : decoder.invoke false unread stage = (outcome, consumed, after)) :
      ∃ after', decoder'.invoke false unread stage' = (outcome, consumed, after') ∧
        Matches after after' := by
    have ⟨_, _, _, after', same, invoked', matched⟩ := simulates.invoke matched false unread
    cases invoked.symm.trans same
    exact ⟨after', invoked', matched⟩
  have dispatch {found source fault} {stage stage' after : Stage σ φ ε μ}
      (matched : Matches stage stage')
      (dispatched : decoder.dispatch found source stage = (fault, after)) :
      ∃ after', decoder'.dispatch found source stage' = (fault, after') ∧ Matches after after' := by
    have ⟨_, _, after', same, dispatched', matched⟩ := simulates.dispatch matched found source
    cases dispatched.symm.trans same
    exact ⟨after', dispatched', matched⟩
  induction rounds generalizing stage'
  case exhausted =>
    rw [Rounds.exhausted.eq_pass]
    exact ⟨rfl, rfl, rfl, simulates.note matched _⟩
  case waiting nonempty invoked =>
    have ⟨_, invoked', matched⟩ := invoke matched invoked
    rw [(Rounds.waiting nonempty invoked').eq_pass]
    exact ⟨rfl, rfl, rfl, simulates.note matched _⟩
  case failed nonempty invoked =>
    have ⟨_, invoked', matched⟩ := invoke matched invoked
    rw [(Rounds.failed nonempty invoked').eq_pass]
    exact ⟨rfl, rfl, rfl, matched⟩
  case faulted nonempty invoked =>
    have ⟨_, invoked', matched⟩ := invoke matched invoked
    rw [(Rounds.faulted nonempty invoked').eq_pass]
    exact ⟨rfl, rfl, rfl, matched⟩
  case stalled nonempty invoked isResult =>
    have ⟨_, invoked', matched⟩ := invoke matched invoked
    rw [(Rounds.stalled nonempty invoked' isResult).eq_pass]
    exact ⟨rfl, rfl, rfl, simulates.note matched _⟩
  case refused nonempty invoked isResult progress dispatched =>
    have ⟨_, invoked', matched⟩ := invoke matched invoked
    have ⟨_, dispatched', matched'⟩ := dispatch matched dispatched
    rw [simulates.context matched] at dispatched'
    rw [(Rounds.refused nonempty invoked' isResult progress dispatched').eq_pass]
    exact ⟨rfl, rfl, rfl, matched'⟩
  case skipped nonempty invoked progress _ ih =>
    have ⟨_, invoked', matched⟩ := invoke matched invoked
    rw [(Rounds.skipped nonempty invoked' progress (rounds_pass ..)).eq_pass]
    exact ih (simulates.note matched _)
  case dispatched nonempty invoked isResult progress dispatched _ ih =>
    have ⟨_, invoked', matched⟩ := invoke matched invoked
    have ⟨_, dispatched', matched'⟩ := dispatch matched dispatched
    rw [simulates.context matched] at dispatched'
    rw [(Rounds.dispatched nonempty invoked' isResult progress dispatched' (rounds_pass ..)).eq_pass]
    exact ih matched'

variable (matched : Matches stage stage')
include matched

theorem pass (unread : Bytes) (position : Nat) :
    Pass.Match Matches (decoder.pass unread position 0 stage)
      (decoder'.pass unread position 0 stage') :=
  simulates.rounds (decoder.rounds_pass ..) matched

theorem conclude (unread : Bytes) :
    (decoder.conclude unread stage).1 = (decoder'.conclude unread stage').1 ∧
      Matches (decoder.conclude unread stage).2 (decoder'.conclude unread stage').2 := by
  obtain ⟨outcome, consumed, _, _, invoked, invoked', matched⟩ :=
    simulates.invoke matched true unread
  cases outcome
  case failed | faulted =>
    simp only [Decoder.conclude, invoked, invoked']
    exact ⟨trivial, matched⟩
  case done found =>
    have matched := simulates.act matched (Decoder.discarding (unread.length - consumed))
    simp only [Decoder.conclude_of_done invoked, Decoder.conclude_of_done invoked']
    cases found.isResult
    case false => exact ⟨rfl, matched⟩
    case true  =>
      obtain ⟨_, _, _, dispatched, dispatched', matched⟩ := simulates.dispatch matched found none
      simp only [dispatched, dispatched', if_true]
      exact ⟨trivial, matched⟩

theorem flush (unread : Bytes) (position : Nat) :
    (decoder.flush unread position stage).1 = (decoder'.flush unread position stage').1 ∧
      Matches (decoder.flush unread position stage).2
        (decoder'.flush unread position stage').2 := by
  have begun := simulates.note (simulates.beginEnding matched) (.ending unread.length)
  simp only [Decoder.flush]
  split
  case isTrue  => exact simulates.conclude begun unread
  case isFalse =>
    obtain ⟨outcome, _, left, passed⟩ := simulates.pass begun unread position
    rw [← outcome, ← left]
    split
    case h_1       => exact simulates.conclude passed _
    case h_2 | h_3 => exact ⟨rfl, passed⟩

end Stages

section Results

variable {result result' : Outcome (DecodeError ε) Unit × State σ φ ε μ}
variable (matched : Matched Matches result result')
include matched

theorem recorded : Matched Matches (Decoder.recorded result) (Decoder.recorded result') := by
  have ⟨outcome, stage, retention, ended⟩ := matched
  simp only [Decoder.recorded, ← outcome]
  split
  case h_1 =>
    simp only [State.recordFailure, ← retention, ← simulates.context stage]
    exact ⟨rfl, simulates.act (simulates.note stage _) _, rfl, ended⟩
  case h_2 => exact ⟨outcome, stage, retention, ended⟩

theorem forward (signal : EndSignal) :
    Matched Matches (decoder.forward signal result) (decoder'.forward signal result') := by
  have ⟨outcome, stage, retention, ended⟩ := matched
  obtain ⟨fault, _, _, handed, handed', stage⟩ := simulates.hand stage (.ended signal) rfl
  cases fault <;>
    simp only [Decoder.forward, handed, handed', ← outcome]
  case none => exact ⟨rfl, stage, retention, ended⟩
  case some => exact ⟨rfl, stage, retention, ended⟩

end Results

section States

variable {state state' : State σ φ ε μ} (matched : State.Match Matches state state')
include matched

-- Calls that do no more than write a notice.
theorem noted (notice : Notice) : Matched Matches
    ((.done (), state.note notice) : Outcome (DecodeError ε) Unit × State σ φ ε μ)
    (.done (), state'.note notice) :=
  ⟨rfl, { matched with stage := simulates.note matched.stage _ }⟩

theorem retain (step : Retention × List Activity) :
    State.Match Matches (state.retain step) (state'.retain step) :=
  { matched with stage := simulates.act matched.stage _, retention := rfl }

theorem feedDirect (chunk : Bytes) :
    Matched Matches (decoder.feedDirect chunk state) (decoder'.feedDirect chunk state') := by
  have ⟨outcome, _, unread, passed⟩ := simulates.pass matched.stage chunk 0
  simp only [Decoder.feedDirect, State.retain, ← outcome, ← unread, ← matched.retention,
    ← simulates.allocator]
  split
  case isTrue  => exact ⟨rfl, simulates.act passed _, rfl, matched.ended⟩
  case isFalse => exact ⟨rfl, passed, rfl, matched.ended⟩

theorem feedAppended (chunk : Bytes) :
    Matched Matches (decoder.feedAppended chunk state) (decoder'.feedAppended chunk state') := by
  have merged := simulates.retain matched (state.retention.append decoder.allocator chunk).2
  rw [Decoder.feedAppended, Decoder.feedAppended, ← matched.retention, ← simulates.allocator]
  generalize state.retain _ = merge, state'.retain _ = merge' at merged
  obtain ⟨stage, retention, ended⟩ := merge
  obtain ⟨stage', _, _⟩ := merge'
  obtain ⟨stages, rfl, rfl⟩ := merged
  dsimp only at stages ⊢
  split
  case h_1 => exact ⟨rfl, stages, rfl, rfl⟩
  case h_2 buffer _ =>
    obtain ⟨outcome, position, _, passed⟩ := simulates.pass stages buffer.unread buffer.consumed
    rw [← outcome, ← position]
    split
    case isTrue  => exact ⟨rfl, simulates.act passed _, rfl, rfl⟩
    case isFalse => exact ⟨rfl, passed, rfl, rfl⟩

theorem feed (chunk : Bytes) (source : Source) :
    Matched Matches (decoder.feed chunk source state) (decoder'.feed chunk source state') := by
  rcases state with ⟨stage, retention, ended⟩
  rcases state' with ⟨stage', _, _⟩
  obtain ⟨stages, rfl, rfl⟩ := matched
  have heard : State.Match Matches ⟨stage.hearing source, retention, ended⟩
    ⟨stage'.hearing source, retention, ended⟩ := ⟨simulates.hearing stages source, rfl, rfl⟩
  rw [Decoder.feed, Decoder.feed]
  dsimp only
  split
  case isTrue => exact ⟨rfl, simulates.note stages _, rfl, rfl⟩
  split
  case isTrue => exact ⟨rfl, simulates.note stages _, rfl, rfl⟩
  split
  case isTrue  => exact simulates.recorded (simulates.feedAppended heard chunk)
  case isFalse => exact simulates.recorded (simulates.feedDirect heard chunk)

variable (signal : EndSignal)

theorem finish :
    Matched Matches (decoder.finish signal state) (decoder'.finish signal state') := by
  rcases state with ⟨stage, retention, ended⟩
  rcases state' with ⟨stage', _, _⟩
  obtain ⟨stages, rfl, rfl⟩ := matched
  rw [Decoder.finish, Decoder.finish]
  dsimp only
  split
  case isTrue =>
    have same : State.Match Matches ⟨stage, retention, ended⟩ ⟨stage', retention, ended⟩ :=
      ⟨stages, rfl, rfl⟩
    exact simulates.forward (simulates.noted same (.endedBefore signal)) signal
  case isFalse =>
    obtain ⟨outcome, left⟩ := simulates.flush stages retention.unread
      (retention.buffer.elim 0 Buffer.consumed)
    have closed : State.Match Matches ⟨_, retention.release, true⟩ ⟨_, retention.release, true⟩ :=
      ⟨left, rfl, rfl⟩
    have flushed : Matched Matches (_, _) (_, _) := ⟨outcome, closed⟩
    exact simulates.forward (simulates.recorded flushed) signal

theorem abort :
    Matched Matches (decoder.abort signal state) (decoder'.abort signal state') := by
  rcases state with ⟨stage, retention, ended⟩
  rcases state' with ⟨stage', _, _⟩
  obtain ⟨stages, rfl, rfl⟩ := matched
  let discarded := if ended then 0 else retention.unread.length
  let left      := if ended then retention else retention.release
  have closed : State.Match Matches ⟨stage, left, true⟩ ⟨stage', left, true⟩ := ⟨stages, rfl, rfl⟩
  have ⟨outcome, forwarded⟩ :=
    simulates.forward (simulates.noted closed (.aborted discarded signal)) signal
  exact ⟨congrArg (Outcome.map fun _ => discarded) outcome, forwarded⟩

end States

variable {state state' : State σ φ ε μ} (matched : State.Match Matches state state')
include matched

theorem perform (call : Call μ) :
    Matched Matches (decoder.perform call state) (decoder'.perform call state') := by
  have unit {result result' : Outcome (DecodeError ε) Unit × State σ φ ε μ}
      (matched : Matched Matches result result') :
      Matched Matches (result.map perform.unit id) (result'.map perform.unit id) :=
    ⟨congrArg perform.unit matched.outcome, matched.state⟩
  rcases call with (⟨chunk, source⟩ | content | signal) | ⟨chunk, source⟩ | signal | signal
  case receive.chunk | feed   => exact unit (simulates.feed matched chunk source)
  case receive.ended | finish => exact unit (simulates.finish matched signal)
  case receive.message        =>
    have ⟨_, _, _, handed, handed', stage⟩ := simulates.hand matched.stage (.message content) rfl
    simp only [Decoder.perform, receive, handed, handed']
    exact ⟨rfl, { matched with stage }⟩
  case abort =>
    have ⟨outcome, state⟩ := simulates.abort matched signal
    exact ⟨congrArg (Outcome.map Reply.discarded) outcome, state⟩

theorem run (calls : List (Call μ)) :
    Matched Matches (decoder.run calls state) (decoder'.run calls state') := by
  induction calls generalizing state state'
  case nil => exact ⟨rfl, matched⟩
  case cons call calls ih =>
    have ⟨outcome, matched⟩  := simulates.perform matched call
    have ⟨outcomes, matched⟩ := ih matched
    exact ⟨List.cons_eq_cons.mpr ⟨outcome, outcomes⟩, matched⟩

end Simulates
end Framing.Decoder
