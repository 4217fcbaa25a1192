import Framing.Proofs.Ending
import Framing.Proofs.Likeness
import Framing.Proofs.Run

/-!
Where buffers come from makes no difference. Decoders that differ in their allocators only show the
same bytes to the strategy, hand over the same events and retain the same bytes, whatever fails.
-/

namespace Framing

variable {σ φ ε μ : Type}

-- Looks at everything but the logs and what is done about memory.
def Trace.Focus.dealings : Trace.Focus φ ε μ where
  includes
    | .activity activity => !activity.isUpkeep
    | _                  => true
  includes_upkeep _ upkeep := by simp [upkeep]

-- What passed between a decoder and its strategy and receiver, in order: what each invocation was
-- told and shown and what it answered, what became of each event, and what was counted of that.
def Trace.dealings (trace : Trace φ ε μ) : List (Trace.Entry φ ε μ) :=
  trace.toList.filter Trace.Focus.dealings.includes

namespace Decoder

-- The decoder with another allocator.
def allocating (decoder : Decoder σ φ ε μ) (allocator : Allocator) : Decoder σ φ ε μ :=
  { decoder with allocator }

variable {decoder : Decoder σ φ ε μ} {allocator : Allocator}

section Allocating

theorem handAll_allocating (events : List (Event φ μ)) (stage : Stage σ φ ε μ) :
    (decoder.allocating allocator).handAll events stage = decoder.handAll events stage := by
  induction events generalizing stage
  case nil => rfl
  case cons event events ih =>
    simp only [handAll, ih]
    rfl

theorem dispatch_allocating (found : Found φ) (source : Source) (stage : Stage σ φ ε μ) :
    (decoder.allocating allocator).dispatch found source stage =
      decoder.dispatch found source stage := by
  simp only [dispatch, handAll_allocating]
  rfl

theorem Rounds.allocating {unread : Bytes} {position results : Nat} {stage : Stage σ φ ε μ}
    {pass : Pass σ φ ε μ} (rounds : decoder.Rounds unread position results stage pass) :
    (decoder.allocating allocator).Rounds unread position results stage pass := by
  induction rounds
  case exhausted                  => exact .exhausted
  case waiting ne h               => exact .waiting ne h
  case failed ne h                => exact .failed ne h
  case faulted ne h               => exact .faulted ne h
  case stalled ne h isResult      => exact .stalled ne h isResult
  case skipped ne h progress _ ih => exact .skipped ne h progress ih
  case refused ne h isResult progress d =>
    exact .refused ne h isResult progress ((dispatch_allocating ..).trans d)
  case dispatched ne h isResult progress d _ ih =>
    exact .dispatched ne h isResult progress ((dispatch_allocating ..).trans d) ih

theorem pass_allocating (unread : Bytes) (position results : Nat) (stage : Stage σ φ ε μ) :
    (decoder.allocating allocator).pass unread position results stage =
      decoder.pass unread position results stage :=
  (decoder.rounds_pass unread position results stage).allocating.eq_pass

theorem conclude_allocating (unread : Bytes) (stage : Stage σ φ ε μ) :
    (decoder.allocating allocator).conclude unread stage = decoder.conclude unread stage := by
  simp only [conclude, dispatch_allocating]
  rfl

theorem flush_allocating (unread : Bytes) (position : Nat) (stage : Stage σ φ ε μ) :
    (decoder.allocating allocator).flush unread position stage =
      decoder.flush unread position stage := by
  simp only [flush, conclude_allocating, pass_allocating]

-- Ending a stream takes no memory.
theorem finish_allocating (signal : EndSignal) (state : State σ φ ε μ) :
    (decoder.allocating allocator).finish signal state = decoder.finish signal state := by
  simp only [finish, flush_allocating]
  rfl

end Allocating
variable {focus : Trace.Focus φ ε μ} {state state' : State σ φ ε μ}

-- Chunks that bring the same bytes before the strategy come to the same.
theorem Fed.concur {chunk chunk' : Bytes} {source : Source} {pass pass' : Pass σ φ ε μ}
    {result result' : Outcome (DecodeError ε) Unit × State σ φ ε μ}
    (fed : decoder.Fed chunk source state pass result)
    (fed' : (decoder.allocating allocator).Fed chunk' source state' pass' result')
    (bytes : state.retention.unread ++ chunk = state'.retention.unread ++ chunk')
    (alike : Stage.Alike focus state.toStage state'.toStage) :
    Concur focus result result' ∧ pass.outcome = pass'.outcome ∧ pass.unread = pass'.unread := by
  have ⟨_, _, _, rounds, settled, merging, settling⟩ := fed.course
  have ⟨position, _, _, rounds', settled', merging', settling'⟩ := fed'.course
  have ⟨same, outcome⟩ :=
    rounds.alike ((alike.hearing source).act (merging.trans merging'.symm)) position 0
  rw [bytes, ← pass_allocating, rounds'.eq_pass] at same outcome
  refine ⟨⟨?_, ?_⟩, outcome rfl, same.unread⟩
  · rw [fed.outcome, fed'.outcome, outcome rfl]
  · rw [settled, settled']
    exact same.stage.act (by rw [settling, settling', outcome rfl])

-- The same bytes are retained, each time in a buffer within its bounds.
structure State.Alike (focus : Trace.Focus φ ε μ) (state state' : State σ φ ε μ) : Prop where
  stage   : Stage.Alike focus state.toStage state'.toStage
  unread  : state.retention.unread = state'.retention.unread
  present : state.retention.isPresent = state'.retention.isPresent
  ended   : state.ended = state'.ended
  sound   : state.retention.Sound
  sound'  : state'.retention.Sound

namespace State.Alike

theorem initial (start : σ) :
    Alike focus (.initial start : State σ φ ε μ) (.initial start) where
  stage   := .refl _
  unread  := rfl
  present := rfl
  ended   := rfl
  sound   := Retention.initial_rests.sound
  sound'  := Retention.initial_rests.sound

theorem note (alike : Alike focus state state') (notice notice' : Notice) :
    Alike focus (state.note notice) (state'.note notice') :=
  { alike with stage := alike.stage.note _ _ }

-- Where nothing is retained any more, the stages are all there is.
theorem of_released (stage : Stage.Alike focus state.toStage state'.toStage)
    (released : state.retention.buffer = none) (released' : state'.retention.buffer = none)
    (ended : state.ended = state'.ended) : Alike focus state state' where
  stage   := stage
  unread  := by simp [Retention.unread, released, released']
  present := by simp [Retention.isPresent, released, released']
  ended   := ended
  sound   := by simp [Retention.Sound, released]
  sound'  := by simp [Retention.Sound, released']

variable (decoder allocator)

theorem feed (alike : Alike focus state state') (chunk : Bytes) (source : Source) :
    (decoder.feed chunk source state).1 =
        ((decoder.allocating allocator).feed chunk source state').1 ∧
      Alike focus (decoder.feed chunk source state).2
        ((decoder.allocating allocator).feed chunk source state').2 := by
  by_cases nonempty : chunk = []
  case pos =>
    subst nonempty
    exact ⟨rfl, alike.note _ _⟩
  cases ended : state.ended
  case true =>
    have ⟨notice, eq⟩   := decoder.feed_of_ended ended chunk source
    have ⟨notice', eq'⟩ :=
      (decoder.allocating allocator).feed_of_ended (alike.ended.symm.trans ended) chunk source
    rw [eq, eq']
    exact ⟨rfl, alike.note _ _⟩
  case false =>
    have ⟨pass, fed⟩   := decoder.feed_fed nonempty source ended alike.sound
    have ⟨pass', fed'⟩ := (decoder.allocating allocator).feed_fed nonempty source
      (alike.ended.symm.trans ended) alike.sound'
    have ⟨concur, outcome, unread⟩ :=
      fed.concur fed' (congrArg (· ++ chunk) alike.unread) alike.stage
    refine ⟨concur.outcome, concur.stage, ?_, ?_, fed.ended.trans fed'.ended.symm, fed.sound,
      fed'.sound⟩
    all_goals
      cases returns : pass.outcome.returns
      case true =>
        have rests  := fed.rests returns
        have rests' := fed'.rests (outcome ▸ returns)
        simp [rests.unread_eq, rests'.unread_eq, rests.isPresent_eq, rests'.isPresent_eq, unread]
      case false =>
        have left  := fed.survives returns
        have left' := fed'.survives (outcome ▸ returns)
        simp [left.unread_eq, left'.unread_eq, left.isPresent_eq, left'.isPresent_eq, unread,
          alike.present]

theorem forward (alike : Alike focus state state') (signal : EndSignal)
    (outcome : Outcome (DecodeError ε) Unit) :
    (decoder.forward signal (outcome, state)).1 = (decoder.forward signal (outcome, state')).1 ∧
      Alike focus (decoder.forward signal (outcome, state)).2
        (decoder.forward signal (outcome, state')).2 := by
  have concur : Concur focus (outcome, state) (outcome, state') := ⟨rfl, alike.stage⟩
  have ⟨same, stage⟩ : Concur focus (decoder.forward signal (outcome, state))
    (decoder.forward signal (outcome, state')) := concur.forward signal
  refine ⟨same, stage, ?_, ?_, ?_, ?_, ?_⟩ <;> simp only [forward_retention, forward_ended]
  case refine_1 => exact alike.unread
  case refine_2 => exact alike.present
  case refine_3 => exact alike.ended
  case refine_4 => exact alike.sound
  case refine_5 => exact alike.sound'

theorem finish (alike : Alike focus state state') (signal : EndSignal) :
    (decoder.finish signal state).1 = (decoder.finish signal state').1 ∧
      Alike focus (decoder.finish signal state).2 (decoder.finish signal state').2 := by
  cases ended : state.ended
  case true =>
    rw [finish_of_ended ended, finish_of_ended (alike.ended.symm.trans ended)]
    exact (alike.note _ _).forward decoder signal _
  case false =>
    have runs' := alike.ended.symm.trans ended
    have begun : Stage.Alike focus state.beginEnding state'.beginEnding :=
      (alike.stage.hearing none).beginEnding
    have ⟨outcome, stage⟩ : Concur focus (decoder.finish signal state)
      (decoder.finish signal state') := finish_concur signal begun alike.unread ended runs'
    exact ⟨outcome, .of_released stage (finish_releases signal state ended)
      (finish_releases signal state' runs') (by simp)⟩

theorem abort (alike : Alike focus state state') (signal : EndSignal) :
    (decoder.abort signal state).1 = (decoder.abort signal state').1 ∧
      Alike focus (decoder.abort signal state).2 (decoder.abort signal state').2 := by
  cases ended : state.ended
  case true =>
    have noted := alike.note (.aborted 0 signal) (.aborted 0 signal)
    have ⟨outcome, alike'⟩ := noted.forward decoder signal (.done ())
    rw [abort_of_ended ended, abort_of_ended (alike.ended.symm.trans ended)]
    exact ⟨congrArg (Outcome.map fun _ => 0) outcome, alike'⟩
  case false =>
    let count := state.retention.unread.length
    have closed : Alike focus
        { state with retention := state.retention.release, ended := true }
        { state' with retention := state'.retention.release, ended := true } :=
      .of_released alike.stage rfl rfl rfl
    have noted := closed.note (.aborted count signal) (.aborted count signal)
    have ⟨outcome, alike'⟩ := noted.forward decoder signal (.done ())
    rw [abort_of_runs ended, abort_of_runs (alike.ended.symm.trans ended), ← alike.unread]
    exact ⟨congrArg (Outcome.map fun _ => count) outcome, alike'⟩

theorem perform (alike : Alike focus state state') (call : Call μ) :
    (decoder.perform call state).1 = ((decoder.allocating allocator).perform call state').1 ∧
      Alike focus (decoder.perform call state).2
        ((decoder.allocating allocator).perform call state').2 := by
  have fed (chunk : Bytes) (source : Source) :
      (decoder.perform (.feed chunk source) state).1 =
          ((decoder.allocating allocator).perform (.feed chunk source) state').1 ∧
        Alike focus (decoder.perform (.feed chunk source) state).2
          ((decoder.allocating allocator).perform (.feed chunk source) state').2 :=
    have ⟨outcome, alike⟩ := alike.feed decoder allocator chunk source
    ⟨congrArg perform.unit outcome, alike⟩
  have finished (signal : EndSignal) :
      (decoder.perform (.finish signal) state).1 =
          ((decoder.allocating allocator).perform (.finish signal) state').1 ∧
        Alike focus (decoder.perform (.finish signal) state).2
          ((decoder.allocating allocator).perform (.finish signal) state').2 := by
    have ⟨outcome, alike⟩ := alike.finish decoder signal
    simp only [Decoder.perform, finish_allocating]
    exact ⟨congrArg perform.unit outcome, alike⟩
  rcases call with (⟨chunk, source⟩ | content | signal) | ⟨chunk, source⟩ | signal | signal
  case receive.chunk | feed   => exact fed chunk source
  case receive.ended | finish => exact finished signal
  case receive.message =>
    rcases handed : decoder.hand (.message content) state.toStage with ⟨fault, after⟩
    have ⟨_, handed', stage⟩ := alike.stage.hand handed
    have handed' : (decoder.allocating allocator).hand _ state'.toStage = _ := handed'
    simp only [Decoder.perform, receive, handed, handed']
    exact ⟨rfl, { alike with stage }⟩
  case abort =>
    have ⟨outcome, alike⟩ := alike.abort decoder signal
    exact ⟨congrArg (Outcome.map Reply.discarded) outcome, alike⟩

theorem run (alike : Alike focus state state') (calls : List (Call μ)) :
    (decoder.run calls state).1 = ((decoder.allocating allocator).run calls state').1 ∧
      Alike focus (decoder.run calls state).2
        ((decoder.allocating allocator).run calls state').2 := by
  induction calls generalizing state state'
  case nil => exact ⟨rfl, alike⟩
  case cons call calls ih =>
    have ⟨outcome, alike⟩ := alike.perform decoder allocator call
    have ⟨outcomes, alike⟩ := ih alike
    exact ⟨List.cons_eq_cons.mpr ⟨outcome, outcomes⟩, alike⟩

end State.Alike

-- A call keeps buffers within their bounds, whatever fails.
theorem perform_sound (decoder : Decoder σ φ ε μ) (call : Call μ) (sound : state.retention.Sound) :
    (decoder.perform call state).2.retention.Sound := by
  have alike : State.Alike .dealings state state := ⟨.refl _, rfl, rfl, rfl, sound, sound⟩
  exact (alike.perform decoder decoder.allocator call).2.sound

-- Whatever is called, and whatever fails, buffers stay within their bounds.
theorem run_sound (decoder : Decoder σ φ ε μ) (start : σ) (calls : List (Call μ)) :
    (decoder.run calls (.initial start)).2.retention.Sound := by
  let begun : State σ φ ε μ := .initial start
  have alike : State.Alike .dealings begun begun := .initial start
  exact (alike.run decoder decoder.allocator calls).2.sound

-- As the calls so far are a run, too, what is said of the last state holds after every call.
theorem run_allocating (decoder : Decoder σ φ ε μ) (allocator allocator' : Allocator) (start : σ)
    (calls : List (Call μ)) :
    let run  := (decoder.allocating allocator).run calls (.initial start)
    let run' := (decoder.allocating allocator').run calls (.initial start)
    run.1 = run'.1 ∧ run.2.trace.dealings = run'.2.trace.dealings ∧
    run.2.retention.unread = run'.2.retention.unread ∧
    run.2.retention.isPresent = run'.2.retention.isPresent ∧
    run.2.context = run'.2.context ∧ run.2.ended = run'.2.ended := by
  let begun : State σ φ ε μ := .initial start
  have alike : State.Alike .dealings begun begun := .initial start
  have ⟨outcomes, alike⟩ := alike.run (decoder.allocating allocator) allocator' calls
  exact ⟨outcomes, alike.stage.trace, alike.unread, alike.present, alike.stage.context, alike.ended⟩

end Decoder
end Framing
