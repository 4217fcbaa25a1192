import Framing.Decoder.Feeding
import Framing.Proofs.Appending
import Framing.Proofs.Rounds

/-!
Feeding a chunk is one pass over what was retained followed by the chunk, whichever way the chunk
takes to the strategy.
-/

namespace Framing

theorem Outcome.returns_map {ε α β : Type} (outcome : Outcome ε α) (f : α → β) :
    (outcome.map f).returns = outcome.returns := by
  cases outcome <;> rfl

theorem Outcome.eq_done_of_map {ε α β : Type} {outcome : Outcome ε α} {f : α → β} {value : β}
    (h : outcome.map f = .done value) : ∃ value, outcome = .done value := by
  cases outcome <;> cases h
  exact ⟨_, rfl⟩

theorem Outcome.eq_failed_of_map {ε α β : Type} {outcome : Outcome ε α} {f : α → β} {error : ε}
    (h : outcome.map f = .failed error) : outcome = .failed error := by
  cases outcome <;> cases h
  rfl

namespace Decoder

variable {σ φ ε μ : Type}

-- The stage in which a chunk from `source` is decoded.
def Stage.hearing (stage : Stage σ φ ε μ) (source : Source) : Stage σ φ ε μ :=
  { stage with context.source := source }

theorem Stage.hearing_eq {stage : Stage σ φ ε μ} {source : Source}
    (h : stage.context.source = source) : stage.hearing source = stage := by
  subst h
  rfl

variable (decoder : Decoder σ φ ε μ)

@[simp]
theorem recorded_fst (result : Outcome (DecodeError ε) Unit × State σ φ ε μ) :
    (recorded result).1 = result.1 := by
  simp only [recorded]
  split <;> rfl

@[simp]
theorem recorded_events (result : Outcome (DecodeError ε) Unit × State σ φ ε μ) :
    (recorded result).2.trace.events = result.2.trace.events := by
  simp only [recorded]
  split
  case h_1 => simp [State.recordFailure, Stage.note, Stage.count]
  case h_2 => rfl

@[simp]
theorem recorded_retention (result : Outcome (DecodeError ε) Unit × State σ φ ε μ) :
    (recorded result).2.retention = result.2.retention := by
  simp only [recorded]
  split <;> rfl

@[simp]
theorem recorded_ended (result : Outcome (DecodeError ε) Unit × State σ φ ε μ) :
    (recorded result).2.ended = result.2.ended := by
  simp only [recorded]
  split <;> rfl

-- The failure of a call, as it is counted.
def failures {α : Type} : Outcome (DecodeError ε) α → List Activity
  | .failed error => [.counted (.errors error.kind.name) 1]
  | _             => []

theorem failures_map {α β : Type} (outcome : Outcome (DecodeError ε) α) (f : α → β) :
    failures (outcome.map f) = failures outcome := by
  cases outcome <;> rfl

-- Putting a failure on record comes after everything else.
theorem recorded_stage (result : Outcome (DecodeError ε) Unit × State σ φ ε μ) :
    ∃ settling, (recorded result).2.toStage = result.2.toStage.act settling ∧
      Activity.tallies settling = failures result.1 := by
  rcases result with ⟨_ | error | _, state⟩
  case done | faulted => exact ⟨[], rfl, rfl⟩
  case failed         =>
    let notice := Notice.failed error.kind error.isDefect state.context.source
      state.retention.unread.length
    exact ⟨[.noted notice, .counted (.errors error.kind.name) 1], rfl, rfl⟩

-- How `chunk` was fed to a decoder whose stream goes on: `pass` went over the unread bytes, and what
-- it left unread is retained, unless it was cut short by a fault where there was no buffer before.
structure Fed (chunk : Bytes) (source : Source) (before : State σ φ ε μ) (pass : Pass σ φ ε μ)
    (result : Outcome (DecodeError ε) Unit × State σ φ ε μ) : Prop where
  course   : ∃ position merging settling, decoder.Rounds (before.retention.unread ++ chunk)
    position 0 ((before.toStage.hearing source).act merging) pass ∧
    result.2.toStage = pass.stage.act settling ∧
    Activity.tallies merging = [] ∧ Activity.tallies settling = failures pass.outcome
  outcome  : result.1 = pass.outcome.map fun _ => ()
  ended    : result.2.ended = false
  rests    : pass.outcome.returns → result.2.retention.Rests pass.unread
  survives : pass.outcome.returns = false →
    before.retention.Survives pass.unread result.2.retention

namespace Fed

variable {decoder} {chunk : Bytes} {source : Source} {before : State σ φ ε μ} {pass : Pass σ φ ε μ}
variable {result : Outcome (DecodeError ε) Unit × State σ φ ε μ}

theorem rounds (fed : decoder.Fed chunk source before pass result) :
    ∃ position merging, decoder.Rounds (before.retention.unread ++ chunk) position 0
      ((before.toStage.hearing source).act merging) pass :=
  have ⟨position, merging, _, rounds, _⟩ := fed.course
  ⟨position, merging, rounds⟩

theorem stage (fed : decoder.Fed chunk source before pass result) :
    ∃ settling, result.2.toStage = pass.stage.act settling :=
  have ⟨_, _, settling, _, stage, _⟩ := fed.course
  ⟨settling, stage⟩

-- A call invokes and hands over what its pass does.
theorem grows (fed : decoder.Fed chunk source before pass result) {merging : List Activity}
    {made : List (Trace.Invoked φ ε)} {handed : List (Event φ μ)}
    (grows : Stage.Grows made handed ((before.toStage.hearing source).act merging) pass.stage) :
    Stage.Grows made handed before.toStage result.2.toStage := by
  have ⟨settling, stage⟩ := fed.stage
  have ⟨invocations, events⟩ := grows
  constructor <;> simp_all [Stage.hearing]

theorem returns (fed : decoder.Fed chunk source before pass result) :
    result.1.returns = pass.outcome.returns := by
  rw [fed.outcome, Outcome.returns_map]

theorem sound (fed : decoder.Fed chunk source before pass result) : result.2.retention.Sound := by
  cases returns : pass.outcome.returns
  case true  => exact (fed.rests returns).sound
  case false => exact (fed.survives returns).sound

-- Only the failure has still to be put on record.
theorem of_unrecorded {position : Nat} {merging settling : List Activity}
    (rounds : decoder.Rounds (before.retention.unread ++ chunk) position 0
      ((before.toStage.hearing source).act merging) pass)
    (merged : Activity.tallies merging = [])
    (outcome : result.1 = pass.outcome.map fun _ => ())
    (stage : result.2.toStage = pass.stage.act settling)
    (settled : Activity.tallies settling = [])
    (ended : result.2.ended = false)
    (rests : pass.outcome.returns → result.2.retention.Rests pass.unread)
    (survives : pass.outcome.returns = false →
      before.retention.Survives pass.unread result.2.retention) :
    decoder.Fed chunk source before pass (recorded result) where
  course   := by
    have ⟨recording, stage', failed⟩ := recorded_stage result
    refine ⟨position, merging, settling ++ recording, rounds, ?_, merged, ?_⟩
    · rw [stage', stage, Stage.act_act]
    · rw [Activity.tallies_append, settled, failed, outcome, failures_map]
      rfl
  outcome  := by rw [recorded_fst, outcome]
  ended    := by rw [recorded_ended, ended]
  rests    := by rwa [recorded_retention]
  survives := by rwa [recorded_retention]

end Fed

theorem feedDirect_fed (chunk : Bytes) (source : Source) {state : State σ φ ε μ}
    (runs : state.ended = false) (absent : state.retention.buffer = none) :
    ∃ pass, decoder.Fed chunk source state pass
      (recorded (decoder.feedDirect chunk { state with context.source := source })) := by
  let stage := state.toStage.hearing source
  let pass := decoder.pass chunk 0 0 stage
  have rounds : decoder.Rounds (state.retention.unread ++ chunk) 0 0 (stage.act []) pass := by
    simpa [Retention.unread, absent] using decoder.rounds_pass chunk 0 0 stage
  have eq : decoder.feedDirect chunk { state with context.source := source } =
      if (pass.outcome.map fun _ => ()).returns then
        (pass.outcome.map fun _ => (), State.retain { state with toStage := pass.stage }
          (state.retention.keep decoder.allocator pass.unread))
      else
        (pass.outcome.map fun _ => (), { state with toStage := pass.stage }) := rfl
  rw [eq]
  refine ⟨pass, ?_⟩
  rw [Outcome.returns_map]
  split
  case isTrue returns =>
    exact .of_unrecorded rounds rfl rfl rfl (state.retention.keep_tallies _ _) runs
      (fun _ => state.retention.keep_rests _ _) (by simp [returns])
  case isFalse faulted =>
    exact .of_unrecorded rounds rfl rfl (Stage.act_nil _).symm rfl runs (absurd · faulted)
      (fun _ => .lost absent absent)

theorem feedAppended_fed {chunk : Bytes} (nonempty : chunk ≠ []) (source : Source)
    {state : State σ φ ε μ} (runs : state.ended = false) (sound : state.retention.Sound)
    (present : state.retention.buffer ≠ none) :
    ∃ pass, decoder.Fed chunk source state pass
      (recorded (decoder.feedAppended chunk { state with context.source := source })) := by
  have ⟨buffer, placed, sound', unread⟩ :=
    Retention.append_buffer decoder.allocator sound nonempty
  let appended := state.retention.append decoder.allocator chunk
  let stage := (state.toStage.hearing source).act appended.2.2
  let pass := decoder.pass buffer.unread buffer.consumed 0 stage
  have rounds : decoder.Rounds (state.retention.unread ++ chunk) buffer.consumed 0 stage pass := by
    rw [← unread]
    exact decoder.rounds_pass ..
  have eq : decoder.feedAppended chunk { state with context.source := source } =
      let left : Retention := { appended.2.1 with buffer := some (buffer.consumeTo pass.position) }
      if (pass.outcome.map fun _ => ()).returns then
        (pass.outcome.map fun _ => (), State.retain
          { toStage := pass.stage, retention := left, ended := state.ended }
          (left.fit decoder.allocator))
      else
        (pass.outcome.map fun _ => (),
          { toStage := pass.stage, retention := left, ended := state.ended }) := by
    simp only [feedAppended, State.retain]
    rw [placed]
    rfl
  -- What the buffer still holds behind the position is what the pass has left unread.
  have left : (buffer.consumeTo pass.position).unread = pass.unread := by
    have ⟨consumed, h, h'⟩ := rounds.position_eq
    calc
      buffer.written.drop pass.position
      _ = buffer.written.drop (buffer.consumed + consumed) := congrArg buffer.written.drop h
      _ = buffer.unread.drop consumed                      := List.drop_drop.symm
      _ = pass.unread                                      := unread ▸ h'.symm
  have bounded : (buffer.consumeTo pass.position).WellFormed :=
    sound'.consumeTo (unread ▸ rounds.position_le)
  have merged := state.retention.append_tallies decoder.allocator chunk
  rw [eq]
  refine ⟨pass, ?_⟩
  simp only [Outcome.returns_map]
  split
  case isTrue returns =>
    exact .of_unrecorded rounds merged rfl rfl (Retention.fit_tallies _ _) runs
      (fun _ => Retention.fit_rests decoder.allocator _ left) (by simp [returns])
  case isFalse faulted =>
    exact .of_unrecorded rounds merged rfl (Stage.act_nil _).symm rfl runs (absurd · faulted)
      (fun _ => .kept present rfl bounded left)

theorem feed_fed {chunk : Bytes} (nonempty : chunk ≠ []) (source : Source) {state : State σ φ ε μ}
    (runs : state.ended = false) (sound : state.retention.Sound) :
    ∃ pass, decoder.Fed chunk source state pass (decoder.feed chunk source state) := by
  rw [feed, if_neg nonempty, if_neg (by simp [runs])]
  dsimp only
  split
  case isTrue h =>
    have present : state.retention.buffer ≠ none := by
      simpa [Retention.isPresent, Option.isSome_iff_ne_none] using h
    exact decoder.feedAppended_fed nonempty source runs sound present
  case isFalse h =>
    have absent : state.retention.buffer = none := by simpa [Retention.isPresent] using h
    exact decoder.feedDirect_fed chunk source runs absent

theorem feedDirect_fitted (chunk : Bytes) (state : State σ φ ε μ) :
    (decoder.feedDirect chunk state).1.returns →
      (decoder.feedDirect chunk state).2.retention.Fitted decoder.allocator := by
  simp only [feedDirect]
  split
  case isTrue          => exact fun _ => state.retention.keep_fitted decoder.allocator _
  case isFalse faulted => exact fun returns => absurd returns faulted

theorem feedAppended_fitted (chunk : Bytes) (state : State σ φ ε μ) :
    (decoder.feedAppended chunk state).1.returns →
      (decoder.feedAppended chunk state).2.retention.Fitted decoder.allocator := by
  simp only [feedAppended]
  split
  case h_1 absent =>
    intro _ buffer present
    cases absent.symm.trans present
  case h_2 =>
    split
    case isTrue          => exact fun _ => Retention.fit_fitted decoder.allocator _
    case isFalse faulted => exact fun returns => absurd returns faulted

-- Unless a fault cuts it short, a call leaves no more room behind than there has to be.
theorem feed_fitted {chunk : Bytes} (nonempty : chunk ≠ []) (source : Source) {state : State σ φ ε μ}
    (runs : state.ended = false) (returns : (decoder.feed chunk source state).1.returns) :
    (decoder.feed chunk source state).2.retention.Fitted decoder.allocator := by
  rw [feed, if_neg nonempty, if_neg (by simp [runs])] at returns ⊢
  dsimp only at returns ⊢
  rw [recorded_fst] at returns
  rw [recorded_retention]
  split
  case isTrue present =>
    rw [if_pos present] at returns
    exact decoder.feedAppended_fitted chunk _ returns
  case isFalse absent =>
    rw [if_neg absent] at returns
    exact decoder.feedDirect_fitted chunk _ returns

-- An empty chunk changes nothing.
theorem feed_nil (source : Source) (state : State σ φ ε μ) :
    decoder.feed [] source state = (.done (), state.note .emptyChunkIgnored) :=
  rfl

theorem feedDirect_decodes (chunk : Bytes) (state : State σ φ ε μ) :
    Stage.Decodes 0 state.toStage (decoder.feedDirect chunk state).2.toStage := by
  have decodes := (decoder.rounds_pass chunk 0 0 state.toStage).decodes
  simp only [feedDirect]
  split
  case isTrue  => exact decodes.act _
  case isFalse => exact decodes

theorem feedAppended_decodes (chunk : Bytes) (state : State σ φ ε μ) :
    Stage.Decodes 0 state.toStage (decoder.feedAppended chunk state).2.toStage := by
  have merged := (Stage.Decodes.refl state.toStage).act
    (state.retention.append decoder.allocator chunk).2.2
  simp only [feedAppended]
  split
  case h_1 => exact merged
  case h_2 buffer _ =>
    have decodes := merged.trans
      (decoder.rounds_pass buffer.unread buffer.consumed 0 _).decodes
    split
    case isTrue  => exact decodes.act _
    case isFalse => exact decodes

theorem recorded_decodes {last : Nat} {stage : Stage σ φ ε μ}
    {result : Outcome (DecodeError ε) Unit × State σ φ ε μ}
    (decodes : Stage.Decodes last stage result.2.toStage) :
    Stage.Decodes last stage (recorded result).2.toStage := by
  simp only [recorded]
  split
  case h_1 => exact (decodes.act _).act _
  case h_2 => exact decodes

-- Whatever state a decoder is in, all that feeding adds is decoding.
theorem feed_decodes (chunk : Bytes) (source : Source) (state : State σ φ ε μ) :
    Stage.Decodes 0 state.toStage (decoder.feed chunk source state).2.toStage := by
  have ignored (notice : Notice) : Stage.Decodes 0 state.toStage (state.note notice).toStage :=
    (Stage.Decodes.refl _).act _
  let heard : State σ φ ε μ := { state with context.source := source }
  -- Which source a chunk comes from is not on record.
  have unrecorded {after : Stage σ φ ε μ} (decodes : Stage.Decodes 0 heard.toStage after) :
      Stage.Decodes 0 state.toStage after :=
    have ⟨made, handed, grows, rest⟩ := decodes
    ⟨made, handed, { grows with }, rest⟩
  simp only [feed]
  split
  case isTrue => exact ignored _
  split
  case isTrue => exact ignored _
  split
  case isTrue  => exact recorded_decodes (unrecorded (decoder.feedAppended_decodes chunk heard))
  case isFalse => exact recorded_decodes (unrecorded (decoder.feedDirect_decodes chunk heard))

-- Whether the stream has ended is not for a chunk to change.
@[simp]
theorem feed_ended (chunk : Bytes) (source : Source) (state : State σ φ ε μ) :
    (decoder.feed chunk source state).2.ended = state.ended := by
  have direct (state : State σ φ ε μ) :
      (decoder.feedDirect chunk state).2.ended = state.ended := by
    simp only [feedDirect]
    split <;> rfl
  have appended (state : State σ φ ε μ) :
      (decoder.feedAppended chunk state).2.ended = state.ended := by
    simp only [feedAppended]
    split
    case h_1 => rfl
    case h_2 => split <;> rfl
  simp only [feed]
  split
  case isTrue => rfl
  split
  case isTrue => rfl
  split
  case isTrue  => rw [recorded_ended, appended]
  case isFalse => rw [recorded_ended, direct]

theorem feed_of_ended {state : State σ φ ε μ} (ended : state.ended) (chunk : Bytes)
    (source : Source) :
    ∃ notice, decoder.feed chunk source state = (.done (), state.note notice) := by
  simp only [feed, if_pos ended]
  split
  case isTrue  => exact ⟨_, rfl⟩
  case isFalse => exact ⟨_, rfl⟩

-- A chunk is ignored, if it is empty or comes too late, or else there is a pass over it.
theorem feed_cases (chunk : Bytes) (source : Source) {state : State σ φ ε μ}
    (sound : state.retention.Sound) :
    (∃ notice, decoder.feed chunk source state = (.done (), state.note notice)) ∨
      ∃ pass, decoder.Fed chunk source state pass (decoder.feed chunk source state) := by
  by_cases nonempty : chunk = []
  case pos =>
    subst nonempty
    exact .inl ⟨_, decoder.feed_nil source state⟩
  case neg =>
    cases ended : state.ended
    case true  => exact .inl (decoder.feed_of_ended ended chunk source)
    case false => exact .inr (decoder.feed_fed nonempty source ended sound)

end Decoder
end Framing
