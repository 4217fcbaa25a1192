import Framing.Proofs.Accounts
import Framing.Proofs.Positions

/-!
What a decoder requests of its provider. Only feeding takes memory: for a chunk that does not fit
behind the retained bytes, and at the end of each pass for what it has left unread. Therefore the
buffer of a decoder is as good as new after every pass.
-/

namespace Framing.Decoder

variable {σ φ ε μ : Type} {decoder : Decoder σ φ ε μ} {stage after : Stage σ φ ε μ}
variable {state : State σ φ ε μ}

@[simp]
theorem Stage.requests_act (stage : Stage σ φ ε μ) (activities : List Activity) :
    (stage.act activities).trace.requests =
      stage.trace.requests ++ Activity.requests activities := by
  simp [Trace.requests, Trace.activities, trace_act, List.filterMap_map, Function.comp_def,
    Trace.Entry.activity?, Activity.requests]

-- Between the stages nothing is requested.
def Stage.Modest (before after : Stage σ φ ε μ) : Prop :=
  after.trace.requests = before.trace.requests

-- Where nothing is done about memory, none is requested.
theorem Stage.Accounts.modest {made : List (Trace.Invoked φ ε)} {failed : List Notice}
    (accounts : Stage.Accounts decoder made failed [] stage after) : stage.Modest after := by
  obtain ⟨_, added, tells, activities, _⟩ := accounts.activities
  have silent : Activity.requests added = [] := by
    rw [← Activity.requests_memory, tells.memory]
    rfl
  have split : after.trace.requests = stage.trace.requests ++ Activity.requests added := by
    rw [Trace.requests, activities]
    exact Activity.requests_append _ added
  rw [Stage.Modest, split, silent, List.append_nil]

-- Between the states the requests that are `asked` are made, and the provider answers them.
structure State.Asks (asked : List Nat) (before after : State σ φ ε μ) : Prop where
  requests : after.trace.requests = before.trace.requests ++ asked
  count    : after.retention.requests = before.retention.requests + asked.length

namespace State.Asks

variable {s₁ s₂ s₃ : State σ φ ε μ} {asked more : List Nat}

theorem of_modest (modest : s₁.toStage.Modest s₂.toStage)
    (same : s₂.retention.requests = s₁.retention.requests) : Asks [] s₁ s₂ where
  requests := by rw [List.append_nil, modest]
  count    := same

theorem trans (asks : Asks asked s₁ s₂) (asks' : Asks more s₂ s₃) :
    Asks (asked ++ more) s₁ s₃ where
  requests := by rw [asks'.requests, asks.requests, List.append_assoc]
  count    := by rw [asks'.count, asks.count, List.length_append, Nat.add_assoc]

theorem modest (asks : Asks asked s₁ s₂) (modest : s₂.toStage.Modest s₃.toStage)
    (same : s₃.retention.requests = s₂.retention.requests) : Asks asked s₁ s₃ :=
  List.append_nil asked ▸ asks.trans (.of_modest modest same)

theorem retain {step : Retention × List Activity} (asks : s₁.retention.Asks step asked) :
    Asks asked s₁ (s₁.retain step) where
  requests := asks.requests ▸ s₁.toStage.requests_act step.2
  count    := asks.count

end State.Asks

section Feed

variable (decoder)

-- Unless a fault cuts the call short, the last thing it asks for is room for what is left unread.
theorem feedDirect_asks (chunk : Bytes) (state : State σ φ ε μ) :
    let result := decoder.feedDirect chunk state
    ∃ asked, State.Asks asked state result.2 ∧ (result.1.returns →
      ∃ earlier, asked = earlier ++ decoder.allocator.requests result.2.retention.unread) := by
  obtain ⟨_, accounts⟩ := (decoder.rounds_pass chunk 0 0 state.toStage).accounts
  have passed : State.Asks [] state
      { state with toStage := (decoder.pass chunk 0 0 state.toStage).stage } :=
    .of_modest accounts.modest rfl
  let remainder := (decoder.pass chunk 0 0 state.toStage).unread
  simp only [feedDirect]
  split
  case isFalse faulted => exact ⟨[], passed, fun returns => absurd returns faulted⟩
  case isTrue =>
    have kept := passed.trans (.retain (state.retention.keep_asks decoder.allocator remainder))
    have left := (state.retention.keep_rests decoder.allocator remainder).unread_eq
    refine ⟨_, kept, fun _ => ⟨[], ?_⟩⟩
    simp [State.retain, remainder, left]

theorem feedAppended_asks (chunk : Bytes) (sound : state.retention.Sound) :
    let result := decoder.feedAppended chunk state
    ∃ asked, State.Asks asked state result.2 ∧ (result.1.returns →
      ∃ earlier, asked = earlier ++ decoder.allocator.requests result.2.retention.unread) := by
  have ⟨asked, asks⟩ := state.retention.append_asks decoder.allocator chunk sound
  let appended := state.retain (state.retention.append decoder.allocator chunk).2
  have placed : State.Asks asked state appended := .retain asks
  simp only [feedAppended]
  split
  case h_1 absent =>
    refine ⟨asked, placed, fun _ => ⟨asked, ?_⟩⟩
    simp [Retention.unread_of_none absent, Allocator.requests]
  case h_2 buffer _ =>
    let pass := decoder.pass buffer.unread buffer.consumed 0 appended.toStage
    let left : State σ φ ε μ :=
      { appended with
        toStage          := pass.stage
        retention.buffer := some (buffer.consumeTo pass.position) }
    obtain ⟨_, accounts⟩ :=
      (decoder.rounds_pass buffer.unread buffer.consumed 0 appended.toStage).accounts
    have passed : State.Asks asked state left := placed.modest accounts.modest rfl
    split
    case isFalse faulted => exact ⟨asked, passed, fun returns => absurd returns faulted⟩
    case isTrue =>
      have fitted := passed.trans (.retain (left.retention.fit_asks decoder.allocator))
      have same := (left.retention.fit_rests decoder.allocator rfl).unread_eq
      exact ⟨_, fitted, fun _ =>
        ⟨asked, congrArg (asked ++ decoder.allocator.requests ·) same.symm⟩⟩

-- Whatever the state, feeding asks the provider for all that it is answered with.
theorem feed_asks (chunk : Bytes) (source : Source) (sound : state.retention.Sound) :
    let result := decoder.feed chunk source state
    ∃ asked, State.Asks asked state result.2 ∧
      (chunk ≠ [] → state.ended = false → result.1.returns →
        ∃ earlier, asked = earlier ++ decoder.allocator.requests result.2.retention.unread) := by
  have ignored {notice : Notice} (ordinary : notice.failure? = none) :
      State.Asks [] state (state.note notice) :=
    have noted : Stage.Accounts decoder [] [] [] state.toStage (state.note notice).toStage :=
      (Stage.Accounts.refl _).note ordinary
    .of_modest noted.modest rfl
  let heard : State σ φ ε μ := { state with context.source := source }
  have recording (result : Outcome (DecodeError ε) Unit × State σ φ ε μ)
      (asks : ∃ asked, State.Asks asked heard result.2 ∧ (result.1.returns →
        ∃ earlier, asked = earlier ++ decoder.allocator.requests result.2.retention.unread)) :
      ∃ asked, State.Asks asked state (recorded result).2 ∧
        (chunk ≠ [] → state.ended = false → (recorded result).1.returns →
          ∃ earlier, asked = earlier ++
            decoder.allocator.requests (recorded result).2.retention.unread) := by
    have ⟨asked, asks, left⟩ := asks
    have begun : State.Asks [] state heard := .of_modest rfl rfl
    have recording : Stage.Accounts decoder [] _ [] result.2.toStage (recorded result).2.toStage :=
      recorded_accounts (.refl _)
    refine ⟨asked, begun.trans (asks.modest recording.modest ?_), fun _ _ => ?_⟩
    · rw [recorded_retention]
    · rwa [recorded_fst, recorded_retention]
  simp only [feed]
  split
  case isTrue empty => exact ⟨[], ignored rfl, fun nonempty => absurd empty nonempty⟩
  split
  case isTrue ended => exact ⟨[], ignored rfl, fun _ runs => by simp [runs] at ended⟩
  split
  case isTrue  => exact recording _ (decoder.feedAppended_asks chunk sound)
  case isFalse => exact recording _ (decoder.feedDirect_asks chunk heard)

end Feed

section Run

variable (decoder)

theorem finish_asks (signal : EndSignal) (state : State σ φ ε μ) :
    State.Asks [] state (decoder.finish signal state).2 := by
  obtain ⟨_, _, accounts, _⟩ := decoder.finish_accounts signal state
  refine .of_modest accounts.modest ?_
  cases ended : state.ended
  case true =>
    rw [finish_of_ended ended, forward_retention]
    rfl
  case false =>
    rw [finish_of_runs ended rfl, forward_retention, recorded_retention]
    rfl

theorem abort_asks (signal : EndSignal) (state : State σ φ ε μ) :
    State.Asks [] state (decoder.abort signal state).2 := by
  refine .of_modest (decoder.abort_accounts signal state).1.modest ?_
  simp only [abort, forward_retention, State.note]
  split <;> rfl

theorem perform_asks (call : Call μ) (sound : state.retention.Sound) :
    ∃ asked, State.Asks asked state (decoder.perform call state).2 := by
  rcases call with (⟨chunk, source⟩ | content | signal) | ⟨chunk, source⟩ | signal | signal
  case receive.chunk | feed =>
    have ⟨asked, asks, _⟩ := decoder.feed_asks chunk source sound
    exact ⟨asked, asks⟩
  case receive.message =>
    have handed : Stage.Accounts decoder [] [] [] state.toStage
        (decoder.perform (.receive (.message content)) state).2.toStage :=
      hand_accounts rfl (Prod.eta _).symm
    exact ⟨[], .of_modest handed.modest rfl⟩
  case receive.ended | finish => exact ⟨[], decoder.finish_asks signal state⟩
  case abort                  => exact ⟨[], decoder.abort_asks signal state⟩

theorem run_asks (calls : List (Call μ)) (sound : state.retention.Sound) :
    ∃ asked, State.Asks asked state (decoder.run calls state).2 := by
  induction calls generalizing state
  case nil => exact ⟨[], .of_modest rfl rfl⟩
  case cons call calls ih =>
    have ⟨asked, asks⟩ := decoder.perform_asks call sound
    have ⟨more, asks'⟩ := ih (decoder.perform_sound call sound)
    exact ⟨asked ++ more, asks.trans asks'⟩

-- Where a pass was never cut short, nothing that was consumed is kept.
theorem perform_rests {content : Bytes} (rests : state.retention.Rests content) (call : Call μ)
    (returns : (decoder.perform call state).1.returns) :
    ∃ content, (decoder.perform call state).2.retention.Rests content := by
  cases ended : state.ended
  case true =>
    have ⟨_, _, _, same⟩ := decoder.perform_of_ended call ended
    exact ⟨content, same ▸ rests⟩
  case false =>
    have fed (chunk : Bytes) (source : Source)
        (returns : (decoder.feed chunk source state).1.returns) :
        ∃ content, (decoder.feed chunk source state).2.retention.Rests content := by
      rcases decoder.feed_cases chunk source rests.sound with ⟨notice, eq⟩ | ⟨pass, fed⟩
      case inl => exact ⟨content, eq ▸ rests⟩
      case inr => exact ⟨pass.unread, fed.rests (fed.returns ▸ returns)⟩
    rcases call with (⟨chunk, source⟩ | message | signal) | ⟨chunk, source⟩ | signal | signal
    case receive.chunk | feed =>
      exact fed chunk source ((decoder.returns_perform_feed chunk source state).symm.trans returns)
    case receive.message        => exact ⟨content, rests⟩
    case receive.ended | finish => exact ⟨[], .absent rfl (finish_releases signal state ended)⟩
    case abort                  => exact ⟨[], .absent rfl (abort_releases signal state ended)⟩

theorem run_rests {content : Bytes} (rests : state.retention.Rests content) (calls : List (Call μ))
    (returns : ∀ outcome ∈ (decoder.run calls state).1, outcome.returns) :
    ∃ content, (decoder.run calls state).2.retention.Rests content := by
  induction calls generalizing state content
  case nil => exact ⟨content, rests⟩
  case cons call calls ih =>
    have ⟨first, later⟩ := List.forall_mem_cons.mp returns
    have ⟨content, rests⟩ := decoder.perform_rests rests call first
    exact ih rests later

end Run

-- A buffer that a fault left behind, with anything in it consumed, is as good as any other. As the
-- calls so far are a run, too, what is said of the next chunk holds of each chunk that is appended.
theorem run_feed_rests (decoder : Decoder σ φ ε μ) (start : σ) (calls : List (Call μ))
    {chunk : Bytes} (nonempty : chunk ≠ []) (source : Source) :
    let run   := decoder.run calls (.initial start)
    let state := run.2
    let fed   := decoder.feed chunk source state
    (state.ended = false → fed.1.returns → ∃ made handed left,
      Stage.Processes decoder (state.retention.unread ++ chunk) made handed left
        state.toStage fed.2.toStage ∧
      (fed.2.retention.buffer = none ↔ left = []) ∧
      ∀ buffer, fed.2.retention.buffer = some buffer →
        buffer.WellFormed ∧ buffer.consumed = 0 ∧ buffer.unread = left ∧ left ≠ [] ∧
        ∃ earlier, fed.2.trace.requests = earlier ++ [max left.length decoder.allocator.floor] ∧
          buffer.capacity = (decoder.allocator.provider.allocate earlier.length
            (max left.length decoder.allocator.floor)).capacity) ∧
    ((∀ outcome ∈ run.1, outcome.returns) →
      (state.retention.append decoder.allocator chunk).1 ≠ .compacted) := by
  intro run state fed
  have begun : (State.initial start : State σ φ ε μ).retention.Rests [] := Retention.initial_rests
  have sound : state.retention.Sound := decoder.run_sound start calls
  constructor
  case left =>
    intro runs returns
    have ⟨pass, by_pass⟩ := decoder.feed_fed nonempty source runs sound
    have ⟨made, handed, processes, _⟩ := by_pass.processes
    have rests := by_pass.rests (by_pass.returns ▸ returns)
    refine ⟨made, handed, pass.unread, processes, rests.buffer_eq_none_iff, ?_⟩
    intro buffer present
    have ⟨leaves, consumed, unread⟩ := rests.of_some present
    have ⟨so_far, asked⟩ := decoder.run_asks calls begun.sound
    have ⟨_, asks, left⟩ := decoder.feed_asks chunk source sound
    obtain ⟨earlier, rfl⟩ := left nonempty runs returns
    rw [rests.unread_eq, Allocator.requests, if_neg leaves] at asks
    have all := asked.trans asks
    -- The answer in use is the one to the last of the requests on record.
    have count : fed.2.retention.requests = (so_far ++ earlier).length + 1 := by
      simpa [State.initial, Nat.add_assoc] using all.count
    obtain ⟨_, fitted⟩ := decoder.feed_fitted nonempty source runs returns buffer present
    rw [count, unread] at fitted
    refine ⟨rests.sound buffer present, consumed, unread, leaves, so_far ++ earlier, ?_, fitted⟩
    rw [List.append_assoc]
    exact all.requests
  case right =>
    intro returns
    obtain ⟨content, rests⟩ := decoder.run_rests begun calls returns
    exact rests.append_ne_compacted decoder.allocator chunk

-- A fault leaves a full buffer with two bytes in it consumed, so that the next chunk is compacted. The
-- pass over it fails, and still it leaves as much room behind as there has to be.
theorem run_feed_rests_after_fault :
    let script : Script := { entries := [
      { need := 2, operations := [.take 2], reply := .joined }, { reply := .fault "broken" },
      { operations := [.take 1], reply := .joined }, { reply := .error "bad" } ] }
    let decoder : Decoder _ _ _ Unit :=
      { strategy := script.strategy, receiver := .collecting, allocator.floor := 3 }
    let before := (decoder.run [.feed [1] none] (.initial {})).2
    let state  := (decoder.run [.feed [1] none, .feed [2, 3] none] (.initial {})).2
    let fed    := decoder.feed [4, 5] none state
    state.retention.buffer = some { written := [1, 2, 3], consumed := 2, capacity := 3 } ∧
    (state.retention.append decoder.allocator [4, 5]).1 = .compacted ∧
    fed.1 = .failed (.strategy "bad") ∧ fed.2.retention.unread = [4, 5] ∧
    (∃ buffer, fed.2.retention.buffer = some buffer ∧ buffer.WellFormed ∧ buffer.consumed = 0 ∧
      ∃ earlier, fed.2.trace.requests = earlier ++ [3] ∧ buffer.capacity = 3) ∧
    (before.retention.append decoder.allocator [2, 3]).1 ≠ .compacted := by
  intro script decoder before state fed
  have failed : fed.1 = .failed (.strategy "bad") := by decide +kernel
  have unread : fed.2.retention.unread = [4, 5] := by decide +kernel
  have ⟨_, never⟩ := run_feed_rests decoder {} [.feed [1] none] (List.cons_ne_nil 2 [3]) none
  have ⟨rests, _⟩ := run_feed_rests decoder {} [.feed [1] none, .feed [2, 3] none]
    (List.cons_ne_nil 4 [5]) none
  have ⟨_, _, left, _, absent_iff, present⟩ := rests (by decide +kernel) (failed ▸ rfl)
  have ⟨buffer, there⟩ : ∃ buffer, fed.2.retention.buffer = some buffer :=
    Option.isSome_iff_exists.mp (by decide +kernel)
  have ⟨sound, consumed, same, _, earlier, asked, capacity⟩ := present buffer there
  have two : left = [4, 5] := by
    rw [← same, ← unread, Retention.unread, there]
    rfl
  subst two
  exact ⟨by decide +kernel, by decide +kernel, failed, unread,
    ⟨buffer, there, sound, consumed, earlier, asked, capacity⟩, never (by decide +kernel)⟩

end Framing.Decoder
