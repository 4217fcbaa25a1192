import Framing.Proofs.Telling

/-!
Accounts of a run. The frames that are counted are those that are handed over, and a call that fails is
warned of and counted once. Neither invocations nor what they find have anything to do with memory.
-/

namespace Framing

variable {σ φ ε μ : Type}

namespace Decoder

variable {decoder : Decoder σ φ ε μ} {stage after final : Stage σ φ ε μ}

@[simp]
theorem Stage.activities_act (stage : Stage σ φ ε μ) (activities : List Activity) :
    (stage.act activities).trace.activities = stage.trace.activities ++ activities := by
  simp [Trace.activities, trace_act, List.filterMap_map, Function.comp_def, Trace.Entry.activity?]

-- What lies between two stages: the invocations that were `made`, for which everything was handed over
-- that they have found, the failures that were put on record, and what was done about memory.
structure Stage.Accounts (decoder : Decoder σ φ ε μ) (made : List (Trace.Invoked φ ε))
    (failed : List Notice) (memory : List Activity) (before after : Stage σ φ ε μ) : Prop where
  invocations : after.trace.invocations = before.trace.invocations ++ made
  dispatched  : decoder.receiver.Steady → after.trace.dispatched =
    before.trace.dispatched ++ made.flatMap (·.announced decoder.grouping)
  activities  : ∃ frames added, decoder.strategy.Tells failed memory frames added ∧
    after.trace.activities = before.trace.activities ++ added ∧
    (decoder.receiver.Steady → frames = (made.flatMap (·.yielded)).length)

namespace Stage.Accounts

variable {made made' : List (Trace.Invoked φ ε)} {failed failed' : List Notice}
variable {memory memory' : List Activity} {s₁ s₂ s₃ : Stage σ φ ε μ}

theorem refl (stage : Stage σ φ ε μ) : Accounts decoder [] [] [] stage stage where
  invocations  := by simp
  dispatched _ := by simp
  activities   := ⟨0, [], .nil, by simp, fun _ => rfl⟩

theorem trans (accounts : Accounts decoder made failed memory s₁ s₂)
    (accounts' : Accounts decoder made' failed' memory' s₂ s₃) :
    Accounts decoder (made ++ made') (failed ++ failed') (memory ++ memory') s₁ s₃ where
  invocations       := by simp [accounts'.invocations, accounts.invocations]
  dispatched steady := by simp [accounts'.dispatched steady, accounts.dispatched steady]
  activities        :=
    have ⟨_, _, tells, eq, frames⟩    := accounts.activities
    have ⟨_, _, tells', eq', frames'⟩ := accounts'.activities
    ⟨_, _, tells.append tells', by simp [eq', eq],
      fun steady => by simp [frames steady, frames' steady]⟩

theorem act (accounts : Accounts decoder made failed memory s₁ s₂) {activities : List Activity}
    (tells : decoder.strategy.Tells failed' memory' 0 activities) :
    Accounts decoder made (failed ++ failed') (memory ++ memory') s₁ (s₂.act activities) where
  invocations       := by simp [accounts.invocations]
  dispatched steady := by simpa [Trace.dispatched] using accounts.dispatched steady
  activities        :=
    have ⟨_, _, tells', eq, frames⟩ := accounts.activities
    ⟨_, _, tells'.append tells, by simp [eq], frames⟩

-- Most of what is written tells of nothing.
theorem mute (accounts : Accounts decoder made failed memory s₁ s₂) {activities : List Activity}
    (tells : decoder.strategy.Tells [] [] 0 activities) :
    Accounts decoder made failed memory s₁ (s₂.act activities) := by
  simpa using accounts.act tells

theorem note (accounts : Accounts decoder made failed memory s₁ s₂) {notice : Notice}
    (ordinary : notice.failure? = none) :
    Accounts decoder made failed memory s₁ (s₂.note notice) :=
  accounts.mute (.note ordinary)

end Stage.Accounts

section Invoke

variable {last : Bool} {unread : Bytes} {outcome : Outcome ε (Found φ)} {consumed : Nat}
variable {event : Event φ μ} {found : Found φ} {source : Source} {fault : Option Fault}

theorem invoke_activities (h : decoder.invoke last unread stage = (outcome, consumed, after)) :
    ∃ written, decoder.strategy.Tells [] [] 0 written ∧
      after.trace.activities = stage.trace.activities ++ written := by
  refine ⟨(decoder.invocation last unread stage).notices.map .noted, .notices ?_, ?_⟩
  · intro discreet
    cases last
    case false => exact discreet.decode _ _ _
    case true  => exact discreet.conclude _ _ _
  · cases h
    rw [Stage.activities_act]
    simp [Trace.activities, Trace.Entry.activity?, invocation]

theorem hand_activities (h : decoder.hand event stage = (fault, after)) :
    ∃ written, decoder.strategy.Tells [] [] 0 written ∧
      after.trace.activities = stage.trace.activities ++ written := by
  obtain ⟨notices, gone, rfl⟩ := hand_eq h
  refine ⟨notices.map .noted, .notices fun _ notice mem => gone notice mem ▸ rfl, ?_⟩
  rw [Stage.activities_act]
  simp [Trace.activities, Trace.Entry.activity?]

theorem handAll_activities (events : List (Event φ μ)) (stage : Stage σ φ ε μ) :
    ∃ written, decoder.strategy.Tells [] [] 0 written ∧
      (decoder.handAll events stage).2.trace.activities = stage.trace.activities ++ written := by
  fun_induction decoder.handAll events stage
  case case1 => exact ⟨[], .nil, by simp⟩
  case case2 h ih =>
    obtain ⟨_, tells, eq⟩   := hand_activities h
    obtain ⟨_, tells', eq'⟩ := ih
    exact ⟨_, tells.append tells', by rw [eq', eq, List.append_assoc]⟩
  case case3 h => exact hand_activities h

-- Only a result that is handed over to the end is counted.
theorem dispatch_activities (h : decoder.dispatch found source stage = (fault, after)) :
    ∃ frames written, decoder.strategy.Tells [] [] frames written ∧
      after.trace.activities = stage.trace.activities ++ written ∧
      (fault = none → frames = found.frames.length) := by
  obtain ⟨written, tells, eq⟩ :=
    decoder.handAll_activities (found.events decoder.grouping source) stage.countResult
  simp only [dispatch] at h
  split at h <;> cases h
  case h_1 handed =>
    rw [handed] at eq
    refine ⟨_, _, tells.append (.dispatched found.frames.length), ?_, fun _ => Nat.zero_add _⟩
    rw [Stage.count, Stage.activities_act, eq, List.append_assoc]
    rfl
  case h_2 handed =>
    rw [handed] at eq
    exact ⟨_, written, tells, eq, fun went => absurd went (Option.some_ne_none _)⟩

-- What is neither a frame nor a batch is handed over without a count.
theorem hand_accounts (undecoded : event.isDecoded = false)
    (h : decoder.hand event stage = (fault, after)) :
    Stage.Accounts decoder [] [] [] stage after where
  invocations  := (hand_grows h).invocations
  dispatched _ := by simp [(hand_grows h).dispatched_eq, undecoded]
  activities   :=
    have ⟨_, tells, eq⟩ := hand_activities h
    ⟨0, _, tells, eq, fun _ => rfl⟩

-- An invocation whose result, if there is one, is not dispatched.
theorem invoke_accounts (h : decoder.invoke last unread stage = (outcome, consumed, after)) :
    let invoked : Trace.Invoked φ ε := ⟨last, stage.context, unread, outcome, consumed⟩
    invoked.yields = false → Stage.Accounts decoder [invoked] [] [] stage after := by
  intro invoked silent
  have ⟨_, tells, eq⟩ := invoke_activities h
  refine ⟨(invoke_grows h).invocations, fun _ => ?_, 0, _, tells, eq, fun _ => ?_⟩
  · simp [(invoke_grows h).dispatched_eq, Trace.Invoked.announced, silent]
  · simp [Trace.Invoked.yielded, silent]

-- An invocation whose result is dispatched.
theorem dispatch_accounts (h : decoder.invoke last unread stage = (.done found, consumed, after))
    (noting : List Activity) (noted : decoder.strategy.Tells [] [] 0 noting)
    (dispatched : decoder.dispatch found stage.context.source (after.act noting) = (fault, final)) :
    let invoked : Trace.Invoked φ ε := ⟨last, stage.context, unread, .done found, consumed⟩
    invoked.yields → Stage.Accounts decoder [invoked] [] [] stage final := by
  intro invoked yields
  have ⟨_, tells, eq⟩ := invoke_activities h
  have ⟨_, _, tells', eq', whole⟩ := dispatch_activities dispatched
  have ⟨_, _, all, grows⟩ := dispatch_grows dispatched
  have grows := ((invoke_grows h).act noting).trans grows
  have accepted (steady : decoder.receiver.Steady) : fault = none :=
    (congrArg Prod.fst dispatched).symm.trans (dispatch_fault_of_steady steady ..)
  refine ⟨grows.invocations, fun steady => ?_, _, _, (tells.append noted).append tells', ?_,
    fun steady => ?_⟩
  · have decoded : (found.events decoder.grouping stage.context.source).filter (·.isDecoded) =
        found.events (μ := μ) decoder.grouping stage.context.source :=
      List.filter_eq_self.mpr fun _ => Found.isDecoded_of_mem_events
    simp [grows.dispatched_eq, all (accepted steady), decoded, Trace.Invoked.announced, yields,
      invoked, Trace.Invoked.found]
  · simp [eq', eq]
  · simp [whole (accepted steady), Trace.Invoked.yielded, yields, invoked, Trace.Invoked.found]

end Invoke

theorem Rounds.accounts {unread : Bytes} {position results : Nat} {pass : Pass σ φ ε μ}
    (rounds : decoder.Rounds unread position results stage pass) :
    ∃ made, Stage.Accounts decoder made [] [] stage pass.stage := by
  induction rounds
  case exhausted         => exact ⟨_, (Stage.Accounts.refl _).note rfl⟩
  case waiting h         => exact ⟨_, (invoke_accounts h rfl).note rfl⟩
  case failed h          => exact ⟨_, invoke_accounts h rfl⟩
  case faulted h         => exact ⟨_, invoke_accounts h rfl⟩
  case stalled h _       => exact ⟨_, (invoke_accounts h (by simp [Trace.Invoked.yields])).note rfl⟩
  case skipped h _ _ ih  =>
    obtain ⟨_, rest⟩ := ih
    exact ⟨_, ((invoke_accounts h rfl).note rfl).trans rest⟩
  case refused h isResult progress d =>
    refine ⟨_, dispatch_accounts h [] .nil (invoke_context h ▸ d) ?_⟩
    exact Trace.Invoked.yields_of_progress _ rfl isResult progress
  case dispatched h isResult progress d _ ih =>
    obtain ⟨_, rest⟩ := ih
    refine ⟨_, (dispatch_accounts h [] .nil (invoke_context h ▸ d) ?_).trans rest⟩
    exact Trace.Invoked.yields_of_progress _ rfl isResult progress

theorem discarding_tells (strategy : Strategy σ φ ε) (left : Nat) :
    strategy.Tells [] [] 0 (discarding left) := by
  rw [discarding]
  split
  case isTrue  => exact .nil
  case isFalse => exact .note rfl

variable (decoder) in
theorem conclude_accounts (sourceless : stage.context.source = none) (unread : Bytes) :
    ∃ made, Stage.Accounts decoder made [] [] stage (decoder.conclude unread stage).2 := by
  rcases h : decoder.invoke true unread stage with ⟨outcome, consumed, after⟩
  cases outcome
  case failed | faulted =>
    simp only [conclude, h]
    exact ⟨_, invoke_accounts h rfl⟩
  case done found =>
    have noted := discarding_tells decoder.strategy (unread.length - consumed)
    have yields : (⟨true, stage.context, unread, .done found, consumed⟩ :
        Trace.Invoked φ ε).yields = found.isResult := by
      simp [Trace.Invoked.yields, Trace.Invoked.found]
    rw [conclude_of_done h]
    cases isResult : found.isResult
    case false => exact ⟨_, (invoke_accounts h (yields.trans isResult)).mute noted⟩
    case true  =>
      let left := after.act (discarding (unread.length - consumed))
      rcases d : decoder.dispatch found none left with ⟨fault, final⟩
      simp only [show decoder.dispatch found none (after.act (discarding _)) = _ from d]
      exact ⟨_, dispatch_accounts h _ noted (sourceless ▸ d) (yields.trans isResult)⟩

variable (decoder) in
theorem flush_accounts (unread : Bytes) (position : Nat) (stage : Stage σ φ ε μ) :
    ∃ made, Stage.Accounts decoder made [] [] stage (decoder.flush unread position stage).2 := by
  let begun := stage.beginEnding.note (.ending unread.length)
  have started : Stage.Accounts decoder [] [] [] stage stage.beginEnding :=
    { Stage.Accounts.refl stage with }
  have first : Stage.Accounts decoder [] [] [] stage begun := started.note rfl
  simp only [flush]
  split
  case isTrue =>
    obtain ⟨_, concluded⟩ :=
      decoder.conclude_accounts (show begun.context.source = none from rfl) unread
    exact ⟨_, first.trans concluded⟩
  case isFalse =>
    have rounds := decoder.rounds_pass unread position 0 begun
    obtain ⟨_, passed⟩ := rounds.accounts
    split
    case h_1 =>
      obtain ⟨_, concluded⟩ := decoder.conclude_accounts rounds.source_eq
        (decoder.pass unread position 0 begun).unread
      exact ⟨_, (first.trans passed).trans concluded⟩
    case h_2 | h_3 => exact ⟨_, first.trans passed⟩

-- The warning of a call that has failed, with what is retained after the call.
def warning {α : Type} (result : Outcome (DecodeError ε) α × State σ φ ε μ) : List Notice :=
  match result.1 with
  | .failed error => [.failed error.kind error.isDefect result.2.context.source
      result.2.retention.unread.length]
  | _             => []

theorem warning_map {α β : Type} (f : α → β)
    (result : Outcome (DecodeError ε) α × State σ φ ε μ) :
    warning (result.map (·.map f) id) = warning result := by
  rcases result with ⟨_ | _ | _, _⟩ <;> rfl

section Calls

variable {made : List (Trace.Invoked φ ε)} {memory : List Activity}
variable {result : Outcome (DecodeError ε) Unit × State σ φ ε μ}

-- Whoever puts a failure on record has come to the end of the call.
theorem recorded_accounts
    (accounts : Stage.Accounts decoder made [] memory stage result.2.toStage) :
    Stage.Accounts decoder made (warning (recorded result)) memory stage
      (recorded result).2.toStage := by
  rcases result with ⟨_ | error | _, state⟩
  case done | faulted => exact accounts
  case failed         =>
    have told := accounts.act (.failure error.kind error.isDefect state.context.source
      state.retention.unread.length)
    rw [List.append_nil] at told
    exact told

theorem warning_forward (steady : decoder.receiver.Steady) (signal : EndSignal) :
    warning (decoder.forward signal result) = warning result := by
  rw [warning, warning, (forward_of_steady signal result steady).1, forward_context,
    forward_retention]

theorem forward_accounts (signal : EndSignal)
    (result : Outcome (DecodeError ε) Unit × State σ φ ε μ) :
    Stage.Accounts decoder [] [] [] result.2.toStage (decoder.forward signal result).2.toStage := by
  rcases handed : decoder.hand (.ended signal) result.2.toStage with ⟨fault, last⟩
  cases fault <;>
    simpa only [forward, handed] using hand_accounts rfl handed

variable (decoder)

-- What a pass has left is kept, unless a fault cut the pass short.
theorem feedDirect_accounts (chunk : Bytes) (state : State σ φ ε μ) :
    let result := decoder.feedDirect chunk state
    ∃ made memory, Stage.Accounts decoder made [] memory state.toStage result.2.toStage ∧
      (result.1.returns →
        memory = decoder.allocator.counting .fresh result.2.retention.unread) := by
  have ⟨made, passed⟩ := (decoder.rounds_pass chunk 0 0 state.toStage).accounts
  let remainder := (decoder.pass chunk 0 0 state.toStage).unread
  simp only [feedDirect]
  split
  case isFalse faulted => exact ⟨made, [], passed, fun returns => absurd returns faulted⟩
  case isTrue =>
    have kept := passed.act (.upkeep (state.retention.keep_tallies decoder.allocator remainder)
      (state.retention.keep_warnings decoder.allocator remainder))
    have left := (state.retention.keep_rests decoder.allocator remainder).unread_eq
    refine ⟨made, _, kept, fun _ => ?_⟩
    rw [Retention.keep_memory, List.nil_append]
    exact congrArg _ left.symm

-- A chunk is appended, and behind the pass what is left moves to a buffer of the right size.
theorem feedAppended_accounts (chunk : Bytes) (state : State σ φ ε μ) :
    let result := decoder.feedAppended chunk state
    ∃ made memory, Stage.Accounts decoder made [] memory state.toStage result.2.toStage ∧
      (result.1.returns → memory =
        Activity.memory (state.retention.append decoder.allocator chunk).2.2 ++
          decoder.allocator.asking result.2.retention.unread) := by
  let appended := state.retain (state.retention.append decoder.allocator chunk).2
  have placed : Stage.Accounts decoder [] [] _ state.toStage appended.toStage :=
    (Stage.Accounts.refl state.toStage).act
      (.upkeep (state.retention.append_tallies decoder.allocator chunk)
        (state.retention.append_warnings decoder.allocator chunk))
  simp only [feedAppended]
  split
  case h_1 absent =>
    refine ⟨[], _, placed, fun _ => ?_⟩
    simp [Retention.unread_of_none absent, Allocator.asking]
  case h_2 buffer _ =>
    obtain ⟨made, passed⟩ :=
      (decoder.rounds_pass buffer.unread buffer.consumed 0 appended.toStage).accounts
    let left : State σ φ ε μ :=
      { appended with
        toStage          := (decoder.pass buffer.unread buffer.consumed 0 appended.toStage).stage
        retention.buffer := some (buffer.consumeTo
          (decoder.pass buffer.unread buffer.consumed 0 appended.toStage).position) }
    have passed : Stage.Accounts decoder _ _ _ state.toStage left.toStage := placed.trans passed
    split
    case isFalse faulted => exact ⟨_, _, passed, fun returns => absurd returns faulted⟩
    case isTrue =>
      have fitted := passed.act (.upkeep (left.retention.fit_tallies decoder.allocator)
        (left.retention.fit_warnings decoder.allocator))
      have same := (left.retention.fit_rests decoder.allocator rfl).unread_eq
      refine ⟨_, _, fitted, fun _ => ?_⟩
      rw [Retention.fit_memory, List.append_nil, List.nil_append]
      exact congrArg (_ ++ decoder.allocator.asking ·) same.symm

-- What is done about memory in a call that delivers `chunk` and is not cut short by a fault. A chunk that
-- is ignored takes none.
def outlay (chunk : Bytes) (before after : State σ φ ε μ) : List Activity :=
  if chunk = [] ∨ before.ended then
    []
  else if before.retention.isPresent then
    Activity.memory (before.retention.append decoder.allocator chunk).2.2 ++
      decoder.allocator.asking after.retention.unread
  else
    decoder.allocator.counting .fresh after.retention.unread

theorem feed_accounts (chunk : Bytes) (source : Source) (state : State σ φ ε μ) :
    let result := decoder.feed chunk source state
    ∃ made memory,
      Stage.Accounts decoder made (warning result) memory state.toStage result.2.toStage ∧
      (result.1.returns → memory = decoder.outlay chunk state result.2) := by
  have ignored {notice : Notice} (ordinary : notice.failure? = none) :
      Stage.Accounts decoder [] [] [] state.toStage (state.note notice).toStage :=
    (Stage.Accounts.refl _).note ordinary
  let heard : State σ φ ε μ := { state with context.source := source }
  have recording {made memory} {result : Outcome (DecodeError ε) Unit × State σ φ ε μ}
      (accounts : Stage.Accounts decoder made [] memory heard.toStage result.2.toStage) :
      Stage.Accounts decoder made (warning (recorded result)) memory state.toStage
        (recorded result).2.toStage :=
    recorded_accounts { accounts with }
  simp only [feed]
  split
  case isTrue empty => exact ⟨[], [], ignored rfl, fun _ => (if_pos (.inl empty)).symm⟩
  split
  case isTrue ended => exact ⟨[], [], ignored rfl, fun _ => (if_pos (.inr ended)).symm⟩
  case isFalse nonempty runs =>
    have busy : ¬(chunk = [] ∨ state.ended) := not_or.mpr ⟨nonempty, runs⟩
    simp only [outlay, if_neg busy, recorded_fst, recorded_retention]
    split
    case isTrue =>
      obtain ⟨made, memory, accounts, eq⟩ := decoder.feedAppended_accounts chunk heard
      exact ⟨made, memory, recording accounts, eq⟩
    case isFalse =>
      obtain ⟨made, memory, accounts, eq⟩ := decoder.feedDirect_accounts chunk heard
      exact ⟨made, memory, recording accounts, eq⟩

theorem finish_accounts (signal : EndSignal) (state : State σ φ ε μ) :
    ∃ made failed, Stage.Accounts decoder made failed [] state.toStage
        (decoder.finish signal state).2.toStage ∧
      (decoder.receiver.Steady → failed = warning (decoder.finish signal state)) := by
  cases ended : state.ended
  case true =>
    have noted : Stage.Accounts decoder [] [] [] state.toStage
        (state.note (.endedBefore signal)).toStage :=
      (Stage.Accounts.refl state.toStage).note rfl
    rw [finish_of_ended ended]
    refine ⟨_, _, noted.trans (forward_accounts signal (.done (), _)), fun steady => ?_⟩
    rw [warning_forward steady]
    rfl
  case false =>
    rcases flushed : decoder.flush state.retention.unread
      (state.retention.buffer.elim 0 Buffer.consumed) state.toStage with ⟨outcome, after⟩
    have ⟨made, accounts⟩ := decoder.flush_accounts state.retention.unread
      (state.retention.buffer.elim 0 Buffer.consumed) state.toStage
    rw [flushed] at accounts
    let settled : Outcome (DecodeError ε) Unit × State σ φ ε μ :=
      (outcome, { toStage := after, retention := state.retention.release, ended := true })
    have told : Stage.Accounts decoder made (warning (recorded settled)) [] state.toStage
      (recorded settled).2.toStage := recorded_accounts accounts
    have whole := told.trans (forward_accounts signal (recorded settled))
    rw [List.append_nil, List.append_nil] at whole
    rw [finish_of_runs ended flushed]
    exact ⟨made, _, whole, fun steady => (warning_forward steady signal).symm⟩

-- To give up what is retained cannot fail.
theorem abort_accounts (signal : EndSignal) (state : State σ φ ε μ) :
    Stage.Accounts decoder [] [] [] state.toStage (decoder.abort signal state).2.toStage ∧
      warning (decoder.abort signal state) = [] := by
  let given : State σ φ ε μ :=
    State.note { state with
      retention := if state.ended then state.retention else state.retention.release
      ended     := true }
      (.aborted (if state.ended then 0 else state.retention.unread.length) signal)
  have noted : Stage.Accounts decoder [] [] [] state.toStage given.toStage :=
    (Stage.Accounts.refl state.toStage).note rfl
  refine ⟨noted.trans (forward_accounts signal (.done (), given)), ?_⟩
  simp [warning, decoder.abort_ne_failed signal state]

theorem perform_accounts (call : Call μ) (state : State σ φ ε μ) :
    let result := decoder.perform call state
    ∃ made failed memory,
      Stage.Accounts decoder made failed memory state.toStage result.2.toStage ∧
      (decoder.receiver.Steady → failed = warning result) ∧
      (result.1.returns → memory = decoder.outlay call.chunk state result.2) := by
  have idle (after : State σ φ ε μ) : [] = decoder.outlay [] state after :=
    (if_pos (.inl rfl)).symm
  rcases call with (⟨chunk, source⟩ | content | signal) | ⟨chunk, source⟩ | signal | signal
  case receive.chunk | feed =>
    obtain ⟨made, memory, accounts, eq⟩ := decoder.feed_accounts chunk source state
    refine ⟨made, _, memory, accounts, fun _ => (warning_map ..).symm, fun returns => ?_⟩
    exact eq (decoder.returns_perform_feed chunk source state ▸ returns)
  case receive.message =>
    rcases handed : decoder.hand (.message content) state.toStage with ⟨fault, after⟩
    simp only [perform, receive, handed]
    refine ⟨[], [], [], hand_accounts rfl handed, fun _ => ?_, fun _ => idle _⟩
    cases fault <;> rfl
  case receive.ended | finish =>
    obtain ⟨made, failed, accounts, eq⟩ := decoder.finish_accounts signal state
    exact ⟨made, failed, [], accounts, fun steady => (eq steady).trans (warning_map ..).symm,
      fun _ => idle _⟩
  case abort =>
    obtain ⟨accounts, unfailing⟩ := decoder.abort_accounts signal state
    exact ⟨[], [], [], accounts, fun _ => unfailing.symm.trans (warning_map ..).symm, fun _ => idle _⟩

end Calls

section Run

variable (decoder)

-- The warnings of the calls that fail, each with what is retained after the call.
def warnings : List (Call μ) → State σ φ ε μ → List Notice
  | [], _                => []
  | call :: calls, state =>
    warning (decoder.perform call state) ++ warnings calls (decoder.perform call state).2

-- What all of the calls do about memory.
def outlays : List (Call μ) → State σ φ ε μ → List Activity
  | [], _                => []
  | call :: calls, state =>
    let after := (decoder.perform call state).2
    decoder.outlay call.chunk state after ++ outlays calls after

theorem run_accounts (calls : List (Call μ)) (state : State σ φ ε μ) :
    let run := decoder.run calls state
    ∃ made failed memory,
      Stage.Accounts decoder made failed memory state.toStage run.2.toStage ∧
      (decoder.receiver.Steady → failed = decoder.warnings calls state) ∧
      ((∀ outcome ∈ run.1, outcome.returns) → memory = decoder.outlays calls state) := by
  induction calls generalizing state
  case nil => exact ⟨[], [], [], .refl _, fun _ => rfl, fun _ => rfl⟩
  case cons call calls ih =>
    have ⟨made, failed, memory, first, warned, spent⟩ := decoder.perform_accounts call state
    have ⟨made', failed', memory', rest, warned', spent'⟩ := ih (decoder.perform call state).2
    refine ⟨_, _, _, first.trans rest, fun steady => ?_, fun returns => ?_⟩
    · rw [warned steady, warned' steady, warnings]
    · have ⟨here, later⟩ := List.forall_mem_cons.mp returns
      rw [spent here, spent' later, outlays]

-- Whether the call lets the strategy decode, unless it is ignored.
def Call.decodes : Call μ → Bool
  | receive (.message _) | abort _ => false
  | _                              => true

theorem perform_ne_failed {call : Call μ} (idle : call.decodes = false) (state : State σ φ ε μ)
    (error : DecodeError ε) : (decoder.perform call state).1 ≠ .failed error := by
  rcases call with (⟨chunk, source⟩ | content | signal) | ⟨chunk, source⟩ | signal | signal
  case receive.chunk | feed | receive.ended | finish => cases idle
  case receive.message =>
    rcases handed : decoder.hand (.message content) state.toStage with ⟨_ | _, _⟩ <;>
      simp [perform, receive, handed, perform.unit, Outcome.map]
  case abort =>
    exact fun failed => decoder.abort_ne_failed signal state error (Outcome.eq_failed_of_map failed)

-- The calls that come out as failures of that kind.
def failing (kind : DecodeError.Kind) (calls : List (Call μ)) (state : State σ φ ε μ) : Nat :=
  (calls.zip (decoder.run calls state).1).countP fun (call, outcome) =>
    call.decodes && outcome.failure? = some kind

theorem countP_warnings (kind : DecodeError.Kind) (calls : List (Call μ)) (state : State σ φ ε μ) :
    (decoder.warnings calls state).countP (·.failure? = some kind) =
      decoder.failing kind calls state := by
  induction calls generalizing state
  case nil => rfl
  case cons call calls ih =>
    have here : (warning (decoder.perform call state)).countP (·.failure? = some kind) =
        if call.decodes && (decoder.perform call state).1.failure? = some kind then 1 else 0 := by
      rcases performed : decoder.perform call state with ⟨_ | error | _, after⟩
      case done | faulted => simp [warning, Outcome.failure?]
      case failed =>
        have decodes : call.decodes := by
          by_contra idle
          have unfailing := decoder.perform_ne_failed (eq_false_of_ne_true idle) state error
          exact unfailing (congrArg Prod.fst performed)
        simp [warning, Notice.failure?, Outcome.failure?, decodes]
    rw [warnings, List.countP_append, ih, here]
    simp only [failing, run, List.zip_cons_cons, List.countP_cons]
    omega

end Run

-- As the calls so far are a run, too, what is said of the last state holds after every call.
theorem run_tells_frames_and_failures (decoder : Decoder σ φ ε μ)
    (steady : decoder.receiver.Steady) (start : σ) (calls : List (Call μ)) :
    let run      := decoder.run calls (.initial start)
    let trace    := run.2.trace
    let frames   := (trace.events.flatMap Event.frames).length
    let warned   := trace.notices.filter (·.failure?.isSome)
    let warnings := decoder.warnings calls (.initial start)
    Metric.amount (· = .frames) trace.increments = frames ∧
    Counter.reading .frames trace.increments = UInt64.ofNat frames ∧
    run.2.context.results = trace.invocations.countP (·.yields) ∧
    trace.dispatched = trace.invocations.flatMap (·.announced decoder.grouping) ∧
    (decoder.grouping = .together → run.2.context.results = trace.dispatched.length) ∧
    (∀ kind : DecodeError.Kind,
      let failing := decoder.failing kind calls (.initial start)
      Metric.amount (· = .errors kind.name) trace.increments = failing ∧
      Counter.reading (.errors kind.name) trace.increments = UInt64.ofNat failing ∧
      warnings.countP (·.failure? = some kind) = failing) ∧
    warnings.Sublist warned ∧ (decoder.strategy.Discreet → warned = warnings) := by
  intro run trace frames warned warnings
  let begun : State σ φ ε μ := .initial start
  have ⟨made, failed, memory, accounts, same, _⟩ := decoder.run_accounts calls begun
  have ⟨counted, added, tells, activities, whole⟩ := accounts.activities
  have follows : begun.Follows [] := .initial start
  have logged : decoder.Logged 0 (decoder.log calls [] begun) begun run.2 := follows.logged calls
  have invocations : trace.invocations = made := accounts.invocations
  have dispatched : trace.dispatched = made.flatMap (·.announced decoder.grouping) :=
    accounts.dispatched steady
  have told : trace.activities = added := activities
  have results : run.2.context.results = made.countP (·.yields) := by
    have all := logged.invocations.symm.trans accounts.invocations
    have counted := logged.results
    rw [List.append_cancel_left all] at counted
    exact counted.trans (Nat.zero_add _)
  have frames_eq : Metric.amount (· = .frames) trace.increments = frames := by
    have each : frames = (made.flatMap (·.yielded)).length := by
      simp only [frames, ← Trace.flatMap_frames_dispatched, dispatched, List.flatMap_assoc,
        Trace.Invoked.flatMap_frames_announced]
    rw [each, ← whole steady, ← tells.frames, ← told]
    rfl
  have errors_eq (kind : DecodeError.Kind) : Metric.amount (· = .errors kind.name) trace.increments =
      decoder.failing kind calls begun := by
    rw [← countP_warnings, ← same steady, ← tells.errors kind, ← told]
    rfl
  refine ⟨frames_eq, ?_, ?_, ?_, ?_, fun kind => ⟨errors_eq kind, ?_, ?_⟩, ?_, ?_⟩
  · rw [Counter.reading_eq, frames_eq]
  · rw [results, invocations]
  · rw [dispatched, invocations]
  · intro together
    rw [results, dispatched, together, Trace.length_flatMap_announced]
  · rw [Counter.reading_eq, errors_eq]
  · exact decoder.countP_warnings kind calls begun
  · have sublist := tells.warned
    rw [same steady, ← told] at sublist
    exact sublist
  · intro discreet
    have exactly := tells.warnings discreet
    rw [same steady, ← told] at exactly
    exact exactly

-- A frame, a group and an empty group, for which the strategy is invoked before it fails; later it
-- faults, stalls, and fails again at the end. Behind that there is nothing more to tell of.
theorem run_tells_frames_and_failures_across_faults :
    let script : Script := { entries := [
      { operations := [.take 1], reply := .joined },
      { operations := [.take 1], reply := .group [[7], [8]] },
      { operations := [.take 1], reply := .group [] }, { reply := .error "bad" },
      { reply := .fault "broken" }, { reply := .joined }, { reply := .error "late" } ] }
    let decoder : Decoder _ _ _ Unit :=
      { strategy := script.strategy, receiver := .collecting }
    let calls : List (Call Unit) := [.feed [1, 2, 3, 4] none, .feed [5] none,
      .receive (.message ()), .feed [6] none, .finish .closed, .feed [7] none, .abort .closed]
    let run   := decoder.run calls (.initial {})
    let trace := run.2.trace
    run.1 = [.failed (.strategy "bad"), .faulted (.raised "broken"), .done .unit,
      .failed (.stalled 0), .failed (.strategy "late"), .done .unit, .done (.discarded 0)] ∧
    trace.dispatched = [.frame [1] none, .batch [[7], [8]] none, .batch [] none] ∧
    Counter.reading .frames trace.increments = 3 ∧ run.2.context.results = 3 ∧
    Counter.reading (.errors "strategy") trace.increments = 2 ∧
    Counter.reading (.errors "no_progress") trace.increments = 1 ∧
    trace.notices.filter (·.failure?.isSome) = [.failed .strategy false none 1,
      .failed .stalled true none 3, .failed .strategy false none 0] := by
  intro script decoder calls run trace
  have ⟨_, frames, _, _, together, failures, _, warned⟩ :=
    run_tells_frames_and_failures decoder Receiver.collecting_steady {} calls
  have dispatched : trace.dispatched =
      [.frame [1] none, .batch [[7], [8]] none, .batch [] none] := by decide +kernel
  have length : (trace.events.flatMap Event.frames).length = 3 := by decide +kernel
  have failing : decoder.failing .strategy calls (.initial {}) = 2 := by decide +kernel
  have stalling : decoder.failing .stalled calls (.initial {}) = 1 := by decide +kernel
  have ⟨_, errors, _⟩  := failures .strategy
  have ⟨_, defects, _⟩ := failures .stalled
  refine ⟨by decide +kernel, dispatched, frames.trans (congrArg UInt64.ofNat length), ?_,
    errors.trans (congrArg UInt64.ofNat failing), defects.trans (congrArg UInt64.ofNat stalling), ?_⟩
  · exact (together rfl).trans (congrArg List.length dispatched)
  · exact (warned script.strategy_discreet).trans (by decide +kernel)

end Decoder
end Framing
