import Framing.Proofs.Flushing
import Framing.Proofs.Fragmentation
import Framing.Proofs.Positions

/-!
What a strategy answers in the course of a run. Wherever a call leaves a decoder, the strategy is in a
state that it can get into, and at the end of the stream it is shown nothing but what it has waited
on. So what each of its answers is known to be like, all that is dispatched is like.
-/

namespace Framing

variable {σ φ ε μ : Type}

-- The frames that the event dispatches.
def Event.frames : Event φ μ → List φ
  | frame f _    => [f]
  | batch list _ => list
  | _            => []

theorem Event.isDecoded_of_mem_frames {event : Event φ μ} {frame : φ} (mem : frame ∈ event.frames) :
    event.isDecoded := by
  cases event
  case frame | batch   => rfl
  case message | ended => cases mem

theorem Found.mem_frames_of_mem_events {found : Found φ} {grouping : Grouping} {source : Source}
    {event : Event φ μ} (h : event ∈ found.events grouping source) {frame : φ}
    (mem : frame ∈ event.frames) : frame ∈ found.frames := by
  cases found
  case nothing => cases h
  case frame   =>
    obtain rfl := List.mem_singleton.mp h
    exact mem
  case group =>
    cases grouping
    case together =>
      obtain rfl := List.mem_singleton.mp h
      exact mem
    case apart =>
      obtain ⟨_, member, rfl⟩ := List.mem_map.mp h
      exact List.mem_singleton.mp mem ▸ member

theorem Trace.Invoked.forall_mem_found {invoked : Trace.Invoked φ ε} {good : φ → Prop}
    (h : ∀ found, invoked.outcome = .done found → ∀ frame ∈ found.frames, good frame) :
    ∀ frame ∈ invoked.found.frames, good frame := by
  simp only [Trace.Invoked.found]
  split
  case h_1 found outcome => exact h found outcome
  case h_2 =>
    intro frame mem
    cases mem

-- No frame is dispatched that an invocation has not found.
theorem Trace.Dispatches.exists_invoked {grouping : Grouping} {made : List (Trace.Invoked φ ε)}
    {handed : List (Event φ μ)} (dispatches : Trace.Dispatches grouping made handed)
    {event : Event φ μ} (handed_mem : event ∈ handed) {frame : φ} (mem : frame ∈ event.frames) :
    ∃ invoked ∈ made, frame ∈ invoked.found.frames := by
  induction dispatches
  case nil => cases handed_mem
  case cons invoked _ _ _ most _ ih =>
    rcases List.mem_append.mp handed_mem with here | later
    case inl =>
      exact ⟨invoked, List.mem_cons_self, Found.mem_frames_of_mem_events (most.subset here) mem⟩
    case inr =>
      have ⟨invoked, made_mem, found⟩ := ih later
      exact ⟨invoked, List.mem_cons_of_mem _ made_mem, found⟩

namespace Strategy

-- What a pass that goes well leaves unread, and the state that it leaves the strategy in: nothing, or
-- what the strategy waits on.
inductive Leaves (strategy : Strategy σ φ ε) (valid : σ → Prop) : (unread : Bytes) → σ → Prop
  | exhausted {state} (first : valid state) : Leaves strategy valid [] state
  | waiting {state context unread} (first : valid state)
    (waits : (strategy.decode state context unread).Waits) :
    Leaves strategy valid unread (strategy.decode state context unread).state

theorem Leaves.valid {strategy : Strategy σ φ ε} {valid : σ → Prop} {unread : Bytes} {state : σ}
    (leaves : strategy.Leaves valid unread state)
    (keeps : ∀ state context unread, valid state → valid (strategy.decode state context unread).state) :
    valid state := by
  cases leaves
  case exhausted first => exact first
  case waiting first _ => exact keeps _ _ _ first

-- As long as the stream goes on, the strategy stays in states that are `valid`, and all of its
-- invocations are as `promised`.
structure Promises (strategy : Strategy σ φ ε) (valid : σ → Prop)
    (promised : Trace.Invoked φ ε → Prop) : Prop where
  keeps    : ∀ state context unread, valid state →
    valid (strategy.decode state context unread).state
  decode   : ∀ state context unread, valid state →
    let invocation := strategy.decode state context unread
    promised ⟨false, context, unread, invocation.outcome, invocation.consumed⟩
  conclude : ∀ state context unread, strategy.Leaves valid unread state →
    let invocation := strategy.conclude state context unread
    promised ⟨true, context, unread, invocation.outcome, invocation.consumed⟩

end Strategy

namespace Decoder

variable {decoder : Decoder σ φ ε μ} {valid : σ → Prop} {promised : Trace.Invoked φ ε → Prop}
variable {stage after : Stage σ φ ε μ} {unread : Bytes}

-- All invocations on record are as `promised`.
def Stage.Fulfils (promised : Trace.Invoked φ ε → Prop) (stage : Stage σ φ ε μ) : Prop :=
  ∀ invoked ∈ stage.trace.invocations, promised invoked

theorem Stage.Fulfils.grows (fulfils : stage.Fulfils promised) {made : List (Trace.Invoked φ ε)}
    {handed : List (Event φ μ)} (grows : Stage.Grows made handed stage after)
    (new : ∀ invoked ∈ made, promised invoked) : after.Fulfils promised := by
  rw [Stage.Fulfils, grows.invocations]
  exact List.forall_mem_append.mpr ⟨fulfils, new⟩

theorem Stage.Fulfils.act (fulfils : stage.Fulfils promised) (activities : List Activity) :
    (stage.act activities).Fulfils promised :=
  fulfils.grows ((Stage.Grows.refl stage).act activities) nofun

theorem Stage.Fulfils.dispatch (fulfils : stage.Fulfils promised) {found : Found φ} {source : Source}
    {fault : Option Fault} (dispatched : decoder.dispatch found source stage = (fault, after)) :
    after.Fulfils promised :=
  have ⟨_, _, _, grows⟩ := dispatch_grows dispatched
  fulfils.grows grows nofun

section Promises

variable (promises : decoder.strategy.Promises valid promised)
include promises

section Invoke

variable {outcome : Outcome ε (Found φ)} {consumed : Nat}

theorem invoke_fulfils (invoked : decoder.invoke false unread stage = (outcome, consumed, after))
    (first : valid stage.strategyState) (fulfils : stage.Fulfils promised) :
    valid after.strategyState ∧ after.Fulfils promised := by
  have ⟨_, eq⟩ := invoke_eq invoked
  have keeps := promises.keeps stage.strategyState stage.context unread first
  have new   := promises.decode stage.strategyState stage.context unread first
  rw [← invocation_false, eq] at keeps new
  exact ⟨keeps, fulfils.grows (invoke_grows invoked) (List.forall_mem_singleton.mpr new)⟩

-- What a strategy answers at the end depends on the state in which it waits.
theorem invoke_last_fulfils
    (invoked : decoder.invoke true unread stage = (outcome, consumed, after))
    (leaves : decoder.strategy.Leaves valid unread stage.strategyState)
    (fulfils : stage.Fulfils promised) : after.Fulfils promised := by
  have ⟨_, eq⟩ := invoke_eq invoked
  have new := promises.conclude stage.strategyState stage.context unread leaves
  rw [← invocation_true, eq] at new
  exact fulfils.grows (invoke_grows invoked) (List.forall_mem_singleton.mpr new)

end Invoke

-- By induction on the rounds: each makes one invocation, in the state that the one before it left.
theorem Rounds.fulfils {position results : Nat} {pass : Pass σ φ ε μ}
    (rounds : decoder.Rounds unread position results stage pass)
    (first : valid stage.strategyState) (fulfils : stage.Fulfils promised) :
    valid pass.stage.strategyState ∧ pass.stage.Fulfils promised ∧
      ∀ total, pass.outcome = .done total →
        decoder.strategy.Leaves valid pass.unread pass.stage.strategyState := by
  induction rounds
  case exhausted => exact ⟨first, fulfils.act _, fun _ _ => .exhausted first⟩
  case waiting unread _ _ stage _ _ h =>
    have ⟨next, fulfils⟩ := invoke_fulfils promises h first fulfils
    have ⟨_, eq⟩ := invoke_eq h
    rw [invocation_false] at eq
    have leaves : decoder.strategy.Leaves valid unread
        (decoder.strategy.decode stage.strategyState stage.context unread).state :=
      .waiting first (by rw [eq]; exact ⟨rfl, rfl⟩)
    rw [eq] at leaves
    exact ⟨next, fulfils.act _, fun _ _ => leaves⟩
  case failed h | faulted h =>
    have ⟨next, fulfils⟩ := invoke_fulfils promises h first fulfils
    exact ⟨next, fulfils, nofun⟩
  case stalled h _ =>
    have ⟨next, fulfils⟩ := invoke_fulfils promises h first fulfils
    exact ⟨next, fulfils.act _, nofun⟩
  case refused h _ _ d =>
    have ⟨next, fulfils⟩ := invoke_fulfils promises h first fulfils
    exact ⟨dispatch_strategyState d ▸ next, fulfils.dispatch d, nofun⟩
  case skipped h _ _ ih =>
    have ⟨next, fulfils⟩ := invoke_fulfils promises h first fulfils
    exact ih next (fulfils.act _)
  case dispatched h _ _ d _ ih =>
    have ⟨next, fulfils⟩ := invoke_fulfils promises h first fulfils
    exact ih (dispatch_strategyState d ▸ next) (fulfils.dispatch d)

theorem conclude_fulfils (leaves : decoder.strategy.Leaves valid unread stage.strategyState)
    (fulfils : stage.Fulfils promised) : (decoder.conclude unread stage).2.Fulfils promised := by
  rcases invoked : decoder.invoke true unread stage with ⟨_ | _ | _, consumed, after⟩
  all_goals have fulfils := invoke_last_fulfils promises invoked leaves fulfils
  case failed  => exact conclude_of_failed invoked ▸ fulfils
  case faulted =>
    rw [conclude, invoked]
    exact fulfils
  case done =>
    have left := fulfils.act (discarding (unread.length - consumed))
    rw [conclude_of_done invoked]
    dsimp only
    split
    case isTrue  => exact left.dispatch (Prod.eta _).symm
    case isFalse => exact left

theorem flush_fulfils (position : Nat) (first : valid stage.strategyState)
    (fulfils : stage.Fulfils promised) :
    (decoder.flush unread position stage).2.Fulfils promised := by
  let begun := stage.beginEnding.note (.ending unread.length)
  have begun_fulfils : begun.Fulfils promised := fulfils.grows (beginEnding_grows stage _) nofun
  have rounds := decoder.rounds_pass unread position 0 begun
  have ⟨_, passed, leaves⟩ := rounds.fulfils promises first begun_fulfils
  by_cases went : ∃ total, (decoder.pass unread position 0 begun).outcome = .done total
  case pos =>
    have ⟨total, done⟩ := went
    have ⟨last, _, settled, flushed⟩ := flush_of_done rounds done
    have leaves := leaves total done
    rw [settled] at leaves passed
    rw [flushed]
    refine conclude_fulfils promises leaves ?_
    simpa only [Stage.Fulfils, Stage.invocations_act] using passed
  case neg =>
    rw [flush_of_broken rounds fun total done => went ⟨total, done⟩]
    exact passed

variable {state : State σ φ ε μ} (first : valid state.strategyState)
variable (fulfils : state.toStage.Fulfils promised)
include first fulfils

theorem feed_fulfils (sound : state.retention.Sound) (chunk : Bytes) (source : Source) :
    valid (decoder.feed chunk source state).2.strategyState ∧
      (decoder.feed chunk source state).2.toStage.Fulfils promised := by
  rcases decoder.feed_cases chunk source sound with ⟨notice, eq⟩ | ⟨pass, fed⟩
  case inl => exact eq ▸ ⟨first, fulfils.act _⟩
  case inr =>
    have ⟨_, merging, rounds⟩ := fed.rounds
    have ⟨settling, stage⟩ := fed.stage
    have heard : (state.toStage.hearing source).Fulfils promised := fulfils
    have ⟨next, passed, _⟩ := rounds.fulfils promises first (heard.act merging)
    exact stage ▸ ⟨next, passed.act settling⟩

theorem finish_fulfils (runs : state.ended = false) (signal : EndSignal) :
    (decoder.finish signal state).2.toStage.Fulfils promised := by
  let flushed := decoder.flush state.retention.unread
    (state.retention.buffer.elim 0 Buffer.consumed) state.toStage
  let settled : Outcome (DecodeError ε) Unit × State σ φ ε μ := recorded
    (flushed.1, { toStage := flushed.2, retention := state.retention.release, ended := true })
  have flushed_fulfils : flushed.2.Fulfils promised := flush_fulfils promises _ first fulfils
  have ⟨settling, stage, _⟩ := recorded_stage
    (flushed.1, { toStage := flushed.2, retention := state.retention.release, ended := true })
  have settled_fulfils : settled.2.toStage.Fulfils promised := stage ▸ flushed_fulfils.act settling
  rw [finish_of_runs runs rfl]
  exact settled_fulfils.grows (forward_grows signal settled) nofun

end Promises

-- As long as the stream goes on, so can the strategy.
structure State.Fulfils (valid : σ → Prop) (promised : Trace.Invoked φ ε → Prop)
    (state : State σ φ ε μ) : Prop where
  valid    : state.ended = false → valid state.strategyState
  promised : state.toStage.Fulfils promised
  sound    : state.retention.Sound

namespace State.Fulfils

variable {state : State σ φ ε μ}

theorem initial {start : σ} (first : valid start) :
    Fulfils valid promised (.initial start : State σ φ ε μ) where
  valid _  := first
  promised := nofun
  sound    := Retention.initial_rests.sound

variable (promises : decoder.strategy.Promises valid promised)
variable (fulfils : state.Fulfils valid promised)
include promises fulfils

theorem perform (call : Call μ) : (decoder.perform call state).2.Fulfils valid promised := by
  have sound := decoder.perform_sound call fulfils.sound
  cases ended : state.ended
  case true =>
    have ⟨_, grows, _⟩ := decoder.perform_of_ended call ended
    refine ⟨fun runs => ?_, fulfils.promised.grows grows nofun, sound⟩
    simp [perform_ended, ended] at runs
  case false =>
    have first := fulfils.valid ended
    rcases call with (⟨chunk, source⟩ | content | signal) | ⟨chunk, source⟩ | signal | signal
    case receive.chunk | feed =>
      have ⟨next, fed⟩ := feed_fulfils promises first fulfils.promised fulfils.sound chunk source
      exact ⟨fun _ => next, fed, sound⟩
    case receive.message =>
      have same : (decoder.perform (.receive (.message content)) state).2.strategyState =
          state.strategyState := hand_strategyState (Prod.eta _).symm
      exact ⟨fun _ => same ▸ first,
        fulfils.promised.grows (hand_grows (Prod.eta _).symm) nofun, sound⟩
    case receive.ended | finish =>
      have finished := finish_fulfils promises first fulfils.promised ended signal
      exact ⟨fun runs => absurd runs (by simp [perform_ended, Call.signal?]), finished, sound⟩
    case abort =>
      have aborted : (decoder.abort signal state).2.toStage.Fulfils promised :=
        fulfils.promised.grows (abort_grows signal state) nofun
      exact ⟨fun runs => absurd runs (by simp [perform_ended, Call.signal?]), aborted, sound⟩

theorem run (calls : List (Call μ)) : (decoder.run calls state).2.Fulfils valid promised := by
  induction calls generalizing state
  case nil            => exact fulfils
  case cons call _ ih => exact ih (fulfils.perform promises call)

end State.Fulfils

-- Every invocation is as promised, and behind each frame that is dispatched there is one.
theorem run_answers (promises : decoder.strategy.Promises valid promised) (start : σ)
    (first : valid start) (calls : List (Call μ)) :
    let trace := (decoder.run calls (.initial start)).2.trace
    (∀ invoked ∈ trace.invocations, promised invoked) ∧
    ∀ event ∈ trace.events, ∀ frame ∈ event.frames,
      ∃ invoked ∈ trace.invocations, frame ∈ invoked.found.frames := by
  intro trace
  let begun : State σ φ ε μ := .initial start
  have begun_fulfils : State.Fulfils valid promised begun := .initial first
  have fulfils := begun_fulfils.run promises calls
  refine ⟨fulfils.promised, fun event mem frame frame_mem => ?_⟩
  have follows : begun.Follows [] := .initial start
  have logged : decoder.Logged 0 (decoder.log calls [] begun) begun (decoder.run calls begun).2 :=
    follows.logged calls
  have ⟨handed, dispatches, dispatched⟩ := logged.dispatched
  have dispatched : trace.dispatched = handed := dispatched
  have handed_mem : event ∈ handed :=
    dispatched ▸ List.mem_filter.mpr ⟨mem, Event.isDecoded_of_mem_frames frame_mem⟩
  have ⟨invoked, made, found⟩ := dispatches.exists_invoked handed_mem frame_mem
  have recorded : invoked ∈ trace.invocations := by
    rw [logged.invocations]
    exact List.mem_append_right _ made
  exact ⟨invoked, recorded, found⟩

end Decoder
end Framing
