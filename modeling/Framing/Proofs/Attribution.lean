import Framing.Proofs.Accounts
import Mathlib.Data.List.Induction

/-!
What the strategy is told of the stream, and which source the frames are handed over with. Both come
from the call: the source of the chunk that was fed last, or none once the stream is over, however
many chunks a frame was in. The number of results counts those that have been handed over so far.
-/

namespace Framing

variable {σ φ ε μ : Type}

-- The invocation was told how many results there are in the `past`, and all of them had been handed
-- over by then.
structure Trace.Invoked.Informed (grouping : Grouping) (past : Trace φ ε μ) (invoked : Invoked φ ε) :
    Prop where
  results    : invoked.context.results = past.invocations.countP (·.yields)
  dispatched : past.dispatched = past.invocations.flatMap (·.announced grouping)

-- Where groups stay together, the results are as many as the events that dispatch them.
theorem Trace.Invoked.Informed.results_eq_length {past : Trace φ ε μ} {invoked : Invoked φ ε}
    (informed : invoked.Informed .together past) :
    invoked.context.results = past.dispatched.length := by
  rw [informed.results, informed.dispatched, length_flatMap_announced]

namespace Decoder

variable {decoder : Decoder σ φ ε μ} {stage after final : Stage σ φ ε μ}

-- Each of the invocations on record was informed of what is on record before it.
def Stage.Informs (decoder : Decoder σ φ ε μ) (stage : Stage σ φ ε μ) : Prop :=
  ∀ earlier invoked later, stage.trace.toList = earlier ++ .invoked invoked :: later →
    invoked.Informed decoder.grouping earlier.toArray

-- All that was found has been handed over, and an invocation would be informed of it.
structure Stage.Settled (decoder : Decoder σ φ ε μ) (stage : Stage σ φ ε μ) : Prop where
  results    : stage.context.results = stage.trace.invocations.countP (·.yields)
  dispatched : stage.trace.dispatched = stage.trace.invocations.flatMap (·.announced decoder.grouping)
  informs    : stage.Informs decoder

-- Nothing was invoked between two stages.
def Stage.Idle (before after : Stage σ φ ε μ) : Prop :=
  ∃ added, after.trace.toList = before.trace.toList ++ added ∧
    added.filterMap Trace.Entry.invocation? = []

namespace Stage.Idle

variable {s₁ s₂ s₃ : Stage σ φ ε μ}

theorem refl (stage : Stage σ φ ε μ) : Idle stage stage :=
  ⟨[], (List.append_nil _).symm, rfl⟩

theorem trans (idle : Idle s₁ s₂) (idle' : Idle s₂ s₃) : Idle s₁ s₃ := by
  obtain ⟨_, eq, silent⟩   := idle
  obtain ⟨_, eq', silent'⟩ := idle'
  exact ⟨_, by rw [eq', eq, List.append_assoc], by rw [List.filterMap_append, silent, silent']; rfl⟩

theorem act (idle : Idle s₁ s₂) (activities : List Activity) : Idle s₁ (s₂.act activities) :=
  idle.trans ⟨_, s₂.trace_act activities,
    by simp [List.filterMap_map, Function.comp_def, Trace.Entry.invocation?]⟩

end Stage.Idle

theorem hand_idle {event : Event φ μ} {fault : Option Fault}
    (h : decoder.hand event stage = (fault, after)) : stage.Idle after := by
  obtain ⟨_, _, rfl⟩ := hand_eq h
  exact Stage.Idle.act ⟨[.handed event _], Array.toList_push, rfl⟩ _

theorem handAll_idle (events : List (Event φ μ)) (stage : Stage σ φ ε μ) :
    stage.Idle (decoder.handAll events stage).2 := by
  fun_induction decoder.handAll events stage
  case case1      => exact .refl _
  case case2 h ih => exact (hand_idle h).trans ih
  case case3 h    => exact hand_idle h

theorem dispatch_idle {found : Found φ} {source : Source} {fault : Option Fault}
    (h : decoder.dispatch found source stage = (fault, after)) : stage.Idle after := by
  obtain ⟨activities, eq⟩ := dispatch_eq h
  cases eq
  have handing : stage.Idle (decoder.handAll (found.events decoder.grouping source)
    stage.countResult).2 := decoder.handAll_idle _ _
  exact handing.act activities

namespace Stage

theorem Informs.idle (informs : stage.Informs decoder) (idle : stage.Idle after) :
    after.Informs decoder := by
  obtain ⟨added, added_eq, silent⟩ := idle
  intro earlier invoked later split
  have absent (more : List (Trace.Entry φ ε μ)) : added ≠ more ++ .invoked invoked :: later := by
    rintro rfl
    simp [Trace.Entry.invocation?] at silent
  rw [added_eq] at split
  rcases List.append_eq_append_iff.mp split with ⟨more, _, behind⟩ | ⟨rest, before, behind⟩
  case inl => exact absurd behind (absent more)
  case inr =>
    cases rest
    case nil => exact absurd behind.symm (absent [])
    case cons =>
      obtain ⟨rfl, _⟩ := List.cons.inj behind
      exact informs _ _ _ before

namespace Settled

variable (settled : stage.Settled decoder)
include settled

-- What is neither a result nor an event that dispatches one makes no difference.
theorem idle {handed : List (Event φ μ)} (idle : stage.Idle after)
    (grows : Stage.Grows [] handed stage after) (undecoded : handed.filter (·.isDecoded) = [])
    (results : after.context.results = stage.context.results) : after.Settled decoder where
  results    := by rw [results, settled.results, grows.invocations, List.append_nil]
  dispatched := by
    rw [grows.dispatched_eq, undecoded, settled.dispatched, grows.invocations, List.append_nil,
      List.append_nil]
  informs    := settled.informs.idle idle

theorem act (activities : List Activity) : (stage.act activities).Settled decoder :=
  settled.idle ((Idle.refl _).act activities)
    ((Grows.refl stage).act activities) rfl rfl

end Settled
end Stage

section Invoke

variable {last : Bool} {unread : Bytes} {outcome : Outcome ε (Found φ)} {consumed : Nat}
variable (settled : stage.Settled decoder)
include settled

-- An invocation is told what is settled, and nothing behind it is another one.
theorem invoke_informs (h : decoder.invoke last unread stage = (outcome, consumed, after)) :
    after.Informs decoder := by
  let invoked : Trace.Invoked φ ε := ⟨last, stage.context, unread, outcome, consumed⟩
  let noted   : Stage σ φ ε μ := { stage with trace := stage.trace.push (.invoked invoked) }
  have noted_eq : noted.trace.toList = stage.trace.toList ++ [.invoked invoked] :=
    Array.toList_push
  have informs : noted.Informs decoder := by
    intro earlier invoked' later split
    rw [noted_eq] at split
    cases later using List.reverseRecOn
    case nil =>
      obtain ⟨rfl, same⟩ := List.append_inj' split rfl
      cases same
      exact ⟨settled.results, settled.dispatched⟩
    case append_singleton later entry _ =>
      rw [← List.cons_append, ← List.append_assoc] at split
      obtain ⟨before, _⟩ := List.append_inj' split rfl
      exact settled.informs _ _ _ before
  have idle : noted.Idle (noted.act ((decoder.invocation last unread stage).notices.map .noted)) :=
    (Stage.Idle.refl _).act _
  cases h
  exact informs.idle idle

-- An invocation whose result, if there is one, is not dispatched.
theorem invoke_settled (h : decoder.invoke last unread stage = (outcome, consumed, after))
    (silent : Trace.Invoked.yields ⟨last, stage.context, unread, outcome, consumed⟩ = false) :
    after.Settled decoder where
  results    := by
    rw [invoke_context h, settled.results, (invoke_grows h).invocations, List.countP_append]
    simp [silent]
  dispatched := by
    rw [(invoke_grows h).dispatched_eq, settled.dispatched, (invoke_grows h).invocations]
    simp [Trace.Invoked.announced, silent]
  informs    := invoke_informs settled h

-- An invocation whose result is dispatched to the end.
theorem dispatch_settled {found : Found φ}
    (h : decoder.invoke last unread stage = (.done found, consumed, after)) (noting : List Activity)
    (d : decoder.dispatch found stage.context.source (after.act noting) = (none, final))
    (yields : Trace.Invoked.yields (ε := ε) ⟨last, stage.context, unread, .done found, consumed⟩) :
    final.Settled decoder := by
  have grows := (invoke_grows h).act noting
  have ⟨handed, _, all, handing⟩ := dispatch_grows d
  obtain rfl := all rfl
  have idle : after.Idle final :=
    ((Stage.Idle.refl after).act noting).trans (dispatch_idle d)
  have invocations := (grows.trans handing).invocations
  have decoded : (found.events decoder.grouping stage.context.source).filter (·.isDecoded) =
      found.events (μ := μ) decoder.grouping stage.context.source :=
    List.filter_eq_self.mpr fun _ => Found.isDecoded_of_mem_events
  refine ⟨?_, ?_, (invoke_informs settled h).idle idle⟩
  · rw [dispatch_context d, Stage.countResult, Stage.context_act, invoke_context h, invocations,
      settled.results]
    simp [List.countP_append, yields]
  · rw [(grows.trans handing).dispatched_eq, invocations, settled.dispatched]
    simp [decoded, Trace.Invoked.announced, yields, Trace.Invoked.found]

end Invoke

section Steady

variable (steady : decoder.receiver.Steady)
include steady

-- By induction on the rounds: whatever is found is handed over before the next invocation.
theorem Rounds.settled {unread : Bytes} {position results : Nat} {pass : Pass σ φ ε μ}
    (rounds : decoder.Rounds unread position results stage pass)
    (settled : stage.Settled decoder) : pass.stage.Settled decoder := by
  induction rounds
  case exhausted          => exact settled.act _
  case waiting h          => exact (invoke_settled settled h rfl).act _
  case failed h           => exact invoke_settled settled h rfl
  case faulted h          => exact invoke_settled settled h rfl
  case stalled h _        =>
    exact (invoke_settled settled h (by simp [Trace.Invoked.yields])).act _
  case refused d          => cases (congrArg Prod.fst d).symm.trans (dispatch_fault_of_steady steady ..)
  case skipped h _ _ ih   => exact ih ((invoke_settled settled h rfl).act _)
  case dispatched h isResult progress d _ ih =>
    rw [invoke_context h] at d
    exact ih (dispatch_settled settled h [] d
      (Trace.Invoked.yields_of_progress _ rfl isResult progress))

variable (settled : stage.Settled decoder)
include settled

-- At the end of the stream a result need not have consumed anything.
theorem conclude_settled (sourceless : stage.context.source = none) (unread : Bytes) :
    (decoder.conclude unread stage).2.Settled decoder := by
  rcases h : decoder.invoke true unread stage with ⟨outcome, consumed, after⟩
  cases outcome
  case failed | faulted =>
    simp only [conclude, h]
    exact invoke_settled settled h rfl
  case done found =>
    let noting := discarding (unread.length - consumed)
    have yields : (⟨true, stage.context, unread, .done found, consumed⟩ :
        Trace.Invoked φ ε).yields = found.isResult := by
      simp [Trace.Invoked.yields, Trace.Invoked.found]
    rw [conclude_of_done h]
    cases isResult : found.isResult
    case false => exact (invoke_settled settled h (yields.trans isResult)).act noting
    case true  =>
      rcases d : decoder.dispatch found none (after.act noting) with ⟨fault, final⟩
      have accepted : fault = none :=
        (congrArg Prod.fst d).symm.trans (dispatch_fault_of_steady steady ..)
      subst accepted
      simp only [show decoder.dispatch found none (after.act (discarding _)) = _ from d]
      exact dispatch_settled settled h noting (sourceless ▸ d) (yields.trans isResult)

theorem flush_settled (unread : Bytes) (position : Nat) :
    (decoder.flush unread position stage).2.Settled decoder := by
  let begun := stage.beginEnding.note (.ending unread.length)
  have started : stage.beginEnding.Settled decoder :=
    ⟨settled.results, settled.dispatched, settled.informs⟩
  have first : begun.Settled decoder := started.act _
  simp only [flush]
  split
  case isTrue => exact conclude_settled steady first rfl unread
  case isFalse =>
    have rounds := decoder.rounds_pass unread position 0 begun
    have passed := rounds.settled steady first
    split
    case h_1       => exact conclude_settled steady passed rounds.source_eq _
    case h_2 | h_3 => exact passed

end Steady

-- What lies between two stages is about bytes from `source`: each invocation was told so, and whether
-- the stream is `ending`, and all frames are handed over with it.
def Stage.Attributes (source : Source) (ending : Bool) (before after : Stage σ φ ε μ) : Prop :=
  ∃ made handed, Stage.Grows made handed before after ∧
    (∀ invoked ∈ made, invoked.context.source = source ∧ invoked.context.ending = ending) ∧
    ∀ event ∈ handed, event.isDecoded → event.source? = some source

namespace Stage.Attributes

variable {source : Source} {ending : Bool} {s₁ s₂ s₃ : Stage σ φ ε μ}

theorem trans (attributes : Attributes source ending s₁ s₂)
    (attributes' : Attributes source ending s₂ s₃) : Attributes source ending s₁ s₃ :=
  have ⟨_, _, grows, told, sources⟩    := attributes
  have ⟨_, _, grows', told', sources'⟩ := attributes'
  ⟨_, _, grows.trans grows', List.forall_mem_append.mpr ⟨told, told'⟩,
    List.forall_mem_append.mpr ⟨sources, sources'⟩⟩

theorem act (attributes : Attributes source ending s₁ s₂) (activities : List Activity) :
    Attributes source ending s₁ (s₂.act activities) :=
  have ⟨made, handed, grows, rest⟩ := attributes
  ⟨made, handed, grows.act activities, rest⟩

-- Where nothing is invoked and no frames are handed over, there is nothing to tell.
theorem of_undecoded {handed : List (Event φ μ)} (grows : Stage.Grows [] handed s₁ s₂)
    (undecoded : handed.filter (·.isDecoded) = []) : Attributes source ending s₁ s₂ :=
  ⟨[], handed, grows, nofun,
    fun event mem decoded => absurd decoded (List.filter_eq_nil_iff.mp undecoded event mem)⟩

end Stage.Attributes

theorem Rounds.attributes {unread : Bytes} {position results : Nat} {pass : Pass σ φ ε μ}
    (rounds : decoder.Rounds unread position results stage pass) :
    Stage.Attributes stage.context.source stage.context.ending stage pass.stage :=
  have ⟨made, _, grows, ordinary⟩ := rounds.contexts
  have ⟨_, handed, grows', sources⟩ := rounds.attributed
  have same := (grows.unique grows').1
  ⟨made, handed, same ▸ grows',
    fun invoked mem => ⟨(ordinary invoked mem).source, (ordinary invoked mem).ending⟩,
    fun event mem _ => sources event mem⟩

theorem Concludes.source?_eq {unread : Bytes} {outcome : Outcome (DecodeError ε) Unit}
    {invoked : Trace.Invoked φ ε} {handed : List (Event φ μ)}
    (concludes : decoder.Concludes unread stage outcome invoked handed) :
    ∀ event ∈ handed, event.source? = some none := by
  cases concludes
  case failed | faulted => exact nofun
  case dispatched       => exact fun _ => Found.source?_of_mem_events
  case refused part _   => exact fun _ mem => Found.source?_of_mem_events (part.subset mem)

theorem conclude_attributes (unread : Bytes) (stage : Stage σ φ ε μ)
    (sourceless : stage.context.source = none) :
    Stage.Attributes none stage.context.ending stage (decoder.conclude unread stage).2 := by
  have ⟨invoked, handed, concludes, grows⟩ := decoder.conclude_concludes unread stage
  have ⟨_, context, _⟩ := concludes.invoked_eq
  refine ⟨_, handed, grows, List.forall_mem_singleton.mpr ?_,
    fun event mem _ => concludes.source?_eq event mem⟩
  rw [context]
  exact ⟨sourceless, rfl⟩

-- At the end of the stream nobody is told any more where its last bytes came from.
theorem flush_attributes (unread : Bytes) (position : Nat) (stage : Stage σ φ ε μ) :
    Stage.Attributes none true stage (decoder.flush unread position stage).2 := by
  let begun := stage.beginEnding.note (.ending unread.length)
  have first : Stage.Attributes none true stage begun :=
    .of_undecoded (beginEnding_grows stage _) rfl
  simp only [flush]
  split
  case isTrue => exact first.trans (decoder.conclude_attributes unread begun rfl)
  case isFalse =>
    have rounds := decoder.rounds_pass unread position 0 begun
    obtain ⟨_, context⟩ := rounds.context_eq
    have passed : Stage.Attributes none true stage (decoder.pass unread position 0 begun).stage :=
      first.trans rounds.attributes
    split
    case h_2 | h_3 => exact passed
    case h_1 =>
      have concluded := decoder.conclude_attributes (decoder.pass unread position 0 begun).unread
        (decoder.pass unread position 0 begun).stage rounds.source_eq
      rw [context] at concluded
      exact passed.trans concluded

-- The first call that ends the stream flushes it, and hands over the signal behind all that is put on
-- record of that.
theorem finish_flushing {state : State σ φ ε μ} (runs : state.ended = false) (signal : EndSignal) :
    ∃ settling result,
      result.2.toStage = (decoder.flush state.retention.unread
        (state.retention.buffer.elim 0 Buffer.consumed) state.toStage).2.act settling ∧
      decoder.finish signal state = decoder.forward signal result :=
  have ⟨settling, stage, _⟩ := recorded_stage _
  ⟨settling, _, stage, finish_of_runs runs rfl signal⟩

theorem finish_attributes {state : State σ φ ε μ} (runs : state.ended = false)
    (signal : EndSignal) :
    Stage.Attributes none true state.toStage (decoder.finish signal state).2.toStage := by
  have ⟨settling, result, stage, eq⟩ := decoder.finish_flushing runs signal
  have flushed : Stage.Attributes none true state.toStage result.2.toStage :=
    stage ▸ (decoder.flush_attributes _ _ _).act settling
  exact eq ▸ flushed.trans (.of_undecoded (forward_grows signal result) rfl)

theorem Stage.Settled.forward (signal : EndSignal)
    (result : Outcome (DecodeError ε) Unit × State σ φ ε μ)
    (settled : result.2.toStage.Settled decoder) :
    (decoder.forward signal result).2.toStage.Settled decoder := by
  have idle : result.2.toStage.Idle (decoder.forward signal result).2.toStage := by
    rcases handed : decoder.hand (.ended signal) result.2.toStage with ⟨fault, last⟩
    cases fault <;>
      simpa only [Decoder.forward, handed] using hand_idle handed
  exact settled.idle idle (forward_grows signal result) rfl
    (congrArg _ (forward_context signal result))

-- Where the bytes come from that the call delivers.
def Call.source : Call μ → Source
  | receive (.chunk _ source) | feed _ source => source
  | _                                         => none

-- All that was found has been handed over, and the strategy is told that the stream goes on as long
-- as it does.
structure State.Settled (decoder : Decoder σ φ ε μ) (state : State σ φ ε μ) : Prop where
  stage : state.toStage.Settled decoder
  goes  : state.ended = false → state.context.ending = false
  sound : state.retention.Sound

namespace State.Settled

variable {state : State σ φ ε μ}

theorem initial (decoder : Decoder σ φ ε μ) (start : σ) :
    Settled decoder (.initial start : State σ φ ε μ) where
  stage  := ⟨rfl, rfl, by simp [Stage.Informs, State.initial]⟩
  goes _ := rfl
  sound  := Retention.initial_rests.sound

variable (settled : state.Settled decoder)

include settled in
theorem feed_attributes (runs : state.ended = false) (chunk : Bytes) (source : Source) :
    Stage.Attributes source false state.toStage (decoder.feed chunk source state).2.toStage := by
  rcases decoder.feed_cases chunk source settled.sound with ⟨notice, eq⟩ | ⟨pass, fed⟩
  case inl => exact eq ▸ .of_undecoded ((Stage.Grows.refl _).note notice) rfl
  case inr =>
    have ⟨_, _, rounds⟩ := fed.rounds
    have ⟨_, _, grows, told, sources⟩ := rounds.attributes
    exact ⟨_, _, fed.grows grows, fun invoked mem =>
      ⟨(told invoked mem).1, (told invoked mem).2.trans (settled.goes runs)⟩, sources⟩

include settled in
theorem perform_attributes (call : Call μ) :
    Stage.Attributes call.source call.signal?.isSome state.toStage
      (decoder.perform call state).2.toStage := by
  cases ended : state.ended
  case true =>
    have ⟨_, grows, undecoded, _⟩ := decoder.perform_of_ended call ended
    exact .of_undecoded grows undecoded
  case false =>
    rcases call with (⟨chunk, source⟩ | content | signal) | ⟨chunk, source⟩ | signal | signal
    case receive.chunk | feed   => exact settled.feed_attributes ended chunk source
    case receive.message        => exact .of_undecoded (hand_grows (Prod.eta _).symm) rfl
    case receive.ended | finish => exact finish_attributes ended signal
    case abort                  => exact .of_undecoded (abort_grows signal state) rfl

variable (steady : decoder.receiver.Steady)
include steady settled

theorem feed (chunk : Bytes) (source : Source) :
    (decoder.feed chunk source state).2.Settled decoder := by
  rcases decoder.feed_cases chunk source settled.sound with ⟨notice, eq⟩ | ⟨pass, fed⟩
  case inl =>
    rw [eq]
    exact ⟨settled.stage.act _, settled.goes, settled.sound⟩
  case inr =>
    have ⟨_, merging, rounds⟩ := fed.rounds
    have ⟨settling, stage⟩ := fed.stage
    have ⟨_, context⟩ := rounds.context_eq
    have heard : (state.toStage.hearing source).Settled decoder :=
      ⟨settled.stage.results, settled.stage.dispatched, settled.stage.informs⟩
    refine ⟨?_, fun runs => ?_, fed.sound⟩
    · exact stage ▸ (rounds.settled steady (heard.act merging)).act settling
    · rw [feed_ended] at runs
      have goes := settled.goes runs
      simpa [stage, context, Stage.hearing] using goes

theorem finish_stage (signal : EndSignal) :
    (decoder.finish signal state).2.toStage.Settled decoder := by
  cases ended : state.ended
  case true =>
    rw [finish_of_ended ended]
    exact Stage.Settled.forward signal (.done (), _) (settled.stage.act _)
  case false =>
    have ⟨settling, result, stage, eq⟩ := decoder.finish_flushing ended signal
    rw [eq]
    refine Stage.Settled.forward signal result ?_
    exact stage ▸ (flush_settled steady settled.stage _ _).act settling

theorem perform (call : Call μ) : (decoder.perform call state).2.Settled decoder := by
  have sound := decoder.perform_sound call settled.sound
  have closed (ended : (decoder.perform call state).2.ended = true)
      (stage : (decoder.perform call state).2.toStage.Settled decoder) :
      (decoder.perform call state).2.Settled decoder :=
    ⟨stage, fun runs => absurd ended (by simp [runs]), sound⟩
  rcases call with (⟨chunk, source⟩ | content | signal) | ⟨chunk, source⟩ | signal | signal
  case receive.chunk | feed => exact settled.feed steady chunk source
  case receive.message =>
    rcases handed : decoder.hand (.message content) state.toStage with ⟨fault, after⟩
    have context := hand_context handed
    have stage := settled.stage.idle (hand_idle handed) (hand_grows handed) rfl
      (congrArg Context.results context)
    simp only [Decoder.perform, receive, handed] at sound ⊢
    exact ⟨stage, fun runs => (congrArg Context.ending context).trans (settled.goes runs), sound⟩
  case receive.ended | finish =>
    exact closed (finish_ended signal state) (settled.finish_stage steady signal)
  case abort =>
    exact closed (abort_ended signal state)
      (Stage.Settled.forward signal (.done (), _) (settled.stage.act _))

theorem run (calls : List (Call μ)) : (decoder.run calls state).2.Settled decoder := by
  induction calls generalizing state
  case nil            => exact settled
  case cons call _ ih => exact ih (settled.perform steady call)

end State.Settled

-- Neither a message nor a chunk that is ignored makes a difference to what the strategy is told.
theorem perform_context {state : State σ φ ε μ} {call : Call μ} (unended : call.signal? = none)
    (ignored : call.chunk = [] ∨ state.ended) :
    (decoder.perform call state).2.context = state.context := by
  have fed {chunk : Bytes} (source : Source) (ignored : chunk = [] ∨ state.ended) :
      (decoder.feed chunk source state).2.context = state.context := by
    rcases ignored with rfl | ended
    case inl => rfl
    case inr =>
      have ⟨_, eq⟩ := decoder.feed_of_ended ended chunk source
      rw [eq]
      rfl
  rcases call with (⟨chunk, source⟩ | content | signal) | ⟨chunk, source⟩ | signal | signal
  case receive.chunk | feed => exact fed source ignored
  case receive.message      => exact hand_context (Prod.eta _).symm
  all_goals cases unended

-- What is said of the last call here is said of every call of a run. The invocations that were `made`
-- in the call were told where its bytes come from, and so is the receiver, wherever the first bytes of
-- a frame may come from. Whenever the strategy was invoked, it was told how many results there are, all
-- of which had been handed over by then.
theorem run_attributes (decoder : Decoder σ φ ε μ) (steady : decoder.receiver.Steady) (start : σ)
    (calls : List (Call μ)) (call : Call μ) :
    let before := (decoder.run calls (.initial start)).2
    let after  := (decoder.perform call before).2
    (∃ made handed, after.trace.invocations = before.trace.invocations ++ made ∧
      after.trace.events = before.trace.events ++ handed ∧
      (∀ invoked ∈ made, invoked.context.source = call.source ∧
        invoked.context.ending = call.signal?.isSome) ∧
      ∀ event ∈ handed, event.isDecoded → event.source? = some call.source) ∧
    (∀ earlier invoked later, after.trace.toList = earlier ++ .invoked invoked :: later →
      let past : Trace φ ε μ := earlier.toArray
      invoked.context.results = past.invocations.countP (·.yields) ∧
      past.dispatched = past.invocations.flatMap (·.announced decoder.grouping) ∧
      (decoder.grouping = .together → invoked.context.results = past.dispatched.length)) ∧
    (call.signal? = none → call.chunk = [] ∨ before.ended → after.context = before.context) := by
  intro before after
  have settled : before.Settled decoder := (State.Settled.initial decoder start).run steady calls
  refine ⟨?_, ?_, perform_context⟩
  · have ⟨made, handed, grows, told, sources⟩ := settled.perform_attributes call
    exact ⟨made, handed, grows.invocations, grows.events, told, sources⟩
  · intro earlier invoked later split past
    have informed := (settled.perform steady call).stage.informs earlier invoked later split
    refine ⟨informed.results, informed.dispatched, fun together => ?_⟩
    rw [together] at informed
    exact informed.results_eq_length

-- The first byte of the first frame comes from another source than its second one, and the last frame
-- is found when there are no sources any more.
theorem run_attributes_across_sources :
    let script : Script := { entries := [
      {}, { operations := [.take 2], reply := .joined }, { operations := [.take 1], reply := .joined },
      {}, {}, { operations := [.take 1], reply := .joined } ] }
    let decoder : Decoder _ _ _ Unit := { strategy := script.strategy, receiver := .collecting }
    let calls : List (Call Unit) := [.feed [1] (some "here"), .feed [2, 3, 4] (some "there")]
    let before := (decoder.run calls (.initial {})).2
    let after  := (decoder.perform (.finish .closed) before).2
    let last : Trace.Invoked Bytes String := ⟨true, ⟨none, true, 2⟩, [4], .done (.frame [4]), 1⟩
    decoder.receiver.Steady ∧
    before.trace.events = [.frame [1, 2] (some "there"), .frame [3] (some "there")] ∧
    after.trace.events = before.trace.events ++ [.frame [4] none, .ended .closed] ∧
    (∃ made, after.trace.invocations = before.trace.invocations ++ made ∧ made.length = 2 ∧
      ∀ invoked ∈ made, invoked.context.source = none ∧ invoked.context.ending = true) ∧
    ∃ earlier later, after.trace.toList = earlier ++ .invoked last :: later ∧
      2 = (Trace.dispatched earlier.toArray).length := by
  intro script decoder calls before after last
  have steady : decoder.receiver.Steady := Receiver.collecting_steady
  have ⟨⟨made, _, invocations, _, told, _⟩, informed, _⟩ :=
    run_attributes decoder steady {} calls (.finish .closed)
  have more : after.trace.invocations.length = before.trace.invocations.length + 2 := by
    decide +kernel
  rw [invocations, List.length_append] at more
  have split : after.trace.toList =
      after.trace.toList.take 19 ++ .invoked last :: after.trace.toList.drop 20 := by
    decide +kernel
  have ⟨_, _, together⟩ := informed _ last _ split
  exact ⟨steady, by decide +kernel, by decide +kernel,
    ⟨made, invocations, Nat.add_left_cancel more, told⟩, _, _, split, together rfl⟩

end Decoder
end Framing
