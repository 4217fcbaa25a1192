import Framing.Proofs.Run
import Framing.Strategy.Script

/-!
Conservation of bytes. Whatever a strategy does, each delivered byte is either consumed by an
invocation that counts or still unread, and every invocation is shown exactly the bytes that none
before it has consumed.
-/

namespace Framing

variable {σ φ ε μ : Type}

-- Where the frames came from that the event dispatches.
def Event.source? : Event φ μ → Option Source
  | frame _ source | batch _ source => some source
  | _                               => none

theorem Found.source?_of_mem_events {found : Found φ} {grouping : Grouping} {source : Source}
    {event : Event φ μ} (h : event ∈ found.events grouping source) :
    event.source? = some source := by
  cases found
  case nothing => cases h
  case frame   => exact List.mem_singleton.mp h ▸ rfl
  case group   =>
    cases grouping
    case together => exact List.mem_singleton.mp h ▸ rfl
    case apart    =>
      have ⟨_, _, eq⟩ := List.mem_map.mp h
      exact eq ▸ rfl

namespace Trace

namespace Invoked

variable (invoked : Invoked φ ε)

-- Whether the invocation counts: it went well, and was no result for which nothing was consumed.
def commits : Bool :=
  match invoked.outcome with
  | .done found => !found.isResult || invoked.consumed != 0
  | _           => false

-- The bytes that stay consumed.
def taken : Bytes :=
  if invoked.commits then invoked.unread.take invoked.consumed else []

-- The events that dispatch what was found.
def emitted (grouping : Grouping) : List (Event φ μ) :=
  match invoked.outcome with
  | .done found => if invoked.commits then found.events grouping invoked.context.source else []
  | _           => []

-- What the invocation found, if it went well.
def found : Found φ :=
  match invoked.outcome with
  | .done found => found
  | _           => .nothing

-- Whether a result was found that is to be dispatched. At the end of the stream a result need not
-- have consumed anything.
def yields : Bool :=
  invoked.found.isResult && (invoked.last || invoked.consumed != 0)

-- Where something is consumed, going well is enough.
theorem commits_of_progress {found : Found φ} (h : invoked.outcome = .done found)
    (progress : 0 < invoked.consumed) : invoked.commits := by
  simp only [commits, h]
  simp [Nat.ne_of_gt progress]

theorem taken_prefix : invoked.taken <+: invoked.unread := by
  simp only [taken]
  split
  case isTrue  => exact List.take_prefix ..
  case isFalse => exact List.nil_prefix

theorem taken_append_drop_of_progress {found : Found φ} (h : invoked.outcome = .done found)
    (progress : 0 < invoked.consumed) :
    invoked.taken ++ invoked.unread.drop invoked.consumed = invoked.unread := by
  simp [taken, invoked.commits_of_progress h progress]

theorem yields_of_progress {found : Found φ} (h : invoked.outcome = .done found)
    (isResult : found.isResult) (progress : 0 < invoked.consumed) : invoked.yields := by
  simp [yields, Invoked.found, h, isResult, Nat.ne_of_gt progress]

end Invoked

-- The bytes that all of the invocations have taken, in order.
def taken (invocations : List (Invoked φ ε)) : Bytes :=
  invocations.flatMap Invoked.taken

-- `made` took `unread` up to what is `left`, and each of the invocations was shown what those before
-- it had left.
structure Consumes (unread : Bytes) (made : List (Invoked φ ε)) (left : Bytes) : Prop where
  bytes : taken made ++ left = unread
  shown : ∀ earlier invoked later, made = earlier ++ invoked :: later →
    taken earlier ++ invoked.unread = unread

namespace Consumes

variable {unread next left : Bytes} {invoked : Invoked φ ε} {made : List (Invoked φ ε)}

theorem nil : Consumes unread ([] : List (Invoked φ ε)) unread where
  bytes := rfl
  shown := by simp

theorem cons (shown : invoked.unread = unread) (took : invoked.taken ++ next = unread)
    (rest : Consumes next made left) : Consumes unread (invoked :: made) left where
  bytes := by simp [taken, ← took, ← rest.bytes]
  shown := by
    intro earlier invoked' later h
    cases earlier
    case nil => simp_all [taken]
    case cons =>
      have ⟨_, h⟩ := List.cons.inj h
      have := rest.shown _ _ _ h
      simp_all [taken]

-- The first invocation was shown everything, and the others what it had left.
theorem uncons (consumes : Consumes unread (invoked :: made) left) :
    invoked.unread = unread ∧ ∃ next, invoked.taken ++ next = unread ∧ Consumes next made left := by
  have shown := consumes.shown [] invoked made rfl
  have took : invoked.taken ++ (taken made ++ left) = unread := by
    rw [← List.append_assoc]
    exact consumes.bytes
  refine ⟨shown, taken made ++ left, took, rfl, ?_⟩
  intro earlier invoked' later split
  have := consumes.shown (invoked :: earlier) invoked' later (congrArg _ split)
  simpa [taken, ← took] using this

theorem append {made' : List (Invoked φ ε)} (consumes : Consumes unread made next)
    (consumes' : Consumes next made' left) : Consumes unread (made ++ made') left := by
  induction made generalizing unread
  case nil =>
    have same : next = unread := consumes.bytes
    exact same ▸ consumes'
  case cons ih =>
    have ⟨shown, _, took, rest⟩ := consumes.uncons
    exact .cons shown took (ih rest)

end Consumes

-- What was handed over for the invocations, in order: for each of them its own result at most, up to
-- an event at which the receiver may have broken off.
inductive Dispatches (grouping : Grouping) : List (Invoked φ ε) → List (Event φ μ) → Prop
  | nil : Dispatches grouping [] []
  | cons {invoked made part handed}
    (most : part <+: invoked.found.events grouping invoked.context.source)
    (rest : Dispatches grouping made handed) :
    Dispatches grouping (invoked :: made) (part ++ handed)

namespace Dispatches

variable {grouping : Grouping} {made made' : List (Invoked φ ε)} {handed handed' : List (Event φ μ)}

theorem append (dispatches : Dispatches grouping made handed)
    (dispatches' : Dispatches grouping made' handed') :
    Dispatches grouping (made ++ made') (handed ++ handed') := by
  induction dispatches
  case nil             => exact dispatches'
  case cons first _ ih => simpa using ih.cons first

theorem single {invoked : Invoked φ ε} {part : List (Event φ μ)}
    (most : part <+: invoked.found.events grouping invoked.context.source) :
    Dispatches grouping [invoked] part := by
  simpa using cons most .nil

-- None but results are handed over.
theorem isDecoded (dispatches : Dispatches grouping made handed) :
    ∀ event ∈ handed, event.isDecoded := by
  induction dispatches
  case nil => exact nofun
  case cons first _ ih =>
    exact List.forall_mem_append.mpr
      ⟨fun _ mem => Found.isDecoded_of_mem_events (first.subset mem), ih⟩

theorem filter_isDecoded (dispatches : Dispatches grouping made handed) :
    handed.filter (·.isDecoded) = handed :=
  List.filter_eq_self.mpr dispatches.isDecoded

-- What the invocations find comes from where they are told that the bytes come from.
theorem source?_eq {source : Source} (dispatches : Dispatches grouping made handed)
    (same : ∀ invoked ∈ made, invoked.context.source = source) :
    ∀ event ∈ handed, event.source? = some source := by
  induction dispatches
  case nil => exact nofun
  case cons first _ ih =>
    have ⟨told, rest⟩ := List.forall_mem_cons.mp same
    exact List.forall_mem_append.mpr
      ⟨fun _ mem => told ▸ Found.source?_of_mem_events (first.subset mem), ih rest⟩

end Dispatches
end Trace

namespace Decoder

variable {decoder : Decoder σ φ ε μ}

-- What lies between two stages went over `unread` up to what is `left`. The invocations that were
-- `made` took the bytes in between, and their results are what was `handed` over.
structure Stage.Processes (decoder : Decoder σ φ ε μ) (unread : Bytes)
    (made : List (Trace.Invoked φ ε)) (handed : List (Event φ μ)) (left : Bytes)
    (before after : Stage σ φ ε μ) : Prop where
  grows      : Stage.Grows made handed before after
  consumes   : Trace.Consumes unread made left
  dispatches : Trace.Dispatches decoder.grouping made handed
  results    : after.context.results = before.context.results + made.countP (·.yields)

namespace Stage.Processes

variable {unread next left : Bytes} {made made' : List (Trace.Invoked φ ε)}
variable {handed handed' : List (Event φ μ)} {s₁ s₂ s₃ : Stage σ φ ε μ}

theorem refl (unread : Bytes) (stage : Stage σ φ ε μ) :
    Processes decoder unread [] [] unread stage stage :=
  ⟨.refl stage, .nil, .nil, rfl⟩

theorem trans (processes : Processes decoder unread made handed next s₁ s₂)
    (processes' : Processes decoder next made' handed' left s₂ s₃) :
    Processes decoder unread (made ++ made') (handed ++ handed') left s₁ s₃ where
  grows      := processes.grows.trans processes'.grows
  consumes   := processes.consumes.append processes'.consumes
  dispatches := processes.dispatches.append processes'.dispatches
  results    := by
    rw [processes'.results, processes.results, List.countP_append, Nat.add_assoc]

theorem act (processes : Processes decoder unread made handed left s₁ s₂)
    (activities : List Activity) :
    Processes decoder unread made handed left s₁ (s₂.act activities) :=
  { processes with grows := processes.grows.act activities }

theorem note (processes : Processes decoder unread made handed left s₁ s₂) (notice : Notice) :
    Processes decoder unread made handed left s₁ (s₂.note notice) :=
  processes.act _

variable {last : Bool} {outcome : Outcome ε (Found φ)} {consumed : Nat} {stage after : Stage σ φ ε μ}

-- An invocation whose result, if there is one, is not dispatched.
theorem of_silent (h : decoder.invoke last unread stage = (outcome, consumed, after)) :
    let invoked : Trace.Invoked φ ε := ⟨last, stage.context, unread, outcome, consumed⟩
    invoked.taken ++ left = unread → invoked.yields = false →
    Processes decoder unread [invoked] [] left stage after := by
  intro invoked took silent
  refine ⟨invoke_grows h, .cons rfl took .nil, .single List.nil_prefix, ?_⟩
  simp [invoke_context h, silent]

-- An invocation whose result is dispatched, if not necessarily to the end.
theorem of_dispatched {found : Found φ} {fault : Option Fault}
    (h : decoder.invoke last unread stage = (.done found, consumed, after))
    (noting : List Activity)
    (dispatched : decoder.dispatch found stage.context.source (after.act noting) = (fault, s₃)) :
    let invoked : Trace.Invoked φ ε := ⟨last, stage.context, unread, .done found, consumed⟩
    invoked.taken ++ left = unread → invoked.yields →
    ∃ handed, Processes decoder unread [invoked] handed left stage s₃ ∧
      (fault = none → handed = found.events decoder.grouping stage.context.source) := by
  intro invoked took yields
  have ⟨handed, part, all, grows⟩ := dispatch_grows dispatched
  have grows := ((invoke_grows h).act noting).trans grows
  refine ⟨handed, ⟨grows, .cons rfl took .nil, .single part, ?_⟩, all⟩
  simp [dispatch_context dispatched, Stage.countResult, invoke_context h, yields]

end Stage.Processes

-- A pass does not leave any bytes without showing them to the strategy.
theorem Rounds.processes {unread : Bytes} {position results : Nat} {stage : Stage σ φ ε μ}
    {pass : Pass σ φ ε μ} (rounds : decoder.Rounds unread position results stage pass) :
    ∃ made handed, Stage.Processes decoder unread made handed pass.unread stage pass.stage ∧
      (unread ≠ [] → made ≠ []) ∧
      (pass.outcome.returns → handed = made.flatMap (·.emitted decoder.grouping)) := by
  induction rounds
  case exhausted =>
    exact ⟨[], [], (Stage.Processes.refl _ _).note _, absurd rfl, fun _ => rfl⟩
  case waiting h =>
    refine ⟨_, _, (Stage.Processes.of_silent h rfl rfl).note _, fun _ => List.cons_ne_nil _ _, ?_⟩
    simp [Trace.Invoked.emitted, Found.events]
  case failed h =>
    exact ⟨_, _, .of_silent h rfl rfl, fun _ => List.cons_ne_nil _ _, fun _ => rfl⟩
  case faulted h =>
    exact ⟨_, _, .of_silent h rfl rfl, fun _ => List.cons_ne_nil _ _, nofun⟩
  case stalled unread _ _ stage found _ _ h isResult =>
    let invoked : Trace.Invoked φ ε := ⟨false, stage.context, unread, .done found, 0⟩
    have rejected : invoked.commits = false := by simp [invoked, Trace.Invoked.commits, isResult]
    have took : invoked.taken ++ unread = unread := by simp [Trace.Invoked.taken, rejected]
    have silent : invoked.yields = false := by simp [Trace.Invoked.yields, invoked]
    refine ⟨_, _, (Stage.Processes.of_silent h took silent).note _,
      fun _ => List.cons_ne_nil _ _, fun _ => ?_⟩
    simp [Trace.Invoked.emitted, rejected, invoked]
  case refused unread _ _ stage found consumed _ _ _ _ h isResult progress d =>
    let invoked : Trace.Invoked φ ε := ⟨false, stage.context, unread, .done found, consumed⟩
    have took   := invoked.taken_append_drop_of_progress rfl progress
    have yields := invoked.yields_of_progress rfl isResult progress
    have ⟨_, processes, _⟩ := Stage.Processes.of_dispatched h [] (invoke_context h ▸ d) took yields
    exact ⟨_, _, processes, fun _ => List.cons_ne_nil _ _, nofun⟩
  case skipped unread _ _ stage consumed _ _ _ h progress _ ih =>
    let invoked : Trace.Invoked φ ε := ⟨false, stage.context, unread, .done .nothing, consumed⟩
    have took := invoked.taken_append_drop_of_progress rfl progress
    have ⟨_, _, processes, _, all⟩ := ih
    refine ⟨_, _, ((Stage.Processes.of_silent h took rfl).note _).trans processes,
      fun _ => List.cons_ne_nil _ _, fun returns => ?_⟩
    simp [all returns, Trace.Invoked.emitted, Found.events]
  case dispatched unread _ _ stage found consumed _ _ _ _ h isResult progress d _ ih =>
    let invoked : Trace.Invoked φ ε := ⟨false, stage.context, unread, .done found, consumed⟩
    have took   := invoked.taken_append_drop_of_progress rfl progress
    have yields := invoked.yields_of_progress rfl isResult progress
    have ⟨_, first, whole⟩ := Stage.Processes.of_dispatched h [] (invoke_context h ▸ d) took yields
    have ⟨_, _, processes, _, all⟩ := ih
    refine ⟨_, _, first.trans processes, fun _ => List.cons_ne_nil _ _, fun returns => ?_⟩
    have commits := invoked.commits_of_progress rfl progress
    simp [all returns, whole, Trace.Invoked.emitted, commits, invoked]

theorem Rounds.consumes {unread : Bytes} {position results : Nat} {stage : Stage σ φ ε μ}
    {pass : Pass σ φ ε μ} (rounds : decoder.Rounds unread position results stage pass)
    (returns : pass.outcome.returns) :
    ∃ made, Trace.Consumes unread made pass.unread ∧
      Stage.Grows made (made.flatMap (·.emitted decoder.grouping)) stage pass.stage :=
  have ⟨made, _, processes, _, all⟩ := rounds.processes
  ⟨made, processes.consumes, all returns ▸ processes.grows⟩

-- All that a pass hands over comes from where its bytes come from.
theorem Rounds.attributed {unread : Bytes} {position results : Nat} {stage : Stage σ φ ε μ}
    {pass : Pass σ φ ε μ} (rounds : decoder.Rounds unread position results stage pass) :
    ∃ made handed, Stage.Grows made handed stage pass.stage ∧
      ∀ event ∈ handed, event.source? = some stage.context.source := by
  have ⟨_, handed, processes, _⟩ := rounds.processes
  have ⟨made, _, grows, ordinary⟩ := rounds.contexts
  obtain rfl := (grows.unique processes.grows).1
  exact ⟨made, handed, processes.grows,
    processes.dispatches.source?_eq fun invoked mem => (ordinary invoked mem).source⟩

theorem feed_attributed (chunk : Bytes) (source : Source) {state : State σ φ ε μ}
    (sound : state.retention.Sound) :
    ∃ made handed,
      Stage.Grows made handed state.toStage (decoder.feed chunk source state).2.toStage ∧
      ∀ event ∈ handed, event.source? = some source := by
  cases decoder.feed_cases chunk source sound
  case inl ignored =>
    have ⟨_, eq⟩ := ignored
    exact eq ▸ ⟨[], [], (Stage.Grows.refl _).note _, nofun⟩
  case inr passed =>
    have ⟨pass, fed⟩ := passed
    have ⟨_, _, rounds⟩ := fed.rounds
    have ⟨made, handed, grows, sources⟩ := rounds.attributed
    exact ⟨made, handed, fed.grows grows, sources⟩

-- Everything delivered to a decoder is accounted for: taken by an invocation or still unread. The
-- events are those of the invocations that count.
structure Accounted (decoder : Decoder σ φ ε μ) (delivered : Bytes) (state : State σ φ ε μ) :
    Prop where
  runs   : state.ended = false
  rests  : state.retention.Rests state.retention.unread
  bytes  : Trace.taken state.trace.invocations ++ state.retention.unread = delivered
  events : state.trace.events = state.trace.invocations.flatMap (·.emitted decoder.grouping)

theorem initial_accounted (decoder : Decoder σ φ ε μ) (start : σ) :
    decoder.Accounted [] (.initial start) where
  runs   := rfl
  rests  := Retention.initial_rests
  bytes  := rfl
  events := rfl

namespace Accounted

variable {delivered : Bytes} {state : State σ φ ε μ}

-- One more chunk, all of which is shown to the strategy behind what was unread.
theorem feed (accounted : decoder.Accounted delivered state) (chunk : Bytes) (source : Source)
    (returns : (decoder.feed chunk source state).1.returns) :
    decoder.Accounted (delivered ++ chunk) (decoder.feed chunk source state).2 ∧
      ∃ made, (decoder.feed chunk source state).2.trace.invocations =
          state.trace.invocations ++ made ∧
        ∀ earlier invoked later, made = earlier ++ invoked :: later →
          Trace.taken (state.trace.invocations ++ earlier) ++ invoked.unread =
            delivered ++ chunk := by
  obtain ⟨runs, rests, bytes, events⟩ := accounted
  by_cases nonempty : chunk = []
  case pos =>
    simp only [Decoder.feed, nonempty]
    refine ⟨⟨runs, rests, ?_, ?_⟩, [], ?_⟩ <;> simp_all [State.note, Stage.note]
  case neg =>
    obtain ⟨pass, fed⟩ := decoder.feed_fed nonempty source runs rests.sound
    obtain ⟨_, _, rounds⟩ := fed.rounds
    rw [fed.returns] at returns
    obtain ⟨made, took, grows⟩ := rounds.consumes returns
    obtain ⟨invocations, events'⟩ := fed.grows grows
    have unread := (fed.rests returns).unread_eq
    refine ⟨⟨fed.ended, unread ▸ fed.rests returns, ?_, ?_⟩, made, invocations, ?_⟩
    · have := took.bytes
      simp_all [Trace.taken, ← bytes]
    · simp [events', invocations, events]
    · intro earlier invoked later h
      have := took.shown _ _ _ h
      simp_all [Trace.taken, ← bytes]

theorem run (accounted : decoder.Accounted delivered state) (deliveries : List (Bytes × Source))
    (calm : ∀ outcome ∈ (decoder.run (feeding deliveries) state).1, outcome.returns) :
    decoder.Accounted (delivered ++ Decoder.delivered deliveries)
      (decoder.run (feeding deliveries) state).2 := by
  induction deliveries generalizing delivered state
  case nil => simpa [Decoder.delivered, feeding, Decoder.run] using accounted
  case cons delivery deliveries ih =>
    obtain ⟨chunk, source⟩ := delivery
    simp only [run_feeding_cons, List.forall_mem_cons, returns_perform_feed] at calm ⊢
    obtain ⟨accounted, _⟩ := accounted.feed chunk source calm.1
    simpa using ih accounted calm.2

end Accounted

-- A call that comes after others is a call in the state that they lead to, so what is said of the
-- last call here is said of every call of a run.
theorem run_conserves_bytes (decoder : Decoder σ φ ε μ) (start : σ)
    (deliveries : List (Bytes × Source)) (chunk : Bytes) (source : Source)
    (calm : ∀ outcome ∈
      (decoder.run (feeding (deliveries ++ [(chunk, source)])) (.initial start)).1,
      outcome.returns) :
    let before := (decoder.run (feeding deliveries) (.initial start)).2
    let after  := (decoder.run (feeding (deliveries ++ [(chunk, source)])) (.initial start)).2
    Trace.taken after.trace.invocations ++ after.retention.unread =
      delivered deliveries ++ chunk ∧
    (∃ made, after.trace.invocations = before.trace.invocations ++ made ∧
      ∀ earlier invoked later, made = earlier ++ invoked :: later →
        Trace.taken (before.trace.invocations ++ earlier) ++ invoked.unread =
          delivered deliveries ++ chunk) ∧
    after.trace.events = after.trace.invocations.flatMap (·.emitted decoder.grouping) ∧
    (after.retention.buffer = none ↔ after.retention.unread = []) := by
  simp only [run_feeding_concat, List.forall_mem_append, List.forall_mem_singleton,
    returns_perform_feed] at calm ⊢
  have before := (decoder.initial_accounted start).run deliveries calm.1
  have ⟨⟨_, rests, bytes, events⟩, shown⟩ := before.feed chunk source calm.2
  exact ⟨bytes, shown, events, rests.buffer_eq_none_iff⟩

-- A strategy that skips a byte, fails after it has read two, and then finds a group of frames.
theorem run_conserves_bytes_across_failure :
    let script : Script := { entries := [
      { operations := [.advance 1] },
      { operations := [.advance 2], reply := .error "not yet" },
      { operations := [.take 1, .take 2], reply := .pieces } ] }
    let decoder : Decoder _ _ _ Unit := { strategy := script.strategy, receiver := .collecting }
    let deliveries : List (Bytes × Source) := [([0, 1, 2], none)]
    let run := decoder.run (feeding (deliveries ++ [([3, 4], none)])) (.initial {})
    (∀ outcome ∈ run.1, outcome.returns) ∧ (∃ outcome ∈ run.1, outcome ≠ .done .unit) ∧
    run.2.trace.events = [.batch [[1], [2, 3]] none] ∧ run.2.retention.unread = [4] ∧
    Trace.taken run.2.trace.invocations ++ run.2.retention.unread = [0, 1, 2, 3, 4] := by
  intro script decoder deliveries run
  have calm : ∀ outcome ∈ run.1, outcome.returns := by decide +kernel
  have ⟨bytes, _⟩ := run_conserves_bytes decoder {} deliveries [3, 4] none calm
  exact ⟨calm, by decide +kernel, by decide +kernel, by decide +kernel, bytes⟩

end Decoder
end Framing
