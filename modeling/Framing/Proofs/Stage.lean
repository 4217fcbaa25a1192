import Framing.Decoder

/-!
What the operations on a stage add to it. Notices and counts change nothing that a strategy or a
receiver can tell; an invocation adds itself, and handing over an event adds that event.
-/

namespace Framing

variable {σ φ ε μ : Type}

-- The receiver never breaks off.
def Receiver.Steady (receiver : Receiver φ μ) : Prop :=
  ∀ ordinal event fault, receiver.receive ordinal event ≠ .refused fault

theorem Receiver.collecting_steady : (collecting : Receiver φ μ).Steady :=
  nofun

-- Whether the event dispatches frames.
def Event.isDecoded : Event φ μ → Bool
  | frame .. | batch .. => true
  | _                   => false

theorem Found.isDecoded_of_mem_events {found : Found φ} {grouping : Grouping} {source : Source}
    {event : Event φ μ} (h : event ∈ found.events grouping source) : event.isDecoded := by
  have alone {decoded : Event φ μ} (is : decoded.isDecoded) (h : event ∈ [decoded]) :
      event.isDecoded := List.mem_singleton.mp h ▸ is
  cases found
  case nothing => cases h
  case frame   => exact alone rfl h
  case group   =>
    cases grouping
    case together => exact alone rfl h
    case apart    =>
      have ⟨_, _, eq⟩ := List.mem_map.mp h
      exact eq ▸ rfl

namespace Decoder

namespace Stage

-- `after` comes later than `before`: what was `made` are the invocations in between, and what was
-- `handed` are the events.
structure Grows (made : List (Trace.Invoked φ ε)) (handed : List (Event φ μ))
    (before after : Stage σ φ ε μ) : Prop where
  invocations : after.trace.invocations = before.trace.invocations ++ made
  events      : after.trace.events = before.trace.events ++ handed

namespace Grows

variable {made made' : List (Trace.Invoked φ ε)} {handed handed' : List (Event φ μ)}
variable {s₁ s₂ s₃ : Stage σ φ ε μ}

theorem refl (stage : Stage σ φ ε μ) : Grows [] [] stage stage where
  invocations := by simp
  events      := by simp

theorem trans (g : Grows made handed s₁ s₂) (g' : Grows made' handed' s₂ s₃) :
    Grows (made ++ made') (handed ++ handed') s₁ s₃ where
  invocations := by simp [g'.invocations, g.invocations]
  events      := by simp [g'.events, g.events]

-- What lies between two stages is on record.
theorem unique (g : Grows made handed s₁ s₂) (g' : Grows made' handed' s₁ s₂) :
    made = made' ∧ handed = handed' :=
  ⟨List.append_cancel_left (g.invocations.symm.trans g'.invocations),
    List.append_cancel_left (g.events.symm.trans g'.events)⟩

theorem invocations_subset (g : Grows made handed s₁ s₂) :
    s₁.trace.invocations ⊆ s₂.trace.invocations :=
  g.invocations ▸ List.subset_append_left _ _

end Grows

variable (stage : Stage σ φ ε μ) (activities : List Activity)

theorem trace_act :
    (stage.act activities).trace.toList = stage.trace.toList ++ activities.map .activity := by
  simp only [act]
  induction activities generalizing stage
  case nil => simp
  case cons activity _ ih =>
    have := ih { stage with trace := stage.trace.push (.activity activity) }
    simp_all

@[simp]
theorem strategyState_act : (stage.act activities).strategyState = stage.strategyState := rfl

@[simp]
theorem context_act : (stage.act activities).context = stage.context := rfl

@[simp]
theorem handed_act : (stage.act activities).handed = stage.handed := rfl

@[simp]
theorem invocations_act : (stage.act activities).trace.invocations = stage.trace.invocations := by
  simp [Trace.invocations, trace_act, List.filterMap_map, Function.comp_def, Trace.Entry.invocation?]

@[simp]
theorem events_act : (stage.act activities).trace.events = stage.trace.events := by
  simp [Trace.events, trace_act, List.filterMap_map, Function.comp_def, Trace.Entry.event?]

variable {stage} in
theorem Grows.act {made : List (Trace.Invoked φ ε)} {handed : List (Event φ μ)}
    {before : Stage σ φ ε μ} (g : Grows made handed before stage) :
    Grows made handed before (stage.act activities) where
  invocations := by simp [g.invocations]
  events      := by simp [g.events]

variable {stage} in
theorem Grows.note {made : List (Trace.Invoked φ ε)} {handed : List (Event φ μ)}
    {before : Stage σ φ ε μ} (g : Grows made handed before stage) (notice : Notice) :
    Grows made handed before (stage.note notice) :=
  g.act _

-- Notices and counts are neither invocations nor events.
theorem Grows.of_act {made : List (Trace.Invoked φ ε)} {handed : List (Event φ μ)}
    {after : Stage σ φ ε μ} (g : Grows made handed stage after) :
    Grows made handed (stage.act activities) after where
  invocations := by simp [g.invocations]
  events      := by simp [g.events]

@[simp]
theorem act_nil : stage.act [] = stage := rfl

@[simp]
theorem act_act (more : List Activity) :
    (stage.act activities).act more = stage.act (activities ++ more) := by
  simp [act]

end Stage

variable (decoder : Decoder σ φ ε μ) {last : Bool} {unread : Bytes} {stage after : Stage σ φ ε μ}

-- The invocation that `invoke` makes.
def invocation (last : Bool) (unread : Bytes) (stage : Stage σ φ ε μ) : Invocation σ φ ε :=
  (if last then decoder.strategy.conclude else decoder.strategy.decode)
    stage.strategyState stage.context unread

theorem invocation_false : decoder.invocation false unread stage =
    decoder.strategy.decode stage.strategyState stage.context unread :=
  rfl

theorem invocation_true : decoder.invocation true unread stage =
    decoder.strategy.conclude stage.strategyState stage.context unread :=
  rfl

-- What lies between two stages is decoding: no events but those that dispatch frames, and at most
-- `last` invocations at the end of the stream.
def Stage.Decodes (last : Nat) (before after : Stage σ φ ε μ) : Prop :=
  ∃ made handed, Stage.Grows made handed before after ∧
    made.countP (·.last) ≤ last ∧ ∀ event ∈ handed, event.isDecoded

namespace Stage.Decodes

variable {s₁ s₂ s₃ : Stage σ φ ε μ} {last last' : Nat}

theorem refl (stage : Stage σ φ ε μ) : Decodes 0 stage stage :=
  ⟨[], [], .refl stage, Nat.le_refl _, nofun⟩

theorem trans (decodes : Decodes last s₁ s₂) (decodes' : Decodes last' s₂ s₃) :
    Decodes (last + last') s₁ s₃ :=
  have ⟨_, _, grows, most, decoded⟩ := decodes
  have ⟨_, _, grows', most', decoded'⟩ := decodes'
  ⟨_, _, grows.trans grows', by rw [List.countP_append]; exact Nat.add_le_add most most',
    List.forall_mem_append.mpr ⟨decoded, decoded'⟩⟩

theorem act (decodes : Decodes last s₁ s₂) (activities : List Activity) :
    Decodes last s₁ (s₂.act activities) :=
  have ⟨made, handed, grows, rest⟩ := decodes
  ⟨made, handed, grows.act activities, rest⟩

theorem mono (decodes : Decodes last s₁ s₂) (le : last ≤ last') : Decodes last' s₁ s₂ :=
  have ⟨made, handed, grows, most, decoded⟩ := decodes
  ⟨made, handed, grows, Nat.le_trans most le, decoded⟩

theorem grows (decodes : Decodes last s₁ s₂) : ∃ made handed, Grows made handed s₁ s₂ :=
  have ⟨made, handed, grows, _⟩ := decodes
  ⟨made, handed, grows⟩

end Stage.Decodes

variable {decoder} {outcome : Outcome ε (Found φ)} {consumed : Nat}

theorem invoke_eq (h : decoder.invoke last unread stage = (outcome, consumed, after)) :
    ∃ notices,
      decoder.invocation last unread stage = ⟨outcome, consumed, after.strategyState, notices⟩ := by
  cases h
  exact ⟨_, rfl⟩

theorem invoke_of_eq {state : σ} {notices : List Notice}
    (h : decoder.invocation last unread stage = ⟨outcome, consumed, state, notices⟩) :
    ∃ after, decoder.invoke last unread stage = (outcome, consumed, after) ∧
      after.strategyState = state := by
  let invocation := decoder.invocation last unread stage
  have eq : decoder.invoke last unread stage =
    (invocation.outcome, invocation.consumed, (decoder.invoke last unread stage).2.2) := rfl
  have state : (decoder.invoke last unread stage).2.2.strategyState = invocation.state := rfl
  simp only [invocation, h] at eq state
  exact ⟨_, eq, state⟩

theorem invoke_context (h : decoder.invoke last unread stage = (outcome, consumed, after)) :
    after.context = stage.context := by
  cases h
  rfl

theorem invoke_handed (h : decoder.invoke last unread stage = (outcome, consumed, after)) :
    after.handed = stage.handed := by
  cases h
  rfl

theorem invoke_grows (h : decoder.invoke last unread stage = (outcome, consumed, after)) :
    Stage.Grows [⟨last, stage.context, unread, outcome, consumed⟩] [] stage after := by
  cases h
  apply Stage.Grows.act
  constructor <;> simp [Trace.invocations, Trace.events, Trace.Entry.invocation?, Trace.Entry.event?]

theorem invoke_consumed_le (h : decoder.invoke last unread stage = (outcome, consumed, after)) :
    consumed ≤ unread.length := by
  cases h
  cases last
  case false => exact decoder.strategy.decode_consumed_le ..
  case true  => exact decoder.strategy.conclude_consumed_le ..

theorem invoke_decodes (h : decoder.invoke last unread stage = (outcome, consumed, after)) :
    Stage.Decodes last.toNat stage after :=
  ⟨_, [], invoke_grows h, by cases last <;> simp, nofun⟩

variable {event : Event φ μ} {found : Found φ} {source : Source} {fault : Option Fault}

-- What is handed over is put on record, and noticed where the receiver is gone.
theorem hand_eq (h : decoder.hand event stage = (fault, after)) :
    ∃ notices : List Notice, (∀ notice ∈ notices, notice = .receiverGone) ∧
      after = Stage.act
        { stage with
          handed := stage.handed + 1
          trace  :=
            stage.trace.push (.handed event (decoder.receiver.receive stage.handed event)) }
        (notices.map .noted) := by
  simp only [hand] at h
  split at h <;> cases h
  case h_1 | h_3 => exact ⟨[], nofun, rfl⟩
  case h_2       => exact ⟨[.receiverGone], fun _ => List.mem_singleton.mp, rfl⟩

theorem hand_context (h : decoder.hand event stage = (fault, after)) :
    after.context = stage.context := by
  obtain ⟨_, _, rfl⟩ := hand_eq h
  rfl

theorem hand_strategyState (h : decoder.hand event stage = (fault, after)) :
    after.strategyState = stage.strategyState := by
  obtain ⟨_, _, rfl⟩ := hand_eq h
  rfl

theorem hand_handed (h : decoder.hand event stage = (fault, after)) :
    after.handed = stage.handed + 1 := by
  obtain ⟨_, _, rfl⟩ := hand_eq h
  rfl

theorem hand_refused {fault : Fault} (h : decoder.hand event stage = (some fault, after)) :
    decoder.receiver.receive stage.handed event = .refused fault := by
  simp only [hand] at h
  split at h <;> cases h
  assumption

theorem hand_grows (h : decoder.hand event stage = (fault, after)) :
    Stage.Grows [] [event] stage after := by
  obtain ⟨_, _, rfl⟩ := hand_eq h
  apply Stage.Grows.act
  constructor <;> simp [Trace.invocations, Trace.events, Trace.Entry.invocation?, Trace.Entry.event?]

theorem hand_fault_of_taken
    (taken : ∀ fault, decoder.receiver.receive stage.handed event ≠ .refused fault) :
    (decoder.hand event stage).1 = none := by
  simp only [hand]
  split
  case h_1 | h_2   => rfl
  case h_3 refused => exact absurd refused (taken _)

theorem handAll_singleton (event : Event φ μ) (stage : Stage σ φ ε μ) :
    decoder.handAll [event] stage = decoder.hand event stage := by
  simp only [handAll]
  rcases decoder.hand event stage with ⟨_ | fault, after⟩ <;> rfl

theorem handAll_context (events : List (Event φ μ)) (stage : Stage σ φ ε μ) :
    (decoder.handAll events stage).2.context = stage.context := by
  fun_induction decoder.handAll events stage
  case case1      => rfl
  case case2 h ih => exact ih.trans (hand_context h)
  case case3 h    => exact hand_context h

theorem handAll_strategyState (events : List (Event φ μ)) (stage : Stage σ φ ε μ) :
    (decoder.handAll events stage).2.strategyState = stage.strategyState := by
  fun_induction decoder.handAll events stage
  case case1      => rfl
  case case2 h ih => exact ih.trans (hand_strategyState h)
  case case3 h    => exact hand_strategyState h

-- All events are handed over, or those up to the one at which the receiver breaks off.
theorem handAll_grows (events : List (Event φ μ)) (stage : Stage σ φ ε μ) :
    ∃ handed, handed <+: events ∧ ((decoder.handAll events stage).1 = none → handed = events) ∧
      Stage.Grows [] handed stage (decoder.handAll events stage).2 := by
  fun_induction decoder.handAll events stage
  case case1 => exact ⟨[], List.nil_prefix, fun _ => rfl, .refl _⟩
  case case2 event _ _ _ h ih =>
    have ⟨handed, first, all, grows⟩ := ih
    refine ⟨event :: handed, ?_, fun h => congrArg _ (all h), (hand_grows h).trans grows⟩
    exact (List.prefix_cons_inj event).mpr first
  case case3 event _ _ _ _ h =>
    exact ⟨[event], (List.prefix_cons_inj event).mpr List.nil_prefix, nofun, hand_grows h⟩

-- Where the receiver breaks off, it does so at the last of the events that are handed over.
theorem handAll_refused {events : List (Event φ μ)} {fault : Fault}
    (h : decoder.handAll events stage = (some fault, after)) :
    ∃ handed event, handed ++ [event] <+: events ∧
      decoder.receiver.receive (stage.handed + handed.length) event = .refused fault ∧
      Stage.Grows [] (handed ++ [event]) stage after := by
  fun_induction decoder.handAll events stage
  case case1 => cases h
  case case2 event _ stage _ first ih =>
    have ⟨handed, last, part, refuses, grows⟩ := ih h
    refine ⟨event :: handed, last, (List.prefix_cons_inj event).mpr part, ?_,
      (hand_grows first).trans grows⟩
    rwa [hand_handed first, Nat.add_right_comm] at refuses
  case case3 event _ _ _ _ first =>
    cases h
    exact ⟨[], event, (List.prefix_cons_inj event).mpr List.nil_prefix, hand_refused first,
      hand_grows first⟩

-- Counting the frames of a result comes after everything else.
theorem dispatch_eq (h : decoder.dispatch found source stage = (fault, after)) :
    ∃ activities, (fault, after) =
      ((decoder.handAll (found.events decoder.grouping source) stage.countResult).1,
        (decoder.handAll (found.events decoder.grouping source) stage.countResult).2.act
          activities) := by
  simp only [dispatch] at h
  split at h <;> cases h
  case h_1 h => exact ⟨_, by rw [h]; rfl⟩
  case h_2 h => exact ⟨[], by rw [h]; rfl⟩

theorem dispatch_context (h : decoder.dispatch found source stage = (fault, after)) :
    after.context = stage.countResult.context := by
  have ⟨_, eq⟩ := dispatch_eq h
  simp_all [handAll_context]

theorem dispatch_strategyState (h : decoder.dispatch found source stage = (fault, after)) :
    after.strategyState = stage.strategyState := by
  have ⟨_, eq⟩ := dispatch_eq h
  simp_all [handAll_strategyState, Stage.countResult]

theorem dispatch_grows (h : decoder.dispatch found source stage = (fault, after)) :
    ∃ handed, handed <+: found.events decoder.grouping source ∧
      (fault = none → handed = found.events decoder.grouping source) ∧
      Stage.Grows [] handed stage after := by
  have ⟨activities, eq⟩ := dispatch_eq h
  cases eq
  have ⟨handed, first, all, grows⟩ :=
    decoder.handAll_grows (found.events decoder.grouping source) stage.countResult
  exact ⟨handed, first, all, .act _ { grows with }⟩

theorem dispatch_refused {fault : Fault}
    (h : decoder.dispatch found source stage = (some fault, after)) :
    ∃ handed event, handed ++ [event] <+: found.events decoder.grouping source ∧
      decoder.receiver.receive (stage.handed + handed.length) event = .refused fault ∧
      Stage.Grows [] (handed ++ [event]) stage after := by
  simp only [dispatch] at h
  split at h <;> cases h
  case h_2 broken =>
    obtain ⟨handed, event, part, refuses, grows⟩ := handAll_refused broken
    exact ⟨handed, event, part, refuses, { grows with }⟩

theorem dispatch_decodes (h : decoder.dispatch found source stage = (fault, after)) :
    Stage.Decodes 0 stage after :=
  have ⟨handed, first, _, grows⟩ := dispatch_grows h
  ⟨[], handed, grows, Nat.le_refl _, fun _ mem => Found.isDecoded_of_mem_events (first.subset mem)⟩

-- A decoder with `strategy`, whose receiver never breaks off.
structure Uses (decoder : Decoder σ φ ε μ) (strategy : Strategy σ φ ε) : Prop where
  strategy : decoder.strategy = strategy
  steady   : decoder.receiver.Steady

section Steady

variable (steady : decoder.receiver.Steady)
include steady

theorem hand_fault_of_steady (event : Event φ μ) (stage : Stage σ φ ε μ) :
    (decoder.hand event stage).1 = none :=
  hand_fault_of_taken (steady stage.handed event)

theorem handAll_fault_of_steady (events : List (Event φ μ)) (stage : Stage σ φ ε μ) :
    (decoder.handAll events stage).1 = none := by
  fun_induction decoder.handAll events stage
  case case1      => rfl
  case case2 h ih => exact ih
  case case3 h    => exact absurd (congrArg Prod.fst h) (by simp [hand_fault_of_steady steady])

theorem dispatch_fault_of_steady (found : Found φ) (source : Source) (stage : Stage σ φ ε μ) :
    (decoder.dispatch found source stage).1 = none := by
  simp only [dispatch]
  split
  case h_1   => rfl
  case h_2 h => exact absurd (congrArg Prod.fst h) (by simp [handAll_fault_of_steady steady])

end Steady

end Decoder
end Framing
