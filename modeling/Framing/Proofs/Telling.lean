import Framing.Proofs.Answers
import Framing.Proofs.Memory

/-!
What activities tell: of the calls that have failed, each of which is warned of and counted once, of
frames that are counted, and of what is done about memory. What a strategy writes tells of none of it.
-/

namespace Framing

variable {σ φ ε μ : Type}

-- The kind of failure, if the notice warns of a call that has failed.
def Notice.failure? : Notice → Option DecodeError.Kind
  | failed kind .. => some kind
  | _              => none

def Outcome.failure? {α : Type} : Outcome (DecodeError ε) α → Option DecodeError.Kind
  | failed error => some error.kind
  | _            => none

theorem Found.flatMap_frames_events (found : Found φ) (grouping : Grouping) (source : Source) :
    (found.events (μ := μ) grouping source).flatMap Event.frames = found.frames := by
  cases found
  case nothing | frame => rfl
  case group frames    =>
    cases grouping
    case together => exact List.append_nil _
    case apart    => simp [Found.events, Found.frames, List.flatMap_map, Event.frames]

namespace Activity

-- The warnings of calls that have failed.
def warnings (activities : List Activity) : List Notice :=
  (activities.filterMap notice?).filter (·.failure?.isSome)

@[simp]
theorem warnings_append (activities more : List Activity) :
    warnings (activities ++ more) = warnings activities ++ warnings more := by
  simp [warnings]

-- What is counted under `metric`.
def amount (metric : Metric) (activities : List Activity) : Nat :=
  Metric.amount (· = metric) (increments activities)

@[simp]
theorem amount_append (metric : Metric) (activities more : List Activity) :
    amount metric (activities ++ more) = amount metric activities + amount metric more := by
  simp [amount]

theorem amount_eq_zero {metric : Metric} {activities : List Activity}
    (none : ∀ count, .counted metric count ∉ activities) : amount metric activities = 0 := by
  induction activities
  case nil => rfl
  case cons activity activities ih =>
    have rest : amount metric activities = 0 :=
      ih fun count mem => none count (List.mem_cons_of_mem _ mem)
    cases activity
    case noted | requested   => exact rest
    case counted other count =>
      have different : other ≠ metric := fun same => none count (same ▸ List.mem_cons_self)
      simpa [amount, increments, increment?, Metric.amount, different] using rest

end Activity

namespace Retention

variable (allocator : Allocator) (retention : Retention)

theorem store_warnings (content : Bytes) :
    Activity.warnings (retention.store allocator content).2 = [] := by
  simp only [store]
  split <;> rfl

theorem keep_warnings (remainder : Bytes) :
    Activity.warnings (retention.keep allocator remainder).2 = [] := by
  have stored := retention.store_warnings allocator remainder
  simp only [keep]
  split
  case h_1 => exact stored
  case h_2 => rw [Activity.warnings_append, stored]; rfl

theorem fit_warnings : Activity.warnings (retention.fit allocator).2 = [] := by
  simp only [fit]
  split
  case h_1 => rfl
  case h_2 before _ =>
    have stored := retention.store_warnings allocator before.unread
    split <;> rw [Activity.warnings_append, stored] <;> rfl

theorem append_warnings (chunk : Bytes) :
    Activity.warnings (retention.append allocator chunk).2.2 = [] := by
  have recorded (placement : Placement) (step : Retention × List Activity)
      (h : Activity.warnings step.2 = []) :
      Activity.warnings (append.record chunk placement step).2.2 = [] := by
    rw [append.record, Activity.warnings_append, h]
    cases placement <;> rfl
  have placed (buffer : Buffer) (placement : Placement) :
      Activity.warnings (retention.place allocator buffer chunk placement).2 = [] := by
    cases placement
    case inPlace | compacted => rfl
    case fresh | moved       => exact retention.store_warnings allocator _
  simp only [append]
  split
  case h_1 => exact recorded _ _ (retention.store_warnings allocator chunk)
  case h_2 => exact recorded _ _ (placed _ _)

end Retention

-- Of a call that has failed, the strategy leaves it to the decoder to warn.
structure Strategy.Discreet (strategy : Strategy σ φ ε) : Prop where
  decode   : ∀ state context unread, ∀ notice ∈ (strategy.decode state context unread).notices,
    notice.failure? = none
  conclude : ∀ state context unread, ∀ notice ∈ (strategy.conclude state context unread).notices,
    notice.failure? = none

namespace Attempt

variable {α β : Type} {bytes : Bytes}

-- The attempt writes nothing.
def Silent (attempt : Attempt σ ε bytes α) : Prop :=
  ∀ bench, (attempt bench).2.notices = bench.notices

theorem Silent.bind {attempt : Attempt σ ε bytes α} {next : α → Attempt σ ε bytes β}
    (silent : attempt.Silent) (rest : ∀ value, (next value).Silent) : (attempt >>= next).Silent := by
  intro bench
  have first := silent bench
  simp only [Bind.bind]
  split <;> simp only [*] at first
  case h_1       => exact (rest ..).trans first
  case h_2 | h_3 => exact first

end Attempt

theorem Invocation.ofAttempt_notices {unread : Bytes} {attempt : Attempt σ ε unread (Found φ)}
    (silent : attempt.Silent) (state : σ) : (ofAttempt attempt state).notices = [] :=
  silent _

theorem Strategy.Discreet.of_silent
    {decode conclude : Context → (unread : Bytes) → Attempt σ ε unread (Found φ)}
    (silent : ∀ context unread, (decode context unread).Silent)
    (silent' : ∀ context unread, (conclude context unread).Silent) :
    (Strategy.ofAttempts decode conclude).Discreet where
  decode _ context unread   := by
    simp [ofAttempts, Invocation.ofAttempt_notices (silent context unread)]
  conclude _ context unread := by
    simp [ofAttempts, Invocation.ofAttempt_notices (silent' context unread)]

theorem Script.decode_silent (script : Script) (context : Context) {unread : Bytes} :
    (script.decode context : Attempt _ _ unread _).Silent := by
  have recorded (conduct : Conduct) :
      (script.record context conduct : Attempt _ _ unread _).Silent := fun _ => rfl
  refine .bind (fun _ => rfl) fun progress => .bind (fun _ => rfl) fun cursor => ?_
  split
  case h_1 => exact (recorded _).bind fun _ _ => rfl
  case h_2 entry _ =>
    split
    case isTrue  => exact (recorded _).bind fun _ _ => rfl
    case isFalse =>
      refine .bind (fun _ => rfl) fun _ => .bind (fun _ => rfl) fun _ => (recorded _).bind fun _ => ?_
      split
      case h_1 => exact fun _ => rfl
      case h_2 => cases entry.reply <;> exact fun _ => rfl

theorem Script.strategy_discreet (script : Script) : script.strategy.Discreet :=
  .of_silent (fun context _ => script.decode_silent context) fun context _ =>
    script.decode_silent context

-- What the activities tell: of which failures, each of which is warned of and counted, of what is done
-- about memory, and of how many frames. There are no more warnings, unless the strategy warns itself.
structure Strategy.Tells (strategy : Strategy σ φ ε) (failed : List Notice) (memory : List Activity)
    (frames : Nat) (activities : List Activity) : Prop where
  memory   : Activity.memory activities = memory
  warned   : failed.Sublist (Activity.warnings activities)
  warnings : strategy.Discreet → Activity.warnings activities = failed
  errors   : ∀ kind : DecodeError.Kind,
    Activity.amount (.errors kind.name) activities = failed.countP (·.failure? = some kind)
  frames   : Activity.amount .frames activities = frames

namespace Strategy.Tells

variable {strategy : Strategy σ φ ε} {failed failed' : List Notice}
variable {memory memory' activities more : List Activity} {frames frames' : Nat}

theorem nil : strategy.Tells [] [] 0 [] where
  memory     := rfl
  warned     := List.Sublist.refl _
  warnings _ := rfl
  errors _   := rfl
  frames     := rfl

theorem append (tells : strategy.Tells failed memory frames activities)
    (tells' : strategy.Tells failed' memory' frames' more) :
    strategy.Tells (failed ++ failed') (memory ++ memory') (frames + frames')
      (activities ++ more) where
  memory            := by simp [tells.memory, tells'.memory]
  warned            := by simpa using tells.warned.append tells'.warned
  warnings discreet := by simp [tells.warnings discreet, tells'.warnings discreet]
  errors kind       := by simp [tells.errors kind, tells'.errors kind]
  frames            := by simp [tells.frames, tells'.frames]

theorem note {notice : Notice} (ordinary : notice.failure? = none) :
    strategy.Tells [] [] 0 [.noted notice] where
  memory     := rfl
  warned     := List.nil_sublist _
  warnings _ := by simp [Activity.warnings, Activity.notice?, ordinary]
  errors _   := rfl
  frames     := rfl

-- What a strategy writes tells nothing.
theorem notices {notices : List Notice}
    (ordinary : strategy.Discreet → ∀ notice ∈ notices, notice.failure? = none) :
    strategy.Tells [] [] 0 (notices.map .noted) where
  memory            := by simp [Activity.memory, Activity.isAboutMemory]
  warned            := List.nil_sublist _
  warnings discreet := by
    simpa [Activity.warnings, List.filterMap_map, Function.comp_def, Activity.notice?] using
      ordinary discreet
  errors _          := Activity.amount_eq_zero (by simp)
  frames            := Activity.amount_eq_zero (by simp)

-- What is counted of memory is neither a failure nor a frame.
theorem upkeep (silent : Activity.tallies activities = [])
    (quiet : Activity.warnings activities = []) :
    strategy.Tells [] (Activity.memory activities) 0 activities := by
  have none {metric : Metric} {count : Nat}
      (other : (Activity.counted metric count).isUpkeep = false) :
      .counted metric count ∉ activities := by
    intro mem
    have := List.filter_eq_nil_iff.mp silent _ mem
    simp [other] at this
  exact ⟨rfl, List.nil_sublist _, fun _ => quiet, fun _ => Activity.amount_eq_zero fun _ => none rfl,
    Activity.amount_eq_zero fun _ => none rfl⟩

theorem dispatched (count : Nat) : strategy.Tells [] [] count
    ((Metric.dispatched count).map fun (metric, amount) => .counted metric amount) := by
  by_cases none : count = 0
  case pos =>
    subst none
    exact nil
  case neg =>
    rw [Metric.dispatched, if_neg none]
    exact ⟨rfl, List.nil_sublist _, fun _ => rfl, fun _ => rfl, rfl⟩

theorem failure (kind : DecodeError.Kind) (defect : Bool) (source : Source) (retained : Nat) :
    strategy.Tells [.failed kind defect source retained] [] 0
      [.noted (.failed kind defect source retained), .counted (.errors kind.name) 1] where
  memory       := rfl
  warned       := List.Sublist.refl _
  warnings _   := rfl
  errors other := by cases kind <;> cases other <;> rfl
  frames       := rfl

end Strategy.Tells

namespace Trace.Invoked

variable (invoked : Invoked φ ε)

-- What is handed over for the invocation to a receiver that does not break off.
def announced (grouping : Grouping) : List (Event φ μ) :=
  if invoked.yields then invoked.found.events grouping invoked.context.source else []

-- The frames in that.
def yielded : List φ :=
  if invoked.yields then invoked.found.frames else []

theorem flatMap_frames_announced (grouping : Grouping) :
    (invoked.announced (μ := μ) grouping).flatMap Event.frames = invoked.yielded := by
  rw [announced, yielded]
  split
  case isTrue  => exact Found.flatMap_frames_events ..
  case isFalse => rfl

end Trace.Invoked

namespace Trace

-- Where groups stay together, each result makes one event.
theorem length_flatMap_announced (made : List (Invoked φ ε)) :
    (made.flatMap (·.announced (μ := μ) .together)).length = made.countP (·.yields) := by
  induction made
  case nil => rfl
  case cons invoked made ih =>
    have one : (invoked.announced (μ := μ) .together).length = if invoked.yields then 1 else 0 := by
      rw [Invoked.announced]
      split
      case isFalse => rfl
      case isTrue yields =>
        have isResult : invoked.found.isResult := (Bool.and_eq_true_iff.mp yields).1
        cases found : invoked.found
        case nothing       => simp [found, Found.isResult] at isResult
        case frame | group => rfl
    rw [List.flatMap_cons, List.length_append, List.countP_cons, one, ih, Nat.add_comm]

theorem flatMap_frames_dispatched (trace : Trace φ ε μ) :
    trace.dispatched.flatMap Event.frames = trace.events.flatMap Event.frames := by
  rw [dispatched]
  induction trace.events
  case nil => rfl
  case cons event events ih =>
    cases event
    case frame frame _   => exact congrArg ([frame] ++ ·) ih
    case batch frames _  => exact congrArg (frames ++ ·) ih
    case message | ended => exact ih

end Trace

end Framing
