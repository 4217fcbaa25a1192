import Framing.Decoder.Call
import Framing.Proofs.Feeding

/-!
Runs of calls, and deliveries: chunks with the sources that they come from.
-/

namespace Framing.Decoder

variable {σ φ ε μ : Type} (decoder : Decoder σ φ ε μ)

theorem run_append (calls more : List (Call μ)) (state : State σ φ ε μ) :
    decoder.run (calls ++ more) state =
      ((decoder.run calls state).1 ++ (decoder.run more (decoder.run calls state).2).1,
        (decoder.run more (decoder.run calls state).2).2) := by
  induction calls generalizing state
  case nil => rfl
  case cons call calls ih => simp [run, ih]

-- The calls that feed each of the chunks, whatever becomes of those before it.
def feeding (deliveries : List (Bytes × Source)) : List (Call μ) :=
  deliveries.map fun (chunk, source) => .feed chunk source

-- All the bytes of the chunks.
def delivered (deliveries : List (Bytes × Source)) : Bytes :=
  (deliveries.map Prod.fst).flatten

@[simp]
theorem delivered_cons (chunk : Bytes) (source : Source) (deliveries : List (Bytes × Source)) :
    delivered ((chunk, source) :: deliveries) = chunk ++ delivered deliveries :=
  rfl

@[simp]
theorem delivered_append (deliveries more : List (Bytes × Source)) :
    delivered (deliveries ++ more) = delivered deliveries ++ delivered more := by
  simp [delivered]

variable (deliveries : List (Bytes × Source)) (chunk : Bytes) (source : Source)
variable (state : State σ φ ε μ)

theorem returns_perform_feed : (decoder.perform (.feed chunk source) state).1.returns =
    (decoder.feed chunk source state).1.returns :=
  Outcome.returns_map ..

theorem run_feeding_cons : decoder.run (feeding ((chunk, source) :: deliveries)) state =
    ((decoder.perform (.feed chunk source) state).1 ::
        (decoder.run (feeding deliveries) (decoder.feed chunk source state).2).1,
      (decoder.run (feeding deliveries) (decoder.feed chunk source state).2).2) :=
  rfl

theorem run_feeding_concat : decoder.run (feeding (deliveries ++ [(chunk, source)])) state =
    ((decoder.run (feeding deliveries) state).1 ++
        [(decoder.perform (.feed chunk source) (decoder.run (feeding deliveries) state).2).1],
      (decoder.feed chunk source (decoder.run (feeding deliveries) state).2).2) := by
  simp only [feeding, List.map_append, run_append]
  rfl

-- Feeds the chunks in order, up to the first that does not go well.
def feedEach : List (Bytes × Source) → State σ φ ε μ →
    Outcome (DecodeError ε) Unit × State σ φ ε μ
  | [], state                            => (.done (), state)
  | (chunk, source) :: deliveries, state =>
    match decoder.feed chunk source state with
    | (.done (), state) => feedEach deliveries state
    | (outcome, state)  => (outcome, state)

section FeedEach

variable {decoder} {deliveries} {chunk} {source} {state}

theorem feedEach_cons_of_done (done : (decoder.feed chunk source state).1 = .done ()) :
    decoder.feedEach ((chunk, source) :: deliveries) state =
      decoder.feedEach deliveries (decoder.feed chunk source state).2 := by
  rw [feedEach]
  split <;> simp_all

theorem feedEach_cons_of_ne (broken : (decoder.feed chunk source state).1 ≠ .done ()) :
    decoder.feedEach ((chunk, source) :: deliveries) state = decoder.feed chunk source state := by
  rw [feedEach]
  split <;> simp_all

theorem feedAll_eq_feedEach (chunks : List Bytes) : decoder.feedAll source chunks state =
    decoder.feedEach (chunks.map fun chunk => (chunk, source)) state := by
  induction chunks generalizing state
  case nil => rfl
  case cons chunk chunks ih =>
    rw [feedAll, List.map_cons, feedEach]
    split <;> simp_all

-- If not all of the chunks go well, there is a first one that does not.
theorem feedEach_broken (broken : (decoder.feedEach deliveries state).1 ≠ .done ()) :
    ∃ before chunk source after, deliveries = before ++ (chunk, source) :: after ∧
      (decoder.feedEach before state).1 = .done () ∧
      decoder.feedEach deliveries state =
        decoder.feed chunk source (decoder.feedEach before state).2 := by
  induction deliveries generalizing state
  case nil => exact absurd rfl broken
  case cons delivery deliveries ih =>
    have ⟨chunk, source⟩ := delivery
    by_cases went : (decoder.feed chunk source state).1 = .done ()
    case pos =>
      rw [feedEach_cons_of_done went] at broken
      have ⟨before, _, _, after, split, done, eq⟩ := ih broken
      refine ⟨(chunk, source) :: before, _, _, after, congrArg _ split, ?_, ?_⟩
      · rwa [feedEach_cons_of_done went]
      · rwa [feedEach_cons_of_done went, feedEach_cons_of_done went]
    case neg => exact ⟨[], _, _, deliveries, rfl, rfl, feedEach_cons_of_ne went⟩

theorem feedEach_grows (deliveries : List (Bytes × Source)) (state : State σ φ ε μ) :
    ∃ made handed,
      Stage.Grows made handed state.toStage (decoder.feedEach deliveries state).2.toStage := by
  induction deliveries generalizing state
  case nil => exact ⟨[], [], .refl _⟩
  case cons delivery deliveries ih =>
    have ⟨chunk, source⟩ := delivery
    have ⟨_, _, grows⟩ := (decoder.feed_decodes chunk source state).grows
    by_cases done : (decoder.feed chunk source state).1 = .done ()
    case pos =>
      have ⟨_, _, grows'⟩ := ih (decoder.feed chunk source state).2
      rw [feedEach_cons_of_done done]
      exact ⟨_, _, grows.trans grows'⟩
    case neg =>
      rw [feedEach_cons_of_ne done]
      exact ⟨_, _, grows⟩

theorem feedEach_cons_invocations_subset :
    (decoder.feed chunk source state).2.trace.invocations ⊆
      (decoder.feedEach ((chunk, source) :: deliveries) state).2.trace.invocations := by
  by_cases done : (decoder.feed chunk source state).1 = .done ()
  case pos =>
    have ⟨_, _, grows⟩ := decoder.feedEach_grows deliveries (decoder.feed chunk source state).2
    rw [feedEach_cons_of_done done]
    exact grows.invocations_subset
  case neg =>
    rw [feedEach_cons_of_ne done]
    exact List.Subset.refl _

end FeedEach

-- Ends the stream, unless what was fed before did not go well.
def thenFinish (signal : EndSignal) (result : Outcome (DecodeError ε) Unit × State σ φ ε μ) :
    Outcome (DecodeError ε) Unit × State σ φ ε μ :=
  match result with
  | (.done (), state) => decoder.finish signal state
  | _                 => result

end Framing.Decoder
