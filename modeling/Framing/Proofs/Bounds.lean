import Framing.Proofs.Allocation
import Framing.Proofs.Delimited.Decoding
import Framing.Proofs.Fragmentation
import Framing.Proofs.LengthPrefixed
import Framing.Proofs.Lifecycle

/-!
Bounds on what is retained. A strategy that waits on few bytes only leaves few bytes behind, however
large the chunks are, and whatever became of the calls before.
-/

namespace Framing

variable {σ φ ε μ : Type}

-- The strategy stays in states that are `valid`, in none of which it waits on more than `bound`
-- bytes.
structure Strategy.Bounded (strategy : Strategy σ φ ε) (valid : σ → Prop) (bound : Nat) : Prop where
  keeps : ∀ state context unread, valid state →
    valid (strategy.decode state context unread).state
  waits : ∀ state context unread, valid state →
    (strategy.decode state context unread).Waits → unread.length ≤ bound

-- No invocation fails, and none finds a result in no bytes.
structure Strategy.Unfailing (strategy : Strategy σ φ ε) : Prop where
  ne_failed : ∀ state context unread error,
    (strategy.decode state context unread).outcome ≠ .failed error
  progress  : ∀ state context unread found,
    (strategy.decode state context unread).outcome = .done found → found.isResult →
      0 < (strategy.decode state context unread).consumed

namespace Decoder

variable {decoder : Decoder σ φ ε μ} {valid : σ → Prop} {bound : Nat}
variable {unread : Bytes} {position results : Nat} {stage : Stage σ φ ε μ} {pass : Pass σ φ ε μ}

-- A pass that goes well leaves nothing, or what the strategy waits on.
theorem Rounds.bounded (bounded : decoder.strategy.Bounded valid bound)
    (rounds : decoder.Rounds unread position results stage pass)
    (first : valid stage.strategyState) :
    valid pass.stage.strategyState ∧
      ∀ total, pass.outcome = .done total → pass.unread.length ≤ bound := by
  have keeps {unread outcome consumed} {stage after : Stage σ φ ε μ}
      (invoked : decoder.invoke false unread stage = (outcome, consumed, after))
      (first : valid stage.strategyState) : valid after.strategyState := by
    have ⟨_, eq⟩ := invoke_eq invoked
    have := bounded.keeps stage.strategyState stage.context unread first
    rwa [← invocation_false, eq] at this
  induction rounds
  case exhausted => exact ⟨first, fun _ _ => Nat.zero_le _⟩
  case waiting unread _ _ stage _ _ h =>
    have kept := keeps h first
    have ⟨_, eq⟩ := invoke_eq h
    have waits := bounded.waits stage.strategyState stage.context unread first
    rw [← invocation_false, eq] at waits
    exact ⟨kept, fun _ _ => waits ⟨rfl, rfl⟩⟩
  case failed h | faulted h | stalled h _ =>
    have kept := keeps h first
    exact ⟨kept, nofun⟩
  case refused h _ _ d => exact ⟨dispatch_strategyState d ▸ keeps h first, nofun⟩
  case skipped h _ _ ih =>
    have kept := keeps h first
    exact ih kept
  case dispatched h _ _ d _ ih => exact ih (dispatch_strategyState d ▸ keeps h first)

theorem Rounds.ne_failed (unfailing : decoder.strategy.Unfailing)
    (rounds : decoder.Rounds unread position results stage pass) (error : DecodeError ε) :
    pass.outcome ≠ .failed error := by
  induction rounds
  case exhausted | waiting | faulted | refused => exact nofun
  case failed unread _ _ stage _ _ _ _ h =>
    have ⟨_, eq⟩ := invoke_eq h
    exact absurd (congrArg Invocation.outcome eq) (unfailing.ne_failed _ _ _ _)
  case stalled unread _ _ stage found _ _ h isResult =>
    have ⟨_, eq⟩ := invoke_eq h
    have progress := unfailing.progress stage.strategyState stage.context unread found
    rw [← invocation_false, eq] at progress
    exact absurd (progress rfl isResult) (Nat.lt_irrefl 0)
  case skipped ih | dispatched ih => exact ih

-- At most `bound` bytes are retained, in a buffer that is as large as the provider makes it for
-- them.
structure State.Retains (allocator : Allocator) (bound : Nat) (state : State σ φ ε μ) : Prop where
  length_le : state.retention.unread.length ≤ bound
  fitted    : state.retention.Fitted allocator

section Feed

variable {chunk : Bytes} {state : State σ φ ε μ}

theorem feed_ne_failed (unfailing : decoder.strategy.Unfailing) (chunk : Bytes) (source : Source)
    (sound : state.retention.Sound) (error : DecodeError ε) :
    (decoder.feed chunk source state).1 ≠ .failed error := by
  cases decoder.feed_cases chunk source sound
  case inl ignored =>
    have ⟨_, eq⟩ := ignored
    exact eq ▸ nofun
  case inr passed =>
    have ⟨pass, fed⟩ := passed
    have ⟨_, _, rounds⟩ := fed.rounds
    rw [fed.outcome]
    exact fun failed => rounds.ne_failed unfailing error (Outcome.eq_failed_of_map failed)

theorem feed_keeps (bounded : decoder.strategy.Bounded valid bound) (chunk : Bytes) (source : Source)
    (sound : state.retention.Sound) (first : valid state.strategyState) :
    valid (decoder.feed chunk source state).2.strategyState := by
  cases decoder.feed_cases chunk source sound
  case inl ignored =>
    have ⟨_, eq⟩ := ignored
    exact eq ▸ first
  case inr passed =>
    have ⟨pass, fed⟩ := passed
    have ⟨_, _, rounds⟩ := fed.rounds
    have ⟨_, stage⟩ := fed.stage
    rw [stage]
    exact (rounds.bounded bounded first).1

theorem feed_retains (bounded : decoder.strategy.Bounded valid bound) (nonempty : chunk ≠ [])
    (source : Source) (runs : state.ended = false) (sound : state.retention.Sound)
    (first : valid state.strategyState) (done : (decoder.feed chunk source state).1 = .done ()) :
    (decoder.feed chunk source state).2.Retains decoder.allocator bound where
  length_le := by
    have ⟨pass, fed⟩ := decoder.feed_fed nonempty source runs sound
    have ⟨_, _, rounds⟩ := fed.rounds
    have ⟨total, outcome⟩ := Outcome.eq_done_of_map (fed.outcome.symm.trans done)
    have rests := fed.rests (by rw [outcome]; rfl)
    exact rests.unread_eq ▸ (rounds.bounded bounded first).2 total outcome
  fitted    := decoder.feed_fitted nonempty source runs (by rw [done]; rfl)

end Feed

-- As long as the stream goes on, nothing but feeding has changed the state of the strategy.
theorem run_keeps (bounded : decoder.strategy.Bounded valid bound) {start : σ} (first : valid start)
    (calls : List (Call μ)) (runs : (decoder.run calls (.initial start)).2.ended = false) :
    valid (decoder.run calls (.initial start)).2.strategyState := by
  induction calls using List.reverseRecOn
  case nil => exact first
  case append_singleton calls call ih =>
    let before := (decoder.run calls (.initial start)).2
    have last : (decoder.run (calls ++ [call]) (.initial start)).2 =
        (decoder.perform call before).2 := by
      rw [run_append]
      rfl
    rw [last, perform_ended, Bool.or_eq_false_iff] at runs
    have first := ih runs.1
    have sound := decoder.run_sound start calls
    rw [last]
    rcases call with (⟨chunk, source⟩ | content | signal) | ⟨chunk, source⟩ | signal | signal
    case receive.chunk | feed => exact feed_keeps bounded chunk source sound first
    case receive.message =>
      have same : (decoder.perform (.receive (.message content)) before).2.strategyState =
          before.strategyState := hand_strategyState (Prod.eta _).symm
      exact same ▸ first
    all_goals cases runs.2

end Decoder

namespace LengthPrefixed

-- A header may be missing its last byte, and a payload as large as the limit, too.
theorem bounded (format : LengthPrefixed) :
    format.strategy.Bounded (fun _ => True) (format.limit + 3) where
  keeps _ _ _ _ := trivial
  waits := by
    rintro _ context bytes _ ⟨outcome, _⟩
    have computed {outcome : Outcome FramingError (Found Bytes)} {bench : Attempt.Bench Unit bytes}
        (decoded : format.decode { state := (), cursor := .start bytes } = (outcome, bench)) :
        (format.strategy.decode () context bytes).outcome = outcome :=
      congrArg Invocation.outcome (Invocation.ofAttempt_eq decoded)
    cases format.starts bytes
    case partialHeader announced =>
      have short : bytes.length < headerSize := by simpa [announced?] using announced
      rw [headerSize] at short
      omega
    case oversized announced exceeds =>
      cases (computed (decode_of_oversized announced exceeds)).symm.trans outcome
    case partialPayload within short =>
      rw [headerSize] at short
      omega
    case frame announced within enough =>
      obtain ⟨_, _, decoded⟩ := decode_start_of_frame announced within enough
      cases (computed decoded).symm.trans outcome

end LengthPrefixed

namespace Delimited

theorem bounded_of_strict {format : Delimited} (strict : format.skipOversized = false) :
    format.strategy.Bounded (· = false) format.limit where
  keeps := by
    rintro _ context bytes rfl
    exact (format.invocation_decodes false context bytes).not_skipping strict
  waits := by
    rintro _ context bytes rfl ⟨outcome, consumed⟩
    have decodes := format.invocation_decodes false context bytes
    have fresh := decodes.not_skipping strict
    rw [outcome, consumed] at decodes
    cases decodes.length_le_of_waiting
    case inl within => exact within
    case inr lost   => cases fresh.symm.trans lost.1

theorem bounded (format : Delimited) :
    format.strategy.Bounded (fun _ => True) (max format.limit (format.delimiter.length - 1)) where
  keeps _ _ _ _ := trivial
  waits := by
    rintro skipping context bytes _ ⟨outcome, consumed⟩
    have decodes := format.invocation_decodes skipping context bytes
    rw [outcome, consumed] at decodes
    cases decodes.length_le_of_waiting <;> omega

theorem unfailing {format : Delimited} (lenient : format.skipOversized) :
    format.strategy.Unfailing where
  ne_failed skipping context bytes :=
    (format.invocation_decodes skipping context bytes).ne_failed lenient
  progress skipping context bytes found outcome isResult := by
    have decodes := format.invocation_decodes skipping context bytes
    rw [outcome] at decodes
    exact decodes.progress isResult

end Delimited

namespace Decoder

-- Any of the calls may have failed or have been cut short, and a chunk may be of any size. The
-- buffer is the provider's answer to its last request, which was for the larger of what is unread and
-- the least that is ever requested.
theorem run_feed_retains (calls : List (Call μ)) {chunk : Bytes} (nonempty : chunk ≠ [])
    (source : Source) :
    (∀ (format : LengthPrefixed) (decoder : Decoder Unit Bytes FramingError μ),
      decoder.strategy = format.strategy →
      let state := (decoder.run calls (.initial ())).2
      let fed   := decoder.feed chunk source state
      state.ended = false → fed.1 = .done () →
        fed.2.Retains decoder.allocator (format.limit + 3)) ∧
    ∀ (format : Delimited) (decoder : Decoder Bool Bytes FramingError μ),
      decoder.strategy = format.strategy →
      let state := (decoder.run calls (.initial false)).2
      let fed   := decoder.feed chunk source state
      let bound := if format.skipOversized then
          max format.limit (format.delimiter.length - 1)
        else
          format.limit
      (format.skipOversized → ∀ error, fed.1 ≠ .failed error) ∧
      (state.ended = false → fed.1 = .done () → fed.2.Retains decoder.allocator bound) := by
  constructor
  · intro format decoder uses state fed runs done
    have bounded := uses ▸ format.bounded
    exact feed_retains bounded nonempty source runs (decoder.run_sound () calls) trivial done
  · intro format decoder uses state fed bound
    have sound := decoder.run_sound false calls
    refine ⟨fun lenient => ?_, fun runs done => ?_⟩
    · exact feed_ne_failed (uses ▸ Delimited.unfailing lenient) chunk source sound
    · cases mode : format.skipOversized
      case true =>
        have bounded := uses ▸ format.bounded
        simpa [bound, mode] using feed_retains bounded nonempty source runs sound trivial done
      case false =>
        have bounded := uses ▸ Delimited.bounded_of_strict mode
        have first   := run_keeps bounded rfl calls runs
        simpa [bound, mode] using feed_retains bounded nonempty source runs sound first done

-- Both bounds are reached, after a message at which the receiver breaks off: by a payload of the
-- limit of which the last byte is missing, and behind a frame that is skipped by three bytes that a
-- delimiter may begin with.
theorem run_feed_retains_all_there_may_be :
    let allocator : Allocator := { provider := .padding 5 8 [7], floor := 4 }
    let receiver : Receiver Bytes Unit := .refusingAt [1] .collecting
    let prefixed : LengthPrefixed := { limit := 2 }
    let delimited : Delimited :=
      { delimiter := [0, 0, 0, 1], delimiter_ne_nil := nofun, limit := 2, skipOversized := true }
    let calls : List (Call Unit) := [.feed [0, 0, 0, 1, 9, 0, 0, 0, 2] none, .receive (.message ())]
    let first : Decoder Unit Bytes FramingError Unit :=
      { strategy := prefixed.strategy, receiver, allocator }
    let second : Decoder Bool Bytes FramingError Unit :=
      { strategy := delimited.strategy, receiver, allocator }
    let fed  := first.feed [0] none (first.run calls (.initial ())).2
    let fed' := second.feed [0] none (second.run calls (.initial false)).2
    (first.run calls (.initial ())).1 = [.done .unit, .faulted (.refused 1)] ∧
    fed.1 = .done () ∧ fed.2.retention.buffer =
      some { written := [0, 0, 0, 2, 0], consumed := 0, capacity := 16 } ∧
    fed.2.Retains allocator 5 ∧
    (second.run calls (.initial false)).1 = [.done .unit, .faulted (.refused 1)] ∧
    fed'.1 = .done () ∧ fed'.2.retention.buffer =
      some { written := [0, 2, 0], consumed := 0, capacity := 16 } ∧
    fed'.2.Retains allocator 3 := by
  intro allocator receiver prefixed delimited calls first second fed fed'
  have done  : fed.1 = .done () := by decide +kernel
  have done' : fed'.1 = .done () := by decide +kernel
  have ⟨retains, retains'⟩ := run_feed_retains calls (List.cons_ne_nil 0 []) none
  have retained  := retains prefixed first rfl (by decide +kernel) done
  have retained' := (retains' delimited second rfl).2 (by decide +kernel) done'
  exact ⟨by decide +kernel, done, by decide +kernel, retained, by decide +kernel, done',
    by decide +kernel, retained'⟩

end Decoder
end Framing
