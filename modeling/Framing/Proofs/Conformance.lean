import Framing.Proofs.Allocation
import Framing.Proofs.Checked
import Framing.Proofs.Delimited.Frames

/-!
What a decoder relies on in a strategy, and that the formats keep it. They come back from whatever they
are shown, and find nothing without consuming anything; so no decoder over one of them ever stalls.
-/

namespace Framing

variable {σ φ ε μ : Type}

-- The strategy comes back from every invocation, with a cursor within the bytes that it was shown.
-- Decoding finds nothing in no bytes, and consumes nothing where it fails.
structure Strategy.Conforms (strategy : Strategy σ φ ε) : Prop where
  returns   : ∀ state context unread,
    (strategy.decode state context unread).outcome.returns ∧
      (strategy.decode state context unread).consumed ≤ unread.length
  concludes : ∀ state context unread,
    (strategy.conclude state context unread).outcome.returns ∧
      (strategy.conclude state context unread).consumed ≤ unread.length
  progress  : ∀ state context unread found,
    (strategy.decode state context unread).outcome = .done found → found.isResult →
      0 < (strategy.decode state context unread).consumed
  unmoved   : ∀ state context unread error,
    (strategy.decode state context unread).outcome = .failed error →
      (strategy.decode state context unread).consumed = 0

namespace LengthPrefixed

-- How decoding `bytes` comes out, and how many of them that consumes.
inductive Decodes (format : LengthPrefixed) (bytes : Bytes) :
    Outcome FramingError (Found Bytes) → (consumed : Nat) → Prop
  | waits : Decodes format bytes (.done .nothing) 0
  | rejects {size} (excess : format.excess? bytes = some size) :
    Decodes format bytes (.failed (.oversized size format.limit)) 0
  | frame {size} (announced : announced? bytes = some size) :
    Decodes format bytes (.done (.frame ((bytes.drop headerSize).take size))) (headerSize + size)

theorem invocation_decodes (format : LengthPrefixed) (context : Context) (bytes : Bytes) :
    format.Decodes bytes (format.strategy.decode () context bytes).outcome
      (format.strategy.decode () context bytes).consumed := by
  have of_read {outcome : Outcome FramingError (Found Bytes)} {bench : Attempt.Bench Unit bytes}
      (read : format.decode { state := (), cursor := .start bytes } = (outcome, bench))
      (decodes : format.Decodes bytes outcome bench.cursor.position) :
      format.Decodes bytes (format.strategy.decode () context bytes).outcome
        (format.strategy.decode () context bytes).consumed := by
    have same : format.strategy.decode () context bytes = _ := Invocation.ofAttempt_eq read
    rwa [same]
  cases format.starts bytes
  case partialHeader announced => exact of_read (decode_of_partialHeader announced) .waits
  case oversized announced exceeds =>
    exact of_read (decode_of_oversized announced exceeds)
      (.rejects (excess?_eq_some_iff.mpr ⟨announced, exceeds⟩))
  case partialPayload announced within short =>
    exact of_read (decode_of_partialPayload announced within short) .waits
  case frame announced within enough =>
    have ⟨cursor, position, read⟩ := decode_start_of_frame announced within enough
    exact of_read read (position ▸ .frame announced)

namespace Decodes

variable {format : LengthPrefixed} {bytes : Bytes} {consumed : Nat}

theorem returns {outcome : Outcome FramingError (Found Bytes)}
    (decodes : format.Decodes bytes outcome consumed) : outcome.returns := by
  cases decodes <;> rfl

theorem progress {found : Found Bytes} (decodes : format.Decodes bytes (.done found) consumed)
    (isResult : found.isResult) : 0 < consumed := by
  cases decodes
  case waits => exact absurd isResult Found.not_isResult_nothing
  case frame => exact Nat.lt_of_lt_of_le (by decide) (Nat.le_add_right headerSize _)

theorem unmoved_of_failed {error : FramingError}
    (decodes : format.Decodes bytes (.failed error) consumed) : consumed = 0 := by
  cases decodes
  rfl

theorem unmoved_of_nothing (decodes : format.Decodes bytes (.done .nothing) consumed) :
    consumed = 0 := by
  cases decodes
  rfl

end Decodes

section Conclude

variable {format : LengthPrefixed} {bytes payload : Bytes} {size : Nat}
variable {bench bench' : Attempt.Bench Unit bytes} (nonempty : bench.cursor.remaining ≠ 0)
include nonempty

theorem conclude_of_oversized (announced : announced? bench.cursor.unread = some size)
    (exceeds : format.limit < size) :
    format.conclude bench = (.failed (.oversized size format.limit), bench) := by
  simp only [conclude, Attempt.bind_cursor, if_neg nonempty]
  exact Attempt.bind_of_failed _ (decode_of_oversized announced exceeds)

theorem conclude_of_frame (read : format.decode bench = (.done (.frame payload), bench')) :
    format.conclude bench = (.done (.frame payload), bench') := by
  simp only [conclude, Attempt.bind_cursor, if_neg nonempty]
  exact Attempt.bind_of_done _ read

end Conclude

-- At the end of a stream, what decoding waits on is an error, unless there is nothing to wait on.
theorem conclude_settles (format : LengthPrefixed) (context : Context) (bytes : Bytes) :
    (format.strategy.conclude () context bytes).outcome.returns ∧
      ((format.strategy.conclude () context bytes).outcome = .done .nothing → bytes = []) := by
  have of_read {outcome : Outcome FramingError (Found Bytes)} {bench : Attempt.Bench Unit bytes}
      (read : format.conclude { state := (), cursor := .start bytes } = (outcome, bench))
      (settles : outcome.returns ∧ (outcome = .done .nothing → bytes = [])) :
      (format.strategy.conclude () context bytes).outcome.returns ∧
        ((format.strategy.conclude () context bytes).outcome = .done .nothing → bytes = []) := by
    have same : format.strategy.conclude () context bytes = _ := Invocation.ofAttempt_eq read
    rwa [same]
  by_cases empty : (Cursor.start bytes).remaining = 0
  case pos =>
    exact of_read (conclude_of_empty empty) ⟨rfl, fun _ => List.eq_nil_of_length_eq_zero empty⟩
  case neg =>
    cases format.starts bytes
    case partialHeader announced =>
      exact of_read (conclude_of_partialHeader empty announced) ⟨rfl, nofun⟩
    case oversized announced exceeds =>
      exact of_read (conclude_of_oversized empty announced exceeds) ⟨rfl, nofun⟩
    case partialPayload announced within short =>
      exact of_read (conclude_of_partialPayload announced within short empty) ⟨rfl, nofun⟩
    case frame announced within enough =>
      have ⟨_, _, read⟩ := decode_start_of_frame announced within enough
      exact of_read (conclude_of_frame empty read) ⟨rfl, nofun⟩

theorem conclude_unmoved_of_nothing (format : LengthPrefixed) (context : Context) (bytes : Bytes)
    (nothing : (format.strategy.conclude () context bytes).outcome = .done .nothing) :
    (format.strategy.conclude () context bytes).consumed = 0 := by
  have le := format.strategy.conclude_consumed_le () context bytes
  rw [(format.conclude_settles context bytes).2 nothing] at le ⊢
  exact Nat.le_zero.mp le

theorem conforms (format : LengthPrefixed) : format.strategy.Conforms where
  returns _ context bytes :=
    ⟨(format.invocation_decodes context bytes).returns, format.strategy.decode_consumed_le ..⟩
  concludes _ context bytes :=
    ⟨(format.conclude_settles context bytes).1, format.strategy.conclude_consumed_le ..⟩
  progress _ context bytes _ outcome isResult :=
    (outcome ▸ format.invocation_decodes context bytes).progress isResult
  unmoved _ context bytes _ outcome :=
    (outcome ▸ format.invocation_decodes context bytes).unmoved_of_failed

end LengthPrefixed

namespace Delimited

namespace Decodes

variable {format : Delimited} {bytes : Bytes} {skipping after : Bool} {consumed : Nat}

theorem returns {outcome : Outcome FramingError (Found Bytes)}
    (decodes : format.Decodes bytes skipping outcome consumed after) : outcome.returns := by
  cases decodes <;> rfl

theorem unmoved_of_failed {error : FramingError}
    (decodes : format.Decodes bytes skipping (.failed error) consumed after) : consumed = 0 := by
  cases decodes <;> rfl

end Decodes

theorem conforms (format : Delimited) : format.strategy.Conforms where
  returns skipping context bytes :=
    ⟨(format.invocation_decodes skipping context bytes).returns,
      format.strategy.decode_consumed_le ..⟩
  concludes skipping context bytes := by
    refine ⟨?_, format.strategy.conclude_consumed_le ..⟩
    rw [format.conclude_outcome skipping context bytes]
    split
    case isTrue  => split <;> rfl
    case isFalse => exact (format.invocation_decodes skipping context bytes).returns
  progress skipping context bytes _ outcome isResult :=
    (outcome ▸ format.invocation_decodes skipping context bytes).progress isResult
  unmoved skipping context bytes _ outcome :=
    (outcome ▸ format.invocation_decodes skipping context bytes).unmoved_of_failed

end Delimited

namespace Strategy

-- A box keeps what all that it may hold keep.
theorem Conforms.boxed {ι : Type} {κ : ι → Type} {strategies : ∀ i, Strategy (κ i) φ ε}
    (conform : ∀ i, (strategies i).Conforms) : (boxed strategies).Conforms where
  returns box   := (conform box.1).returns box.2
  concludes box := (conform box.1).concludes box.2
  progress box  := (conform box.1).progress box.2
  unmoved box   := (conform box.1).unmoved box.2

-- The formats, by themselves or in boxes.
inductive Reference : {σ : Type} → Strategy σ Bytes FramingError → Prop
  | lengthPrefixed (format : LengthPrefixed) : Reference format.strategy
  | delimited (format : Delimited) : Reference format.strategy
  | boxed {ι : Type} {κ : ι → Type} {strategies : ∀ i, Strategy (κ i) Bytes FramingError}
    (references : ∀ i, Reference (strategies i)) : Reference (boxed strategies)

theorem Reference.conforms {strategy : Strategy σ Bytes FramingError}
    (reference : strategy.Reference) : strategy.Conforms := by
  induction reference
  case lengthPrefixed format => exact format.conforms
  case delimited format      => exact format.conforms
  case boxed ih              => exact .boxed ih

end Strategy

namespace Decoder

variable {decoder : Decoder σ φ ε μ}

-- The call has not stalled, and unless the receiver broke off it has come back.
structure Smooth {α : Type} (decoder : Decoder σ φ ε μ) (outcome : Outcome (DecodeError ε) α) :
    Prop where
  moves   : ∀ results, outcome ≠ .failed (.stalled results)
  returns : decoder.receiver.Steady → outcome.returns

namespace Smooth

variable {α β : Type} {outcome : Outcome (DecodeError ε) α}

theorem done (value : α) : decoder.Smooth (.done value : Outcome (DecodeError ε) α) :=
  ⟨nofun, fun _ => rfl⟩

theorem failed (error : ε) : decoder.Smooth (.failed (.strategy error) : Outcome _ α) :=
  ⟨nofun, fun _ => rfl⟩

theorem refused {fault : Fault} (refused : ¬decoder.receiver.Steady) :
    decoder.Smooth (.faulted fault : Outcome (DecodeError ε) α) :=
  ⟨nofun, fun steady => absurd steady refused⟩

theorem map (smooth : decoder.Smooth outcome) (f : α → β) : decoder.Smooth (outcome.map f) :=
  ⟨fun results stalled => smooth.moves results (Outcome.eq_failed_of_map stalled),
    fun steady => (Outcome.returns_map outcome f).trans (smooth.returns steady)⟩

end Smooth

theorem not_steady_of_dispatch {found : Found φ} {source : Source} {fault : Fault}
    {stage after : Stage σ φ ε μ} (d : decoder.dispatch found source stage = (some fault, after)) :
    ¬decoder.receiver.Steady := fun steady =>
  nomatch (congrArg Prod.fst d).symm.trans (dispatch_fault_of_steady steady found source stage)

theorem not_steady_of_hand {event : Event φ μ} {fault : Fault} {stage after : Stage σ φ ε μ}
    (handed : decoder.hand event stage = (some fault, after)) : ¬decoder.receiver.Steady :=
  fun steady => steady _ _ _ (hand_refused handed)

theorem forward_smooth (signal : EndSignal)
    {result : Outcome (DecodeError ε) Unit × State σ φ ε μ} (smooth : decoder.Smooth result.1) :
    decoder.Smooth (decoder.forward signal result).1 := by
  rcases handed : decoder.hand (.ended signal) result.2.toStage with ⟨_ | fault, after⟩
  case none => simpa only [forward, handed] using smooth
  case some =>
    simp only [forward, handed]
    split
    case isTrue  => exact .refused (not_steady_of_hand handed)
    case isFalse => exact smooth

theorem abort_smooth (signal : EndSignal) (state : State σ φ ε μ) :
    decoder.Smooth (decoder.abort signal state).1 :=
  (forward_smooth signal (.done ())).map _

section Conforms

variable (conforms : decoder.strategy.Conforms)
include conforms

theorem Rounds.smooth {unread : Bytes} {position results : Nat} {stage : Stage σ φ ε μ}
    {pass : Pass σ φ ε μ} (rounds : decoder.Rounds unread position results stage pass) :
    decoder.Smooth pass.outcome := by
  induction rounds
  case exhausted | waiting     => exact .done _
  case failed                  => exact .failed _
  case skipped ih | dispatched ih => exact ih
  case refused d               => exact .refused (not_steady_of_dispatch d)
  case faulted unread _ _ stage _ _ _ _ h =>
    have ⟨_, eq⟩ := invoke_eq h
    have ⟨returns, _⟩ := conforms.returns stage.strategyState stage.context unread
    rw [← invocation_false, eq] at returns
    cases returns
  case stalled unread _ _ stage found _ _ h isResult =>
    have ⟨_, eq⟩ := invoke_eq h
    have progress := conforms.progress stage.strategyState stage.context unread found
    rw [← invocation_false, eq] at progress
    exact absurd (progress rfl isResult) (Nat.lt_irrefl 0)

theorem conclude_smooth (unread : Bytes) (stage : Stage σ φ ε μ) :
    decoder.Smooth (decoder.conclude unread stage).1 := by
  rcases h : decoder.invoke true unread stage with ⟨outcome, consumed, after⟩
  cases outcome
  case failed error => exact conclude_of_failed h ▸ .failed error
  case faulted      =>
    have ⟨_, eq⟩ := invoke_eq h
    have ⟨returns, _⟩ := conforms.concludes stage.strategyState stage.context unread
    rw [← invocation_true, eq] at returns
    cases returns
  case done found =>
    rw [conclude_of_done h]
    dsimp only
    split
    case isFalse => exact .done ()
    case isTrue  =>
      rcases d : decoder.dispatch found none _ with ⟨_ | fault, final⟩
      case none => exact .done ()
      case some => exact .refused (not_steady_of_dispatch d)

theorem flush_smooth (unread : Bytes) (position : Nat) (stage : Stage σ φ ε μ) :
    decoder.Smooth (decoder.flush unread position stage).1 := by
  let begun := stage.beginEnding.note (.ending unread.length)
  have passed := (decoder.rounds_pass unread position 0 begun).smooth conforms
  simp only [flush]
  split
  case isTrue  => exact conclude_smooth conforms ..
  case isFalse =>
    split
    case h_1         => exact conclude_smooth conforms ..
    case h_2 outcome => exact (outcome ▸ passed).map fun _ => ()
    case h_3 outcome => exact (outcome ▸ passed).map fun _ => ()

theorem feed_smooth (chunk : Bytes) (source : Source) {state : State σ φ ε μ}
    (sound : state.retention.Sound) : decoder.Smooth (decoder.feed chunk source state).1 := by
  rcases decoder.feed_cases chunk source sound with ⟨_, eq⟩ | ⟨_, fed⟩
  case inl => exact eq ▸ .done ()
  case inr =>
    have ⟨_, _, rounds⟩ := fed.rounds
    exact fed.outcome ▸ (rounds.smooth conforms).map _

theorem finish_smooth (signal : EndSignal) (state : State σ φ ε μ) :
    decoder.Smooth (decoder.finish signal state).1 := by
  cases ended : state.ended
  case true  => exact finish_of_ended ended signal ▸ forward_smooth signal (.done ())
  case false =>
    rw [finish_of_runs ended rfl]
    apply forward_smooth
    rw [recorded_fst]
    exact flush_smooth conforms ..

theorem perform_smooth (call : Call μ) {state : State σ φ ε μ} (sound : state.retention.Sound) :
    decoder.Smooth (decoder.perform call state).1 := by
  rcases call with (⟨chunk, source⟩ | content | signal) | ⟨chunk, source⟩ | signal | signal
  case receive.chunk | feed   => exact (feed_smooth conforms chunk source sound).map _
  case receive.ended | finish => exact (finish_smooth conforms signal state).map _
  case abort                  => exact (abort_smooth signal state).map _
  case receive.message        =>
    rcases handed : decoder.hand (.message content) state.toStage with ⟨_ | fault, after⟩ <;>
      simp only [perform, receive, handed]
    case none => exact .done Reply.unit
    case some => exact .refused (not_steady_of_hand handed)

theorem run_smooth (calls : List (Call μ)) {state : State σ φ ε μ} (sound : state.retention.Sound) :
    ∀ outcome ∈ (decoder.run calls state).1, decoder.Smooth outcome := by
  induction calls generalizing state
  case nil => exact nofun
  case cons call calls ih =>
    exact List.forall_mem_cons.mpr
      ⟨perform_smooth conforms call sound, ih (decoder.perform_sound call sound)⟩

end Conforms
end Decoder

-- Whatever the limit, the delimiter and the state, and whatever the formats are shown. Words of 64 bits
-- are enough for their arithmetic, as no view is longer than such a word can tell.
theorem Strategy.formats_conform :
    (∀ format : LengthPrefixed, format.strategy.Conforms ∧ ∀ unread : Bytes,
      (∀ context,
        ((format.strategy.decode () context unread).outcome = .done .nothing →
          (format.strategy.decode () context unread).consumed = 0) ∧
        ((format.strategy.conclude () context unread).outcome = .done .nothing →
          (format.strategy.conclude () context unread).consumed = 0)) ∧
      format.checkedDecode = (format.decode : Attempt Unit FramingError unread (Found Bytes)) ∧
      format.checkedConclude =
        (format.conclude : Attempt Unit FramingError unread (Found Bytes))) ∧
    (∀ format : Delimited, format.strategy.Conforms ∧ ∀ unread : Bytes, unread.length < 2 ^ 64 →
      format.checkedDecode = (format.decode : Attempt Bool FramingError unread (Found Bytes)) ∧
      format.checkedConclude =
        (format.conclude : Attempt Bool FramingError unread (Found Bytes))) ∧
    ∀ {σ μ : Type} (decoder : Decoder σ Bytes FramingError μ), decoder.strategy.Reference →
      ∀ (start : σ) (calls : List (Decoder.Call μ)),
      ∀ outcome ∈ (decoder.run calls (.initial start)).1,
        (∀ results, outcome ≠ .failed (.stalled results)) ∧
        (decoder.receiver.Steady → outcome.returns) := by
  refine ⟨fun format => ⟨format.conforms, fun unread => ⟨fun context => ⟨?_, ?_⟩, ?_, ?_⟩⟩,
    fun format => ⟨format.conforms, fun unread short => ⟨?_, ?_⟩⟩,
    fun decoder reference start calls outcome mem => ?_⟩
  · exact fun nothing =>
      (nothing ▸ format.invocation_decodes context unread).unmoved_of_nothing
  · exact format.conclude_unmoved_of_nothing context unread
  · exact format.checkedDecode_eq
  · exact format.checkedConclude_eq
  · exact format.checkedDecode_eq short
  · exact format.checkedConclude_eq short
  · have ⟨moves, returns⟩ := Decoder.run_smooth reference.conforms calls
      Retention.initial_rests.sound outcome mem
    exact ⟨moves, returns⟩

-- A delimiter that is longer than the first chunks, and a frame over the limit that is skipped.
theorem Strategy.formats_conform_in_box :
    let format : Delimited :=
      { delimiter := [13, 10, 13, 10], delimiter_ne_nil := nofun, limit := 1, skipOversized := true }
    let decoder : Decoder (Σ _ : Delimited, Bool) Bytes FramingError Unit :=
      { strategy := boxed fun format : Delimited => format.strategy, receiver := .collecting }
    let calls : List (Decoder.Call Unit) :=
      [.feed [1, 2] none, .feed [13, 10] none, .feed [13, 10, 7] (some "a"), .finish .closed]
    let run := decoder.run calls (.initial ⟨format, false⟩)
    decoder.strategy.Reference ∧ decoder.receiver.Steady ∧
    run.1 = [.done .unit, .done .unit, .done .unit, .failed (.strategy (.unterminated 1))] ∧
    run.2.trace.events = [.ended .closed] ∧
    ∀ outcome ∈ run.1, (∀ results, outcome ≠ .failed (.stalled results)) ∧ outcome.returns := by
  intro format decoder calls run
  have reference : decoder.strategy.Reference := .boxed .delimited
  have steady : decoder.receiver.Steady := Receiver.collecting_steady
  have ⟨_, _, smooth⟩ := formats_conform
  refine ⟨reference, steady, by decide +kernel, by decide +kernel, fun outcome mem => ?_⟩
  have ⟨moves, returns⟩ := smooth decoder reference ⟨format, false⟩ calls outcome mem
  exact ⟨moves, returns steady⟩

end Framing
