import Framing.Proofs.Answers
import Framing.Proofs.Delimited.Decoding
import Framing.Strategy.LengthPrefixed

/-!
What the frames of a delimited format are like. Decoding finds none but such as are within the limit
and free of delimiters. At the end of a stream that is different: what follows a frame that is skipped
there is taken for the last frame, whatever it holds.
-/

namespace Framing
namespace Delimited

-- What the frame holds beside a delimiter that is kept is within the limit, and no delimiter is in it.
def Respects (format : Delimited) (frame : Bytes) : Prop :=
  ∃ content, (frame = content ∨ frame = format.shape content) ∧
    content.length ≤ format.limit ∧ content.offsetOf? format.delimiter = none

-- A frame at the start of `bytes` is skipped up to its delimiter, and `rest` comes behind that.
def Skips (format : Delimited) (skipping : Bool) (bytes rest : Bytes) : Prop :=
  ∃ index, bytes.offsetOf? format.delimiter = some index ∧
    (skipping ∨ format.limit < index ∧ format.skipOversized) ∧
    rest = bytes.drop (index + format.delimiter.length)

variable {format : Delimited} {bytes : Bytes} {skipping after : Bool} {consumed : Nat}
variable {outcome : Outcome FramingError (Found Bytes)}

theorem Decodes.respects {found : Found Bytes}
    (decodes : format.Decodes bytes skipping (.done found) consumed after) :
    ∀ frame ∈ found.frames, format.Respects frame := by
  cases decodes
  case frame index somewhere within =>
    intro frame mem
    obtain rfl := List.mem_singleton.mp mem
    exact ⟨bytes.take index, .inr rfl, Nat.le_trans (List.length_take_le ..) within,
      Bytes.offsetOf?_take_eq_none format.delimiter_ne_nil somewhere⟩
  all_goals exact nofun

-- Where nothing is found and nothing is being skipped, what is left is all there is, and it may have
-- become a frame; or something has been skipped before it.
theorem Decodes.left (decodes : format.Decodes bytes skipping (.done .nothing) consumed false) :
    (format.Respects bytes ∧ consumed = 0) ∨ format.Skips skipping bytes (bytes.drop consumed) := by
  cases decodes
  case within nowhere within => exact .inl ⟨⟨bytes, .inl rfl, within, nowhere⟩, rfl⟩
  case skipped somewhere     => exact .inr ⟨_, somewhere, .inl rfl, rfl⟩
  case oversized somewhere excess lenient =>
    exact .inr ⟨_, somewhere, .inr ⟨excess, lenient⟩, rfl⟩

-- At the end of a stream, what decoding leaves is the last frame or an error, unless a frame is found
-- before it or is still being skipped.
theorem conclude_outcome (format : Delimited) (skipping : Bool) (context : Context) (bytes : Bytes) :
    let decoded := format.strategy.decode skipping context bytes
    (format.strategy.conclude skipping context bytes).outcome =
      if decoded.outcome = .done .nothing ∧ decoded.state = false ∧
          bytes.drop decoded.consumed ≠ [] then
        if format.acceptTail then
          .done (.frame (bytes.drop decoded.consumed))
        else
          .failed (.unterminated (bytes.drop decoded.consumed).length)
      else
        decoded.outcome := by
  intro decoded
  have ⟨outcome, bench, eq, decodes⟩ := format.decodes skipping bytes
  have same : decoded = ⟨outcome, bench.cursor.position, bench.state, bench.notices⟩ :=
    Invocation.ofAttempt_eq eq
  have concluded : (format.strategy.conclude skipping context bytes).outcome =
      (format.conclude { state := skipping, cursor := .start bytes }).1 := rfl
  have left : bytes.drop bench.cursor.position = bench.cursor.unread := rfl
  rw [concluded, same, left, conclude]
  have exhausted_iff : bench.cursor.remaining = 0 ↔ bench.cursor.unread = [] := by
    rw [← Cursor.length_unread]
    exact List.length_eq_zero_iff
  rcases outcome with (_ | frame | frames) | error | fault
  case done.group | faulted => cases decodes
  case failed               => simp [Attempt.bind_of_failed _ eq]
  case done.frame           => simp [Attempt.bind_of_done _ eq, Found.isResult]
  case done.nothing =>
    rw [Attempt.bind_of_done _ eq]
    cases state : bench.state
    case true => simp [Found.isResult, state]
    case false =>
      by_cases exhausted : bench.cursor.unread = []
      case pos => simp [Found.isResult, exhausted_iff, exhausted]
      case neg =>
        cases accepts : format.acceptTail <;>
          simp [Found.isResult, state, exhausted_iff, exhausted, List.take_of_length_le]

theorem conclude_respects (context : Context) {found : Found Bytes}
    (h : (format.strategy.conclude skipping context bytes).outcome = .done found) :
    ∀ frame ∈ found.frames,
      format.Respects frame ∨ format.acceptTail ∧ format.Skips skipping bytes frame := by
  have decodes := format.invocation_decodes skipping context bytes
  rw [conclude_outcome] at h
  split at h
  case isFalse =>
    rw [h] at decodes
    exact fun frame mem => .inl (decodes.respects frame mem)
  case isTrue tail =>
    obtain ⟨nothing, fresh, nonempty⟩ := tail
    rw [nothing, fresh] at decodes
    split at h <;> cases h
    case isTrue accepts =>
      intro frame mem
      obtain rfl := List.mem_singleton.mp mem
      rcases decodes.left with ⟨respects, waits⟩ | skips
      case inl =>
        rw [waits]
        exact .inl respects
      case inr => exact .inr ⟨accepts, skips⟩

theorem Skips.conclude {rest : Bytes} (skips : format.Skips skipping bytes rest)
    (accepts : format.acceptTail) (nonempty : rest ≠ []) (context : Context) :
    (format.strategy.conclude skipping context bytes).outcome = .done (.frame rest) := by
  obtain ⟨index, somewhere, reason, rfl⟩ := skips
  have ⟨bench, decoded, fresh, position⟩ : ∃ bench,
      format.decode { state := skipping, cursor := .start bytes } = (.done .nothing, bench) ∧
      bench.state = false ∧ bench.cursor.position = index + format.delimiter.length := by
    cases skipping
    case true  => exact decode_of_skipped somewhere
    case false =>
      have ⟨excess, lenient⟩ := reason.resolve_left nofun
      exact decode_of_oversized somewhere excess lenient
  have same : format.strategy.decode skipping context bytes = _ := Invocation.ofAttempt_eq decoded
  rw [conclude_outcome, same]
  simp [fresh, position, nonempty, accepts]

-- What is waited on holds no delimiter behind which anything could be left.
theorem Leaves.offsetOf?_eq_none {valid : Bool → Prop}
    (leaves : format.strategy.Leaves valid bytes skipping) :
    bytes.offsetOf? format.delimiter = none := by
  cases leaves
  case exhausted => exact Bytes.offsetOf?_nil format.delimiter_ne_nil
  case waiting state context _ waits =>
    have decodes := format.invocation_decodes state context bytes
    rw [waits.1, waits.2] at decodes
    exact decodes.nowhere_of_waiting

-- While the stream goes on, a frame is found by decoding.
theorem decode_respects (context : Context) {found : Found Bytes}
    (h : (format.strategy.decode skipping context bytes).outcome = .done found) :
    ∀ frame ∈ found.frames, format.Respects frame := by
  have decodes := format.invocation_decodes skipping context bytes
  rw [h] at decodes
  exact decodes.respects

section Promises

variable {σ : Type}

-- Behind what the strategy waits on there is no delimiter, so that nothing is skipped at the end.
theorem promises (format : Delimited) : format.strategy.Promises (fun _ => True)
    fun invoked => ∀ frame ∈ invoked.found.frames, format.Respects frame where
  keeps _ _ _ _ := trivial
  decode _ context _ _ := Trace.Invoked.forall_mem_found fun _ => decode_respects context
  conclude skipping context bytes leaves := by
    refine Trace.Invoked.forall_mem_found fun found h frame mem => ?_
    rcases conclude_respects context h frame mem with respects | ⟨_, _, somewhere, _⟩
    case inl => exact respects
    case inr => cases (Leaves.offsetOf?_eq_none leaves).symm.trans somewhere

theorem promises_concludingWith (format : Delimited) (last : Strategy σ Bytes FramingError) :
    (format.strategy.concludingWith last).Promises (fun _ => True)
      fun invoked => invoked.last = false → ∀ frame ∈ invoked.found.frames,
        format.Respects frame where
  keeps _ _ _ _          := trivial
  decode _ context _ _ _ := Trace.Invoked.forall_mem_found fun _ => decode_respects context
  conclude _ _ _ _       := nofun

theorem promises_last (format : Delimited) (ordinary : Strategy σ Bytes FramingError)
    (skipping : Bool) :
    (ordinary.concludingWith format.strategy).Promises (·.2 = skipping)
      fun invoked => invoked.last → ∀ frame ∈ invoked.found.frames,
        format.Respects frame ∨ format.acceptTail ∧ format.Skips skipping invoked.unread frame where
  keeps _ _ _ kept    := kept
  decode _ _ _ _      := nofun
  conclude state context _ leaves _ := by
    have kept : state.2 = skipping := leaves.valid fun _ _ _ kept => kept
    subst kept
    exact Trace.Invoked.forall_mem_found fun _ => conclude_respects context

end Promises

open Decoder (State)

-- The state may be any, so that what decoding and concluding come to holds of each invocation in a
-- sequence of them. A format that goes over the stream itself is concluded only on what it has waited
-- on, where there is nothing to skip; one that is there for the end only is concluded on anything.
theorem frames_respect {μ σ : Type} (format : Delimited) :
    (∀ skipping context bytes found,
      (format.strategy.decode skipping context bytes).outcome = .done found →
        ∀ frame ∈ found.frames, format.Respects frame) ∧
    (∀ skipping context bytes found,
      (format.strategy.conclude skipping context bytes).outcome = .done found →
        ∀ frame ∈ found.frames,
          format.Respects frame ∨ format.acceptTail ∧ format.Skips skipping bytes frame) ∧
    (∀ skipping context bytes rest, format.acceptTail → format.Skips skipping bytes rest →
      rest ≠ [] →
        (format.strategy.conclude skipping context bytes).outcome = .done (.frame rest)) ∧
    (∀ (decoder : Decoder Bool Bytes FramingError μ) start calls,
      decoder.strategy = format.strategy →
        ∀ event ∈ (decoder.run calls (.initial start)).2.trace.events, ∀ frame ∈ event.frames,
          format.Respects frame) ∧
    (∀ (decoder : Decoder (Bool × σ) Bytes FramingError μ) (last : Strategy σ Bytes FramingError)
        start calls,
      decoder.strategy = format.strategy.concludingWith last →
        let trace := (decoder.run calls (.initial start)).2.trace
        (∀ invoked ∈ trace.invocations, invoked.last = false →
          ∀ frame ∈ invoked.found.frames, format.Respects frame) ∧
        ∀ event ∈ trace.events, ∀ frame ∈ event.frames, ∃ invoked ∈ trace.invocations,
          frame ∈ invoked.found.frames) ∧
    ∀ (decoder : Decoder (σ × Bool) Bytes FramingError μ) (ordinary : Strategy σ Bytes FramingError)
        start calls,
      decoder.strategy = ordinary.concludingWith format.strategy →
        let trace := (decoder.run calls (.initial start)).2.trace
        (∀ invoked ∈ trace.invocations, invoked.last →
          ∀ frame ∈ invoked.found.frames, format.Respects frame ∨
            format.acceptTail ∧ format.Skips start.2 invoked.unread frame) ∧
        ∀ event ∈ trace.events, ∀ frame ∈ event.frames, ∃ invoked ∈ trace.invocations,
          frame ∈ invoked.found.frames := by
  refine ⟨fun _ context _ _ => decode_respects context, fun _ context _ _ => conclude_respects context,
    fun _ context _ _ accepts skips nonempty => skips.conclude accepts nonempty context, ?_, ?_, ?_⟩
  case refine_1 =>
    intro decoder start calls uses event mem frame frame_mem
    have promises := uses ▸ format.promises
    have ⟨respects, answers⟩ := Decoder.run_answers promises start trivial calls
    have ⟨invoked, made, found⟩ := answers event mem frame frame_mem
    exact respects invoked made frame found
  case refine_2 =>
    intro decoder last start calls uses
    have promises := uses ▸ format.promises_concludingWith last
    exact Decoder.run_answers promises start trivial calls
  case refine_3 =>
    intro decoder ordinary start calls uses
    have promises := uses ▸ format.promises_last ordinary start.2
    exact Decoder.run_answers promises start rfl calls

-- Behind a frame that is skipped, more than the limit is taken for the last frame, and so is what
-- there is a delimiter in. The strategy that goes over the stream waits for a payload.
theorem conclude_disrespects :
    let format : Delimited :=
      { delimiter := [10], delimiter_ne_nil := nofun, limit := 3, skipOversized := true
        acceptTail := true }
    let decoder : Decoder (Unit × Bool) Bytes FramingError Unit :=
      { strategy := (LengthPrefixed.strategy {}).concludingWith format.strategy
        receiver := .collecting }
    let fed   := decoder.feed [0, 0, 0, 9, 10, 101, 102, 103, 104] none (.initial ((), false))
    let ended := decoder.finish .closed fed.2
    fed.1 = .done () ∧ ended.1 = .done () ∧
    ended.2.trace.events = [.frame [101, 102, 103, 104] none, .ended .closed] ∧
    ¬format.Respects [101, 102, 103, 104] ∧
    (format.strategy.conclude false {} [97, 98, 99, 100, 10, 120, 10, 121]).outcome =
      .done (.frame [120, 10, 121]) ∧
    ¬format.Respects [120, 10, 121] := by
  intro format decoder fed ended
  have unmarked (frame : Bytes) : format.Respects frame →
      frame.length ≤ 3 ∧ frame.offsetOf? [10] = none := by
    rintro ⟨content, same | same, respects⟩
    · exact same ▸ respects
    · exact same ▸ respects
  refine ⟨by decide +kernel, by decide +kernel, by decide +kernel, ?_, by decide +kernel, ?_⟩
  · exact fun respects => absurd (unmarked _ respects).1 (by decide)
  · exact fun respects => absurd (unmarked _ respects).2 (by decide)

end Delimited
end Framing
