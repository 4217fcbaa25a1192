import Framing.Proofs.Delimited.Pass

/-!
The invocations of a delimited format, case by case: by whether there is a delimiter, whether a frame
is being skipped, and how much there is before the delimiter.
-/

namespace Framing
namespace Delimited

-- How decoding `bytes` comes out, how many of them that consumes, and whether a frame was being
-- skipped before it and is after it.
inductive Decodes (format : Delimited) (bytes : Bytes) :
    (skipping : Bool) → Outcome FramingError (Found Bytes) → (consumed : Nat) → (after : Bool) → Prop
  | within (nowhere : bytes.offsetOf? format.delimiter = none)
    (within : bytes.length ≤ format.limit) :
    Decodes format bytes false (.done .nothing) 0 false
  | excess (nowhere : bytes.offsetOf? format.delimiter = none)
    (excess : format.limit < bytes.length) (strict : format.skipOversized = false) :
    Decodes format bytes false (.failed (.oversized bytes.length format.limit)) 0 false
  | lost {skipping} (nowhere : bytes.offsetOf? format.delimiter = none)
    (lost : skipping = false → format.limit < bytes.length ∧ format.skipOversized) :
    Decodes format bytes skipping (.done .nothing)
      (bytes.length - (format.delimiter.length - 1)) true
  | skipped {index} (somewhere : bytes.offsetOf? format.delimiter = some index) :
    Decodes format bytes true (.done .nothing) (index + format.delimiter.length) false
  | frame {index} (somewhere : bytes.offsetOf? format.delimiter = some index)
    (within : index ≤ format.limit) :
    Decodes format bytes false (.done (.frame (format.shape (bytes.take index))))
      (index + format.delimiter.length) false
  | oversized {index} (somewhere : bytes.offsetOf? format.delimiter = some index)
    (excess : format.limit < index) (lenient : format.skipOversized) :
    Decodes format bytes false (.done .nothing) (index + format.delimiter.length) false
  | rejected {index} (somewhere : bytes.offsetOf? format.delimiter = some index)
    (excess : format.limit < index) (strict : format.skipOversized = false) :
    Decodes format bytes false (.failed (.oversized index format.limit)) 0 false

theorem decodes (format : Delimited) (skipping : Bool) (bytes : Bytes) :
    ∃ outcome bench,
      format.decode { state := skipping, cursor := .start bytes } = (outcome, bench) ∧
      format.Decodes bytes skipping outcome bench.cursor.position bench.state := by
  have of_bench {outcome : Outcome FramingError (Found Bytes)} {consumed : Nat} {after : Bool}
      (computed : ∃ bench,
        format.decode { state := skipping, cursor := .start bytes } = (outcome, bench) ∧
        bench.state = after ∧ bench.cursor.position = consumed)
      (decodes : format.Decodes bytes skipping outcome consumed after) :
      ∃ outcome bench,
        format.decode { state := skipping, cursor := .start bytes } = (outcome, bench) ∧
        format.Decodes bytes skipping outcome bench.cursor.position bench.state := by
    have ⟨bench, decoded, state, position⟩ := computed
    exact ⟨outcome, bench, decoded, by rwa [state, position]⟩
  cases somewhere : bytes.offsetOf? format.delimiter
  case none =>
    by_cases lost : skipping = false → format.limit < bytes.length ∧ format.skipOversized
    case pos => exact of_bench (decode_of_lost somewhere skipping lost) (.lost somewhere lost)
    case neg =>
      obtain ⟨rfl, fits⟩ := Classical.not_imp.mp lost
      by_cases within : bytes.length ≤ format.limit
      case pos => exact ⟨_, _, decode_of_within somewhere within, .within somewhere within⟩
      case neg =>
        have excess := Nat.lt_of_not_le within
        have strict : format.skipOversized = false := by simpa [excess] using fits
        exact ⟨_, _, decode_of_excess somewhere excess strict, .excess somewhere excess strict⟩
  case some index =>
    by_cases within : index ≤ format.limit <;> cases skipping
    case pos.true | neg.true => exact of_bench (decode_of_skipped somewhere) (.skipped somewhere)
    case pos.false => exact of_bench (decode_of_frame somewhere within) (.frame somewhere within)
    case neg.false =>
      have excess := Nat.lt_of_not_le within
      cases mode : format.skipOversized
      case true =>
        exact of_bench (decode_of_oversized somewhere excess mode)
          (.oversized somewhere excess mode)
      case false =>
        exact ⟨_, _, decode_of_rejected somewhere excess mode, .rejected somewhere excess mode⟩

theorem invocation_decodes (format : Delimited) (skipping : Bool) (context : Context)
    (bytes : Bytes) :
    format.Decodes bytes skipping (format.strategy.decode skipping context bytes).outcome
      (format.strategy.decode skipping context bytes).consumed
      (format.strategy.decode skipping context bytes).state := by
  have ⟨_, _, decoded, decodes⟩ := format.decodes skipping bytes
  have same : format.strategy.decode skipping context bytes = _ := Invocation.ofAttempt_eq decoded
  rw [same]
  exact decodes

namespace Decodes

variable {format : Delimited} {bytes : Bytes} {skipping after : Bool} {consumed : Nat}
variable {outcome : Outcome FramingError (Found Bytes)}

-- Where oversized frames are an error, none is ever skipped.
theorem not_skipping (decodes : format.Decodes bytes false outcome consumed after)
    (strict : format.skipOversized = false) : after = false := by
  cases decodes
  case lost lost =>
    have ⟨_, lenient⟩ := lost rfl
    cases strict.symm.trans lenient
  all_goals rfl

-- Where oversized frames are skipped, nothing is an error.
theorem ne_failed (decodes : format.Decodes bytes skipping outcome consumed after)
    (lenient : format.skipOversized) (error : FramingError) : outcome ≠ .failed error := by
  cases decodes
  case excess strict | rejected strict => cases strict.symm.trans lenient
  all_goals exact nofun

theorem progress {found : Found Bytes}
    (decodes : format.Decodes bytes skipping (.done found) consumed after)
    (isResult : found.isResult) : 0 < consumed := by
  cases decodes
  case frame =>
    have := List.length_pos_iff.mpr format.delimiter_ne_nil
    omega
  all_goals exact absurd isResult Found.not_isResult_nothing

-- Nothing is consumed only of bytes that may still become a frame within the limit, or that may
-- belong to the delimiter behind a frame that is being skipped.
theorem length_le_of_waiting (decodes : format.Decodes bytes skipping (.done .nothing) 0 after) :
    bytes.length ≤ format.limit ∨ after ∧ bytes.length ≤ format.delimiter.length - 1 := by
  have := List.length_pos_iff.mpr format.delimiter_ne_nil
  generalize h : (0 : Nat) = consumed at decodes
  cases decodes
  case within within         => exact .inl within
  case lost                  => exact .inr ⟨rfl, by omega⟩
  case skipped | oversized _ => omega

-- A delimiter is never waited on.
theorem nowhere_of_waiting (decodes : format.Decodes bytes skipping (.done .nothing) 0 after) :
    bytes.offsetOf? format.delimiter = none := by
  have := List.length_pos_iff.mpr format.delimiter_ne_nil
  generalize h : (0 : Nat) = consumed at decodes
  cases decodes
  case within nowhere _ | lost nowhere _ => exact nowhere
  case skipped | oversized _             => omega

end Decodes
end Delimited
end Framing
