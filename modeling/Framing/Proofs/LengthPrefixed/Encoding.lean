import Framing.Proofs.Bytes
import Framing.Proofs.LengthPrefixed

/-!
Payloads and the bytes that stand for them. Encoding and decoding undo each other: encoded payloads
are decoded again, and a stream that ends between two frames is the encoding of what was decoded.
-/

namespace Framing
namespace LengthPrefixed

-- A header has room for the length of the payload, and the payload is not refused.
structure Fits (format : LengthPrefixed) (payload : Bytes) : Prop where
  short  : payload.length < 2 ^ 32
  within : payload.length ≤ format.limit

variable {format : LengthPrefixed} {bytes : Bytes} {payloads : List Bytes} {size : Nat}

@[simp]
theorem encode_cons (payload : Bytes) (payloads : List Bytes) : encode (payload :: payloads) =
    Bytes.ofNat headerSize payload.length ++ payload ++ encode payloads :=
  rfl

-- The header announces the payload behind it.
theorem announced?_header {payload : Bytes} (short : payload.length < 2 ^ 32) (more : Bytes) :
    announced? (Bytes.ofNat headerSize payload.length ++ more) = some payload.length := by
  have header : (Bytes.ofNat headerSize payload.length).length = headerSize := Bytes.length_ofNat ..
  have enough : headerSize ≤ (Bytes.ofNat headerSize payload.length ++ more).length := by
    rw [List.length_append, header]
    exact Nat.le_add_right ..
  rw [announced?, if_pos enough, List.take_left' header, Bytes.toNat_ofNat short]

theorem parse_encode_cons {payload : Bytes} (fits : format.Fits payload) (payloads : List Bytes) :
    format.parse (encode (payload :: payloads)) =
      { format.parse (encode payloads) with
        payloads := payload :: (format.parse (encode payloads)).payloads } := by
  let header := Bytes.ofNat headerSize payload.length
  have size : header.length = headerSize := Bytes.length_ofNat ..
  have size' : (header ++ payload).length = headerSize + payload.length := by
    rw [List.length_append, size]
  have announced : announced? (header ++ payload ++ encode payloads) = some payload.length := by
    rw [List.append_assoc]
    exact announced?_header fits.short _
  have enough : headerSize + payload.length ≤ (header ++ payload ++ encode payloads).length := by
    rw [List.length_append, size']
    exact Nat.le_add_right ..
  rw [encode_cons, parse_of_frame announced fits.within enough, List.drop_left' size',
    List.append_assoc, List.drop_left' size, List.take_left]

theorem parse_encode (fits : ∀ payload ∈ payloads, format.Fits payload) :
    format.parse (encode payloads) = { payloads, left := [] } := by
  induction payloads
  case nil => exact parse_of_partialHeader rfl
  case cons payload payloads ih =>
    have ⟨here, later⟩ := List.forall_mem_cons.mp fits
    rw [parse_encode_cons here, ih later]

theorem announced?_eq_some_iff : announced? bytes = some size ↔
    headerSize ≤ bytes.length ∧ Bytes.toNat (bytes.take headerSize) = size := by
  rw [announced?, Option.ite_none_right_eq_some, Option.some.injEq]

-- A header is determined by the length that it announces.
theorem take_headerSize (announced : announced? bytes = some size) :
    bytes.take headerSize = Bytes.ofNat headerSize size := by
  have ⟨enough, spelled⟩ := announced?_eq_some_iff.mp announced
  have digits := Bytes.ofNat_toNat (bytes.take headerSize)
  rw [List.length_take_of_le enough, spelled] at digits
  exact digits.symm

theorem announced_lt (announced : announced? bytes = some size) : size < 2 ^ 32 := by
  have ⟨enough, spelled⟩ := announced?_eq_some_iff.mp announced
  have lt := Bytes.toNat_lt (bytes.take headerSize)
  rwa [List.length_take_of_le enough, spelled] at lt

theorem length_payload (enough : headerSize + size ≤ bytes.length) :
    ((bytes.drop headerSize).take size).length = size := by
  refine List.length_take_of_le ?_
  rw [List.length_drop]
  omega

-- Every byte is either left or belongs to a payload or its header.
theorem encode_parse (format : LengthPrefixed) (bytes : Bytes) :
    encode (format.parse bytes).payloads ++ (format.parse bytes).left = bytes := by
  fun_induction format.parse bytes
  case case2 bytes size announced h rest ih =>
    calc encode ((bytes.drop headerSize).take size :: rest.payloads) ++ rest.left
      _ = bytes.take headerSize ++ (bytes.drop headerSize).take size ++
            (encode rest.payloads ++ rest.left) := by
          rw [encode_cons, length_payload h.2, take_headerSize announced, List.append_assoc]
      _ = bytes.take (headerSize + size) ++ bytes.drop (headerSize + size) := by
          rw [ih, List.take_add]
      _ = bytes := List.take_append_drop ..
  all_goals exact List.nil_append _

theorem fits_of_mem_parse {payload : Bytes} (mem : payload ∈ (format.parse bytes).payloads) :
    format.Fits payload := by
  fun_induction format.parse bytes
  case case2 bytes size announced h rest ih =>
    cases mem
    case tail mem => exact ih mem
    case head =>
      have payload := length_payload h.2
      exact ⟨payload.symm ▸ announced_lt announced, payload.symm ▸ h.1⟩
  all_goals cases mem

-- What is delivered is the encoding of payloads that fit exactly if they are parsed and nothing is
-- left.
theorem parse_eq_iff : format.parse bytes = { payloads, left := [] } ↔
    (∀ payload ∈ payloads, format.Fits payload) ∧ bytes = encode payloads := by
  constructor
  case mp =>
    intro parsed
    have whole := format.encode_parse bytes
    rw [parsed, List.append_nil] at whole
    refine ⟨fun payload mem => ?_, whole.symm⟩
    have mem : payload ∈ (format.parse bytes).payloads := by rwa [parsed]
    exact fits_of_mem_parse mem
  case mpr =>
    rintro ⟨fits, rfl⟩
    exact parse_encode fits

theorem excess?_of_append {more : Bytes}
    (within : format.excess? (format.parse (bytes ++ more)).left = none) :
    format.excess? (format.parse bytes).left = none := by
  rw [Option.eq_none_iff_forall_ne_some] at within ⊢
  intro size excess
  refine within size ?_
  rw [parse_append_of_excess excess]
  exact excess?_append excess more

theorem conclusion_eq_done_iff : conclusion bytes = .done () ↔ bytes = [] := by
  constructor
  case mpr =>
    rintro rfl
    rfl
  case mp =>
    intro done
    by_contra nonempty
    rw [conclusion, if_neg nonempty] at done
    split at done <;> cases done

section Decoding

open Decoder (State)

variable {μ : Type} {decoder : Decoder Unit Bytes FramingError μ}
variable {state : State Unit Bytes FramingError μ}

-- Where nothing announces too much, every delivery goes well.
theorem Reads.feedEach_done (uses : decoder.Uses format.strategy) (reads : format.Reads bytes state)
    (deliveries : List (Bytes × Source))
    (within : format.excess? (format.parse (bytes ++ Decoder.delivered deliveries)).left = none) :
    (decoder.feedEach deliveries state).1 = .done () := by
  induction deliveries generalizing bytes state
  case nil => rfl
  case cons delivery deliveries ih =>
    obtain ⟨chunk, source⟩ := delivery
    rw [Decoder.delivered_cons, ← List.append_assoc] at within
    have within' := excess?_of_append within
    have ⟨reads', outcome⟩ := reads.feed uses (excess?_of_append within') chunk source
    have went : (decoder.feed chunk source state).1 = .done () :=
      outcome.trans (admission_eq_done_iff.mpr within')
    rw [Decoder.feedEach_cons_of_done went]
    exact ih reads' within

-- However the bytes that stand for payloads are split into chunks, exactly these payloads are
-- decoded; and whenever a stream goes well to its end, its bytes stand for what was decoded of it.
theorem feedEach_encode (uses : decoder.Uses format.strategy) (deliveries : List (Bytes × Source))
    (signal : EndSignal) :
    let fed   := decoder.feedEach deliveries (.initial ())
    let ended := decoder.finish signal fed.2
    (∀ payloads, (∀ payload ∈ payloads, payload.length < 2 ^ 32 ∧ payload.length ≤ format.limit) →
      Decoder.delivered deliveries = encode payloads →
      fed.1 = .done () ∧ fed.2.trace.events.map Event.frame? = payloads.map some ∧
      fed.2.retention.buffer = none ∧ ended.1 = .done () ∧
      ended.2.trace.events = fed.2.trace.events ++ [.ended signal]) ∧
    (fed.1 = .done () → ended.1 = .done () →
      encode (ended.2.trace.events.filterMap Event.frame?) = Decoder.delivered deliveries ∧
      ∀ frame ∈ ended.2.trace.events.filterMap Event.frame?, frame.length < 2 ^ 32) := by
  intro fed ended
  have initial : format.Reads [] (.initial ()) := initial_reads (μ := μ) format
  have nothing : format.excess? (format.parse []).left = none := by
    rw [parse_of_partialHeader rfl]
    rfl
  constructor
  case left =>
    intro payloads fits delivered
    have fits : ∀ payload ∈ payloads, format.Fits payload := fun payload mem =>
      ⟨(fits payload mem).1, (fits payload mem).2⟩
    have parsed := parse_eq_iff.mpr ⟨fits, delivered⟩
    have within : format.excess? (format.parse (Decoder.delivered deliveries)).left = none := by
      rw [parsed]
      rfl
    have done := initial.feedEach_done uses deliveries within
    have ⟨reads, _⟩ := initial.feedEach uses nothing deliveries done
    have ⟨outcome, events⟩ := reads.finish uses within signal
    have ⟨_, rests, frames⟩ := reads
    rw [List.nil_append, parsed] at rests frames outcome
    exact ⟨done, frames, rests.buffer_eq_none_iff.mpr rfl, outcome, events⟩
  case right =>
    intro done done'
    have ⟨reads, within⟩ := initial.feedEach uses nothing deliveries done
    have ⟨outcome, events⟩ := reads.finish uses within signal
    have frames := reads.frames
    rw [List.nil_append] at outcome frames
    let parsed := format.parse (Decoder.delivered deliveries)
    have empty : parsed.left = [] := conclusion_eq_done_iff.mp (outcome.symm.trans done')
    have dispatched := calc ended.2.trace.events.filterMap Event.frame?
      _ = fed.2.trace.events.filterMap Event.frame? := by
          rw [events, List.filterMap_append]
          exact List.append_nil _
      _ = (fed.2.trace.events.map Event.frame?).filterMap id := by
          rw [List.filterMap_map]
          rfl
      _ = parsed.payloads := by
          rw [frames, List.filterMap_map]
          exact List.filterMap_some
    have whole := format.encode_parse (Decoder.delivered deliveries)
    rw [dispatched]
    refine ⟨?_, fun frame mem => (fits_of_mem_parse mem).short⟩
    rwa [show (format.parse (Decoder.delivered deliveries)).left = [] from empty,
      List.append_nil] at whole

-- A payload without bytes, and one whose header takes two chunks and whose bytes take two more.
theorem feedEach_encode_across_headers :
    let format : LengthPrefixed := { limit := 300 }
    let decoder : Decoder Unit Bytes FramingError Unit :=
      { strategy := format.strategy, receiver := .collecting }
    let payloads : List Bytes := [[], List.replicate 258 7]
    let deliveries : List (Bytes × Source) :=
      [([0, 0, 0], none), ([0, 0, 0, 1], some "a"), (2 :: List.replicate 200 7, none),
        (List.replicate 58 7, none)]
    let fed   := decoder.feedEach deliveries (.initial ())
    let ended := decoder.finish .closed fed.2
    decoder.Uses format.strategy ∧
    (∀ payload ∈ payloads, payload.length < 2 ^ 32 ∧ payload.length ≤ format.limit) ∧
    Decoder.delivered deliveries = encode payloads ∧
    fed.1 = .done () ∧ fed.2.trace.events.map Event.frame? = payloads.map some ∧
    fed.2.retention.buffer = none ∧ ended.1 = .done () ∧
    encode (ended.2.trace.events.filterMap Event.frame?) = Decoder.delivered deliveries := by
  intro format decoder payloads deliveries fed ended
  have uses : decoder.Uses format.strategy := ⟨rfl, Receiver.collecting_steady⟩
  have fits : ∀ payload ∈ payloads, payload.length < 2 ^ 32 ∧ payload.length ≤ format.limit := by
    decide +kernel
  have delivered : Decoder.delivered deliveries = encode payloads := by decide +kernel
  have ⟨decodes, encodes⟩ := feedEach_encode uses deliveries .closed
  have ⟨done, frames, absent, done', _⟩ := decodes payloads fits delivered
  exact ⟨uses, fits, delivered, done, frames, absent, done', (encodes done done').1⟩

end Decoding

end LengthPrefixed
end Framing
