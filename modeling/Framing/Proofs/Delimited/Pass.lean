import Framing.Proofs.Attempt
import Framing.Proofs.Bytes
import Framing.Proofs.Rounds
import Framing.Strategy.Delimited

/-!
A pass over delimited frames within the limit. It finds those that are there with their delimiters,
unless one more is cut off where more than the limit is there of it, which fails or is skipped.
-/

namespace Framing
namespace Delimited

variable (format : Delimited)

-- How a frame is handed over.
def shape (frame : Bytes) : Bytes :=
  if format.keepDelimiter then frame ++ format.delimiter else frame

-- The bytes that stand for `frames`.
def encode (frames : List Bytes) : Bytes :=
  frames.flatMap (· ++ format.delimiter)

-- A frame within the limit, which the delimiter behind it is the first to end.
structure Legal (frame : Bytes) : Prop where
  within : frame.length ≤ format.limit
  first  : Bytes.offsetOf? (frame ++ format.delimiter) format.delimiter = some frame.length

-- How much there is of a frame and its delimiter, if not all, where a stream of `frames` is cut off
-- behind `count` bytes.
def pending : (frames : List Bytes) → (count : Nat) → Nat
  | [], _                  => 0
  | frame :: frames, count =>
    let size := frame.length + format.delimiter.length
    if size ≤ count then pending frames (count - size) else count

variable {format} {bytes : Bytes} {index : Nat}

@[simp]
theorem encode_cons (frame : Bytes) (frames : List Bytes) :
    format.encode (frame :: frames) = frame ++ format.delimiter ++ format.encode frames :=
  rfl

@[simp]
theorem encode_append (frames more : List Bytes) :
    format.encode (frames ++ more) = format.encode frames ++ format.encode more :=
  List.flatMap_append

theorem pending_append (frames more : List Bytes) (count : Nat) :
    format.pending (frames ++ more) ((format.encode frames).length + count) =
      format.pending more count := by
  induction frames
  case nil => simp [encode]
  case cons frame frames ih =>
    simp only [List.cons_append, pending, encode_cons, List.length_append]
    rw [if_pos (by omega), ← ih]
    congr 1
    omega

section Attempts

variable (nowhere : Bytes.offsetOf? bytes format.delimiter = none)
variable (somewhere : Bytes.offsetOf? bytes format.delimiter = some index)

include nowhere in
theorem decode_of_within (within : bytes.length ≤ format.limit) :
    format.decode { state := false, cursor := .start bytes } =
      (.done .nothing, { state := false, cursor := .start bytes }) := by
  simp [decode, Cursor.find?, nowhere, within]

include nowhere in
theorem decode_of_excess (excess : format.limit < bytes.length) (strict : format.skipOversized = false) :
    format.decode { state := false, cursor := .start bytes } =
      (.failed (.oversized bytes.length format.limit),
        { state := false, cursor := .start bytes }) := by
  simp [decode, Cursor.find?, nowhere, Nat.not_le_of_lt excess, strict]

-- While a frame is skipped, as many bytes stay unread as may belong to a delimiter.
include nowhere in
theorem decode_of_lost (skipping : Bool) (lost : skipping = false →
    format.limit < bytes.length ∧ format.skipOversized) :
    ∃ bench, format.decode { state := skipping, cursor := .start bytes } = (.done .nothing, bench) ∧
      bench.state = true ∧
      bench.cursor.position = bytes.length - (format.delimiter.length - 1) := by
  cases skipping
  case true  => simp [decode, Cursor.find?, nowhere]
  case false =>
    obtain ⟨excess, lenient⟩ := lost rfl
    simp [decode, Cursor.find?, nowhere, Nat.not_le_of_lt excess, lenient, skip]

include somewhere in
theorem decode_of_skipped :
    ∃ bench, format.decode { state := true, cursor := .start bytes } = (.done .nothing, bench) ∧
      bench.state = false ∧ bench.cursor.position = index + format.delimiter.length := by
  have le := Bytes.length_le_of_offsetOf? format.delimiter_ne_nil somewhere
  simp [decode, Cursor.find?, somewhere, le]

include somewhere in
theorem decode_of_frame (within : index ≤ format.limit) :
    ∃ bench, format.decode { state := false, cursor := .start bytes } =
        (.done (.frame (format.shape (bytes.take index))), bench) ∧
      bench.state = false ∧ bench.cursor.position = index + format.delimiter.length := by
  have le := Bytes.length_le_of_offsetOf? format.delimiter_ne_nil somewhere
  have kept := Bytes.take_add_of_offsetOf? format.delimiter_ne_nil somewhere
  cases keep : format.keepDelimiter
  case true  => simp [decode, Cursor.find?, somewhere, within, keep, shape, le, kept]
  case false =>
    have frame : index ≤ bytes.length := by omega
    have delimiter : format.delimiter.length ≤ bytes.length - index := by omega
    simp [decode, Cursor.find?, somewhere, within, keep, shape, frame, delimiter]

include somewhere in
theorem decode_of_oversized (excess : format.limit < index) (lenient : format.skipOversized) :
    ∃ bench, format.decode { state := false, cursor := .start bytes } = (.done .nothing, bench) ∧
      bench.state = false ∧ bench.cursor.position = index + format.delimiter.length := by
  have le := Bytes.length_le_of_offsetOf? format.delimiter_ne_nil somewhere
  simp [decode, Cursor.find?, somewhere, Nat.not_le_of_lt excess, lenient, skip, le]

include somewhere in
theorem decode_of_rejected (excess : format.limit < index)
    (strict : format.skipOversized = false) :
    format.decode { state := false, cursor := .start bytes } =
      (.failed (.oversized index format.limit), { state := false, cursor := .start bytes }) := by
  simp [decode, Cursor.find?, somewhere, Nat.not_le_of_lt excess, strict]

end Attempts

-- Of a stream, `due` frames and nothing else are still to be decoded: `unread`, which does not
-- complete any of them, and the `rest`, which is not delivered yet.
structure Fresh (format : Delimited) (unread rest : Bytes) (due : List Bytes) : Prop where
  legal      : ∀ frame ∈ due, format.Legal frame
  bytes      : unread ++ rest = format.encode due
  incomplete : ∀ frame later, due = frame :: later →
    unread.length < frame.length + format.delimiter.length
  within     : unread.length ≤ format.limit

-- A frame is being skipped, of which so much has `passed` already that not all of its delimiter is
-- to come.
structure Lost (format : Delimited) (unread rest : Bytes) (due : List Bytes) : Prop where
  legal : ∀ frame ∈ due, format.Legal frame
  bytes : ∃ lost passed, format.Legal lost ∧ passed ≤ lost.length ∧
    unread ++ rest = (lost ++ format.delimiter).drop passed ++ format.encode due

-- Where streams agree, they agree behind what is dropped.
theorem drop_append_eq_of_eq {first second first' second' : Bytes} {count : Nat}
    (eq : first ++ second = first' ++ second') (le : count ≤ first.length)
    (le' : count ≤ first'.length) : first.drop count ++ second = first'.drop count ++ second' := by
  rw [← List.drop_append_of_le_length le, eq, List.drop_append_of_le_length le']

theorem Fresh.pending_eq {unread rest : Bytes} {due : List Bytes}
    (fresh : format.Fresh unread rest due) : format.pending due unread.length = unread.length := by
  cases due
  case nil =>
    have := fresh.bytes
    simp_all [encode, pending]
  case cons frame later =>
    simp only [pending]
    rw [if_neg (Nat.not_le_of_lt (fresh.incomplete frame later rfl))]

theorem Fresh.length_add_eq {unread unread' chunk rest : Bytes} {found later : List Bytes}
    (fresh : format.Fresh unread (chunk ++ rest) (found ++ later))
    (fresh' : format.Fresh unread' rest later) :
    unread.length + chunk.length = (format.encode found).length + unread'.length := by
  have bytes := congrArg List.length fresh.bytes
  have bytes' := congrArg List.length fresh'.bytes
  simp only [encode_append, List.length_append] at bytes bytes'
  omega

-- When nothing more follows, everything has been decoded.
theorem Fresh.of_exhausted {unread : Bytes} {due : List Bytes}
    (fresh : format.Fresh unread [] due) : due = [] ∧ unread = [] := by
  have bytes := fresh.bytes
  rw [List.append_nil] at bytes
  cases due
  case nil              => exact ⟨rfl, bytes⟩
  case cons frame later =>
    have short := fresh.incomplete frame later rfl
    simp only [bytes, encode_cons, List.length_append] at short
    omega

section Decoding

open Decoder (Stage Pass State Rounds)

variable {μ : Type} {decoder : Decoder Bool Bytes FramingError μ}
variable {stage : Stage Bool Bytes FramingError μ} {pass : Pass Bool Bytes FramingError μ}

-- The pass went well, handed over the frames that it `found`, and left the strategy `skipping` or
-- not.
structure Passed (format : Delimited) (found : List Bytes) (skipping : Bool)
    (stage : Stage Bool Bytes FramingError μ) (pass : Pass Bool Bytes FramingError μ) : Prop where
  frames        : ∃ made handed, Stage.Grows made handed stage pass.stage ∧
    handed.map Event.frame? = found.map fun frame => some (format.shape frame)
  done          : (pass.outcome.map fun _ => ()) = .done ()
  strategyState : pass.stage.strategyState = skipping

theorem passed_of_waiting {unread : Bytes} {skipping : Bool} {after : Stage Bool Bytes FramingError μ}
    {position results : Nat} (nonempty : unread ≠ [])
    (invoked : decoder.invoke false unread stage = (.done .nothing, 0, after))
    (state : after.strategyState = skipping) :
    format.Passed [] skipping stage (decoder.pass unread position results stage) ∧
      (decoder.pass unread position results stage).unread = unread := by
  rw [(Rounds.waiting nonempty invoked).eq_pass]
  exact ⟨⟨⟨_, [], (Decoder.invoke_grows invoked).act _, rfl⟩, rfl, state⟩, rfl⟩

theorem passed_of_exhausted (format : Delimited) (decoder : Decoder Bool Bytes FramingError μ)
    {skipping : Bool} (state : stage.strategyState = skipping) (position results : Nat) :
    format.Passed [] skipping stage (decoder.pass [] position results stage) ∧
      (decoder.pass [] position results stage).unread = [] := by
  rw [Rounds.exhausted.eq_pass]
  exact ⟨⟨⟨[], [], (Stage.Grows.refl _).act _, rfl⟩, rfl, state⟩, rfl⟩

-- Skipping a round adds nothing to what a pass finds.
theorem Passed.of_skipped {unread : Bytes} {found : List Bytes} {skipping : Bool} {consumed : Nat}
    {after : Stage Bool Bytes FramingError μ}
    (invoked : decoder.invoke false unread stage = (.done .nothing, consumed, after))
    (passed : format.Passed found skipping (after.note (.skipped consumed)) pass) :
    format.Passed found skipping stage pass := by
  have ⟨_, _, grows, frames⟩ := passed.frames
  refine { passed with frames := ⟨_, _, ((Decoder.invoke_grows invoked).act _).trans grows, ?_⟩ }
  exact frames

theorem Passed.of_dispatched {frame : Bytes} {found : List Bytes} {skipping : Bool}
    {next : Stage Bool Bytes FramingError μ}
    (grows : ∃ made handed, Stage.Grows made handed stage next ∧
      handed.map Event.frame? = [some (format.shape frame)])
    (passed : format.Passed found skipping next pass) :
    format.Passed (frame :: found) skipping stage pass := by
  have ⟨_, _, grows, frames⟩ := grows
  have ⟨_, _, grows', frames'⟩ := passed.frames
  refine { passed with frames := ⟨_, _, grows.trans grows', ?_⟩ }
  rw [List.map_append, frames, frames']
  rfl

section Uses

variable (uses : decoder.Uses format.strategy) {skipping : Bool}
include uses

-- An invocation as it is computed from the bytes and the state.
theorem invoke_of_decode {unread : Bytes} {outcome : Outcome FramingError (Found Bytes)}
    {skipping' : Bool} {consumed : Nat} (state : stage.strategyState = skipping)
    (h : ∃ bench, format.decode { state := skipping, cursor := .start unread } = (outcome, bench) ∧
      bench.state = skipping' ∧ bench.cursor.position = consumed) :
    ∃ after, decoder.invoke false unread stage = (outcome, consumed, after) ∧
      after.strategyState = skipping' := by
  have ⟨bench, decoded, state', position⟩ := h
  rw [← state] at decoded
  have ⟨after, invoked, after_state⟩ := uses.invoke_decode stage decoded
  exact ⟨after, position ▸ invoked, after_state.trans state'⟩

variable {unread : Bytes} (nowhere : Bytes.offsetOf? unread format.delimiter = none)
include nowhere

theorem passed_of_within (within : unread.length ≤ format.limit)
    (state : stage.strategyState = false) (position results : Nat) :
    format.Passed [] false stage (decoder.pass unread position results stage) ∧
      (decoder.pass unread position results stage).unread = unread := by
  by_cases nonempty : unread = []
  case pos => exact nonempty ▸ passed_of_exhausted format decoder state position results
  case neg =>
    have ⟨_, invoked, state'⟩ := invoke_of_decode uses state
      ⟨_, decode_of_within nowhere within, rfl, rfl⟩
    exact passed_of_waiting nonempty invoked state'

theorem passed_of_lost_short (short : unread.length < format.delimiter.length)
    (state : stage.strategyState = true) (position results : Nat) :
    format.Passed [] true stage (decoder.pass unread position results stage) ∧
      (decoder.pass unread position results stage).unread = unread := by
  by_cases nonempty : unread = []
  case pos => exact nonempty ▸ passed_of_exhausted format decoder state position results
  case neg =>
    have ⟨_, invoked, state'⟩ := invoke_of_decode uses state (decode_of_lost nowhere true nofun)
    have nothing : unread.length - (format.delimiter.length - 1) = 0 := by omega
    rw [nothing] at invoked
    exact passed_of_waiting nonempty invoked state'

-- The bytes that may belong to a delimiter stay unread.
theorem passed_of_lost (nonempty : unread ≠ []) (state : stage.strategyState = skipping)
    (lost : skipping = false → format.limit < unread.length ∧ format.skipOversized)
    (position results : Nat) :
    format.Passed [] true stage (decoder.pass unread position results stage) ∧
      (decoder.pass unread position results stage).unread =
        unread.drop (unread.length - (format.delimiter.length - 1)) := by
  have ⟨after, invoked, state'⟩ :=
    invoke_of_decode uses state (decode_of_lost nowhere skipping lost)
  by_cases progress : unread.length - (format.delimiter.length - 1) = 0
  case pos =>
    rw [progress] at invoked ⊢
    exact passed_of_waiting nonempty invoked state'
  case neg =>
    have progress := Nat.pos_of_ne_zero progress
    rw [(Rounds.skipped nonempty invoked progress (Decoder.rounds_pass ..)).eq_pass]
    have positive := List.length_pos_iff.mpr format.delimiter_ne_nil
    have short : (unread.drop (unread.length - (format.delimiter.length - 1))).length <
        format.delimiter.length := by
      rw [List.length_drop]
      omega
    have nowhere' := Bytes.offsetOf?_drop_eq_none format.delimiter_ne_nil nowhere
      (unread.length - (format.delimiter.length - 1))
    refine And.imp_left (Passed.of_skipped invoked)
      (passed_of_lost_short uses nowhere' short ?_ _ _)
    exact state'

end Uses

-- How a pass or a call comes out over the bytes of `frames` that there are so far, `received` of
-- them, with `unread` left over and `rest` still to follow: it has `found` frames, and is skipping or
-- not.
inductive Proceeds (format : Delimited) (frames : List Bytes) (received : Nat) (unread rest : Bytes)
    (outcome : Outcome (DecodeError FramingError) Unit) (found : List Bytes → Bool → Prop) : Prop
  | fresh {passed due} (split : frames = passed ++ due)
    (found : found passed false)
    (fresh : format.Fresh unread rest due)
  | lost {passed lost due} (split : frames = passed ++ lost :: due)
    (late : format.limit < format.pending frames received)
    (found : found passed true)
    (lost : format.Lost unread rest due)
  | broken (late : format.limit < format.pending frames received)
    (broken : outcome ≠ .done ())

namespace Proceeds

variable {frames : List Bytes} {received : Nat} {unread rest : Bytes}
variable {outcome : Outcome (DecodeError FramingError) Unit} {found found' : List Bytes → Bool → Prop}

theorem imp (proceeds : format.Proceeds frames received unread rest outcome found)
    (h : ∀ passed skipping, found passed skipping → found' passed skipping) :
    format.Proceeds frames received unread rest outcome found' := by
  cases proceeds
  case fresh split found fresh     => exact .fresh split (h _ _ found) fresh
  case lost split late found lost  => exact .lost split late (h _ _ found) lost
  case broken late broken          => exact .broken late broken

theorem cons {frame : Bytes} (proceeds : format.Proceeds frames received unread rest outcome found)
    (h : ∀ passed skipping, found passed skipping → found' (frame :: passed) skipping) :
    format.Proceeds (frame :: frames) (frame.length + format.delimiter.length + received) unread rest
      outcome found' := by
  have pending_eq : format.pending (frame :: frames)
      (frame.length + format.delimiter.length + received) = format.pending frames received := by
    simp [pending]
  cases proceeds
  case fresh split found fresh    => exact .fresh (congrArg _ split) (h _ _ found) fresh
  case lost split late found lost =>
    exact .lost (congrArg _ split) (pending_eq.symm ▸ late) (h _ _ found) lost
  case broken late broken         => exact .broken (pending_eq.symm ▸ late) broken

end Proceeds

-- A pass over the bytes of `frames`.
def PassProceeds (format : Delimited) (frames : List Bytes) (received : Nat) (rest : Bytes)
    (stage : Stage Bool Bytes FramingError μ) (pass : Pass Bool Bytes FramingError μ) : Prop :=
  format.Proceeds frames received pass.unread rest (pass.outcome.map fun _ => ())
    fun passed skipping => format.Passed passed skipping stage pass

section Uses

variable (uses : decoder.Uses format.strategy) {frame : Bytes} (legal : format.Legal frame)
variable (state : stage.strategyState = false) (position results : Nat)
include uses legal state

-- A frame that is there with its delimiter is handed over before the pass goes on.
theorem pass_of_frame (more : Bytes) : ∃ next position' results',
    decoder.pass (frame ++ format.delimiter ++ more) position results stage =
      decoder.pass more position' results' next ∧
    next.strategyState = false ∧
    ∃ made handed, Stage.Grows made handed stage next ∧
      handed.map Event.frame? = [some (format.shape frame)] := by
  have ⟨within, first⟩ := legal
  have somewhere : Bytes.offsetOf? (frame ++ format.delimiter ++ more) format.delimiter =
      some frame.length :=
    Bytes.offsetOf?_of_complete format.delimiter_ne_nil first (Nat.zero_le _) ⟨_, rfl⟩
  have ⟨after, invoked, state'⟩ := invoke_of_decode uses state (decode_of_frame somewhere within)
  rw [List.append_assoc, List.take_left, ← List.append_assoc] at invoked
  rcases dispatched : decoder.dispatch (.frame (format.shape frame)) after.context.source after
    with ⟨fault, next⟩
  have accepted := Decoder.dispatch_fault_of_steady uses.steady (.frame (format.shape frame))
    after.context.source after
  rw [dispatched] at accepted
  subst accepted
  have ⟨_, _, all, grows⟩ := Decoder.dispatch_grows dispatched
  have nonempty : frame ++ format.delimiter ++ more ≠ [] := by
    simp [format.delimiter_ne_nil]
  have progress : 0 < frame.length + format.delimiter.length :=
    Nat.add_pos_right _ (List.length_pos_iff.mpr format.delimiter_ne_nil)
  refine ⟨next, position + (frame.length + format.delimiter.length), results + 1, ?_, ?_, _, _,
    (Decoder.invoke_grows invoked).trans grows, ?_⟩
  · rw [(Rounds.dispatched nonempty invoked rfl progress dispatched
      (Decoder.rounds_pass ..)).eq_pass]
    rw [← List.length_append, List.drop_left]
  · exact (Decoder.dispatch_strategyState dispatched).trans state'
  · rw [all rfl]
    rfl

-- What there is of a frame that is cut off stays unread, unless it is more than the limit.
theorem pass_of_cut {frames : List Bytes} (later : ∀ frame ∈ frames, format.Legal frame)
    {unread rest : Bytes} (bytes : unread ++ rest = format.encode (frame :: frames))
    (short : unread.length < frame.length + format.delimiter.length) :
    format.PassProceeds (frame :: frames) unread.length rest stage
      (decoder.pass unread position results stage) := by
  have ⟨within, first⟩ := legal
  rw [encode_cons] at bytes
  have shown : unread <+: (frame ++ format.delimiter).drop 0 := by
    refine List.prefix_of_prefix_length_le ⟨_, rfl⟩ ⟨_, bytes.symm⟩ ?_
    simpa using Nat.le_of_lt short
  have nowhere : Bytes.offsetOf? unread format.delimiter = none :=
    Bytes.offsetOf?_of_incomplete format.delimiter_ne_nil first shown (by omega)
  have pending_eq : format.pending (frame :: frames) unread.length = unread.length := by
    rw [pending, if_neg (Nat.not_le_of_lt short)]
  by_cases excess : format.limit < unread.length
  case neg =>
    have ⟨passed, left⟩ :=
      passed_of_within uses nowhere (Nat.le_of_not_lt excess) state position results
    refine .fresh rfl passed ⟨List.forall_mem_cons.mpr ⟨legal, later⟩, ?_, ?_, ?_⟩ <;> rw [left]
    · exact bytes
    · rintro _ _ ⟨⟩
      exact short
    · exact Nat.le_of_not_lt excess
  case pos =>
    have nonempty : unread ≠ [] := List.ne_nil_of_length_pos (Nat.zero_lt_of_lt excess)
    cases lenient : format.skipOversized
    case false =>
      have ⟨_, invoked, _⟩ := invoke_of_decode uses state
        ⟨_, decode_of_excess nowhere excess lenient, rfl, rfl⟩
      refine .broken (pending_eq.symm ▸ excess) ?_
      rw [(Rounds.failed nonempty invoked).eq_pass]
      exact nofun
    case true =>
      have ⟨passed, left⟩ := passed_of_lost uses nowhere nonempty state
        (fun _ => ⟨excess, lenient⟩) position results
      refine .lost rfl (pending_eq.symm ▸ excess) passed ⟨later, ?_⟩
      refine ⟨frame, unread.length - (format.delimiter.length - 1), legal, by omega, ?_⟩
      rw [left]
      refine drop_append_eq_of_eq bytes (Nat.sub_le ..) ?_
      rw [List.length_append]
      omega

end Uses

-- The same of whatever comes before the first delimiter.
theorem pass_of_first (uses : decoder.Uses format.strategy)
    (somewhere : bytes.offsetOf? format.delimiter = some index) (within : index ≤ format.limit)
    (state : stage.strategyState = false) (position results : Nat) : ∃ next position' results',
    decoder.pass bytes position results stage =
      decoder.pass (bytes.drop (index + format.delimiter.length)) position' results' next ∧
    next.strategyState = false ∧
    ∃ made handed, Stage.Grows made handed stage next ∧
      handed.map Event.frame? = [some (format.shape (bytes.take index))] := by
  have legal : format.Legal (bytes.take index) :=
    ⟨Nat.le_trans (List.length_take_le ..) within,
      Bytes.offsetOf?_take_append format.delimiter_ne_nil somewhere⟩
  have passed := pass_of_frame uses legal state position results
    (bytes.drop (index + format.delimiter.length))
  rwa [Bytes.take_append_drop_of_offsetOf? format.delimiter_ne_nil somewhere] at passed

-- By induction on the frames: each that is complete takes a round, and the first that is not ends
-- the pass.
theorem pass_proceeds (uses : decoder.Uses format.strategy) {frames : List Bytes}
    (legal : ∀ frame ∈ frames, format.Legal frame) {unread rest : Bytes}
    (bytes : unread ++ rest = format.encode frames) (state : stage.strategyState = false)
    (position results : Nat) :
    format.PassProceeds frames unread.length rest stage
      (decoder.pass unread position results stage) := by
  induction frames generalizing unread stage position results
  case nil =>
    have ⟨nothing, _⟩ := List.append_eq_nil_iff.mp bytes
    subst nothing
    have ⟨passed, left⟩ := passed_of_exhausted format decoder state position results
    refine .fresh rfl passed ⟨legal, ?_, nofun, ?_⟩ <;> simp_all
  case cons frame frames ih =>
    have ⟨here, later⟩ := List.forall_mem_cons.mp legal
    by_cases complete : (frame ++ format.delimiter).length ≤ unread.length
    case pos =>
      have ⟨more, split⟩ : frame ++ format.delimiter <+: unread :=
        List.prefix_of_prefix_length_le ⟨_, bytes.symm⟩ ⟨_, rfl⟩ complete
      subst split
      rw [encode_cons, List.append_assoc, List.append_cancel_left_eq] at bytes
      have ⟨next, _, _, eq, state', grows⟩ := pass_of_frame uses here state position results more
      rw [eq, List.length_append, List.length_append]
      exact (ih later bytes state' _ _).cons fun _ _ => Passed.of_dispatched grows
    case neg =>
      rw [List.length_append, Nat.not_le] at complete
      exact pass_of_cut uses here state position results later bytes complete

-- While a frame is lost, a pass loses nothing else.
theorem pass_of_lost (uses : decoder.Uses format.strategy) {unread rest : Bytes}
    {due : List Bytes} (lost : format.Lost unread rest due) (state : stage.strategyState = true)
    (position results : Nat) :
    (format.Passed [] true stage (decoder.pass unread position results stage) ∧
      format.Lost (decoder.pass unread position results stage).unread rest due) ∨
    ∃ received, format.PassProceeds due received rest stage
      (decoder.pass unread position results stage) := by
  have ⟨legal, frame, passed, ⟨within, first⟩, le, bytes⟩ := lost
  by_cases complete : ((frame ++ format.delimiter).drop passed).length ≤ unread.length
  case pos =>
    right
    have ⟨more, split⟩ : (frame ++ format.delimiter).drop passed <+: unread :=
      List.prefix_of_prefix_length_le ⟨_, bytes.symm⟩ ⟨_, rfl⟩ complete
    have somewhere : Bytes.offsetOf? unread format.delimiter = some (frame.length - passed) :=
      Bytes.offsetOf?_of_complete format.delimiter_ne_nil first le ⟨_, split⟩
    have ⟨after, invoked, state'⟩ := invoke_of_decode uses state (decode_of_skipped somewhere)
    have consumed : frame.length - passed + format.delimiter.length =
        ((frame ++ format.delimiter).drop passed).length := by
      rw [List.length_drop, List.length_append]
      omega
    have positive := List.length_pos_iff.mpr format.delimiter_ne_nil
    have nonempty : unread ≠ [] := List.ne_nil_of_length_pos (by omega)
    rw [← split, List.append_assoc, List.append_cancel_left_eq] at bytes
    refine ⟨more.length, ?_⟩
    rw [(Rounds.skipped nonempty invoked (by omega) (Decoder.rounds_pass ..)).eq_pass]
    rw [show unread.drop (frame.length - passed + format.delimiter.length) = more by
      rw [consumed, ← split, List.drop_left]]
    refine (pass_proceeds uses legal bytes ?_ _ _).imp fun _ _ => Passed.of_skipped invoked
    exact state'
  case neg =>
    left
    have shown : unread <+: (frame ++ format.delimiter).drop passed :=
      List.prefix_of_prefix_length_le ⟨_, rfl⟩ ⟨_, bytes.symm⟩ (Nat.le_of_not_le complete)
    rw [List.length_drop, List.length_append] at complete
    have nowhere : Bytes.offsetOf? unread format.delimiter = none :=
      Bytes.offsetOf?_of_incomplete format.delimiter_ne_nil first shown (by omega)
    by_cases nonempty : unread = []
    case pos =>
      have ⟨passed', left⟩ := passed_of_exhausted format decoder state position results
      rw [← nonempty] at passed' left
      exact ⟨passed', left.symm ▸ lost⟩
    case neg =>
      have ⟨passed', left⟩ := passed_of_lost uses nowhere nonempty state nofun position results
      refine ⟨passed', legal, frame, passed + (unread.length - (format.delimiter.length - 1)),
        ⟨within, first⟩, by omega, ?_⟩
      rw [left, ← List.drop_drop]
      refine drop_append_eq_of_eq bytes (Nat.sub_le ..) ?_
      rw [List.length_drop, List.length_append]
      omega

end Decoding
end Delimited
end Framing
