import Framing.Proofs.Conservation
import Framing.Proofs.LengthPrefixed
import Framing.Proofs.Slicing

/-!
Transports of length-prefixed streams. What a decoder makes of a transport is a function of the bytes
that it brings and of how it ends: neither the cut of its items nor their being read in slices, nor
any waiting in between, makes a difference.
-/

namespace Framing

namespace Transport

-- Reads need a buffer that can be had.
def Mode.Fits : Mode → Prop
  | whole       => True
  | sliced size => size ≤ ReadBuffer.sizeLimit

-- The items bring `bytes`, in any cut and with any waiting in between, and nobody asks for the end.
-- Behind that, they fail if there is a `failure`, and are at their end otherwise. Where they are
-- sliced, an item without bytes is that end.
inductive Brings (mode : Mode) : List Item → Bytes → (failure : Option TransportError) → Prop
  | exhausted : Brings mode [] [] none
  | closed {left} (sliced : mode ≠ .whole) : Brings mode (.data [] :: left) [] none
  | failed {error left} : Brings mode (.error error :: left) [] (some error)
  | pending {items bytes failure} (rest : Brings mode items bytes failure) :
    Brings mode (.pending :: items) bytes failure
  | data {chunk items bytes failure} (counts : chunk = [] → mode = .whole)
    (rest : Brings mode items bytes failure) :
    Brings mode (.data chunk :: items) (chunk ++ bytes) failure

-- What a poll of such items for a chunk comes to, and what is still brought by those that it leaves.
def Yields (poll : Poll (Option (Except TransportError Bytes))) (bytes : Bytes)
    (failure : Option TransportError) : Prop :=
  match poll.ready with
  | none                       => Brings .whole poll.left bytes failure
  | some none                  => bytes = [] ∧ failure = none
  | some (some (.ok chunk))    => ∃ more, bytes = chunk ++ more ∧ Brings .whole poll.left more failure
  | some (some (.error error)) => bytes = [] ∧ failure = some error

variable {items : List Item} {bytes : Bytes} {failure : Option TransportError}

namespace Brings

theorem chunks (brings : Brings .whole items bytes failure) (chunks : List Bytes) :
    Brings .whole (chunks.map .data ++ items) (chunks.flatten ++ bytes) failure := by
  induction chunks
  case nil => exact brings
  case cons chunk chunks ih =>
    rw [List.flatten_cons, List.append_assoc]
    exact .data (fun _ => rfl) ih

-- What reads come to is brought by the slices, too.
theorem slice {size : Nat} (brings : Brings (.sliced size) items bytes failure) :
    Brings .whole (slice size (readable items)) bytes failure := by
  induction brings
  case exhausted       => exact .exhausted
  case closed          => exact .exhausted
  case failed          => exact .failed
  case pending ih      => exact .pending ih
  case data chunk items bytes _ counts _ ih =>
    have nonempty : chunk ≠ [] := fun empty => nomatch counts empty
    have full : Item.data chunk ≠ .data [] := fun same => nonempty (Item.data.inj same)
    have brings := ih.chunks (Bytes.slices size chunk)
    rw [Bytes.flatten_slices] at brings
    rwa [readable_cons full, slice_cons]

variable (brings : Brings .whole items bytes failure)
include brings

theorem yields : (next items).cancelled = false ∧ Yields (next items) bytes failure := by
  cases brings
  case closed sliced => exact absurd rfl sliced
  case exhausted     => exact ⟨rfl, rfl, rfl⟩
  case failed        => exact ⟨rfl, rfl, rfl⟩
  case pending rest  => exact ⟨rfl, rest⟩
  case data rest     => exact ⟨rfl, _, rfl, rest⟩

theorem of_pending (came : (next items).ready = none) :
    Brings .whole (next items).left bytes failure := by
  simpa only [Yields, came] using brings.yields.2

theorem of_finished (came : (next items).ready = some none) : bytes = [] ∧ failure = none := by
  simpa only [Yields, came] using brings.yields.2

theorem of_failed {error : TransportError} (came : (next items).ready = some (some (.error error))) :
    bytes = [] ∧ failure = some error := by
  simpa only [Yields, came] using brings.yields.2

theorem of_chunk {chunk : Bytes} (came : (next items).ready = some (some (.ok chunk))) :
    ∃ more, bytes = chunk ++ more ∧ Brings .whole (next items).left more failure := by
  simpa only [Yields, came] using brings.yields.2

end Brings

end Transport

namespace LengthPrefixed

open Decoder (State Stage)
open Transport (Item Mode ReadBuffer Brings)

variable {format : LengthPrefixed} {bytes : Bytes} {μ : Type}

-- What driving a decoder comes to, where `left` is not read off: too much is announced, or else the
-- transport fails, or else the stream ends, which may be too early.
def verdict (format : LengthPrefixed) (left : Bytes) (failure : Option TransportError) :
    Outcome (DecodeError FramingError) EndSignal :=
  match format.excess? left, failure with
  | some size, _       => .failed (.strategy (.oversized size format.limit))
  | none, some failure => .failed (.transport failure)
  | none, none         => (conclusion left).map fun _ => .disconnected

-- The signal that is handed over last.
def closing (format : LengthPrefixed) (left : Bytes) : EndSignal :=
  if (format.excess? left).isSome then .closed else .disconnected

theorem closing_of_within (within : format.excess? bytes = none) :
    format.closing bytes = .disconnected := by
  simp [closing, within]

theorem closing_of_excess {size : Nat} (excess : format.excess? bytes = some size) :
    format.closing bytes = .closed := by
  simp [closing, excess]

-- What driving a decoder produces: all the payloads from `source`, and one signal behind them.
structure Produces (format : LengthPrefixed) (source : Source) (bytes : Bytes)
    (failure : Option TransportError)
    (result : Outcome (DecodeError FramingError) EndSignal × State Unit Bytes FramingError μ) :
    Prop where
  outcome : result.1 = format.verdict (format.parse bytes).left failure
  events  : result.2.trace.events = (format.parse bytes).payloads.map (.frame · source) ++
    [.ended (format.closing (format.parse bytes).left)]

theorem returns_conclusion (left : Bytes) : (conclusion left).returns := by
  rw [conclusion]
  split
  case isTrue  => rfl
  case isFalse => split <;> rfl

-- What a decoder has come to that was delivered `bytes`, all of them from `source`.
structure Hears (format : LengthPrefixed) (source : Source) (bytes : Bytes)
    (state : State Unit Bytes FramingError μ) : Prop extends format.Reads bytes state where
  sources : ∀ event ∈ state.trace.events, event.source? = some source

-- Frames that come from one source are told by their contents.
theorem events_eq {source : Source} {events : List (Event Bytes μ)} {payloads : List Bytes}
    (frames : events.map Event.frame? = payloads.map some)
    (sources : ∀ event ∈ events, event.source? = some source) :
    events = payloads.map (.frame · source) := by
  induction events generalizing payloads
  case nil =>
    cases payloads
    case nil  => rfl
    case cons => cases frames
  case cons event events ih =>
    cases payloads
    case nil  => cases frames
    case cons =>
      have ⟨content, rest⟩ := List.cons.inj frames
      have ⟨told, others⟩ := List.forall_mem_cons.mp sources
      cases event
      case frame =>
        cases content
        cases told
        exact congrArg _ (ih rest others)
      all_goals cases content

variable {decoder : Decoder Unit Bytes FramingError μ} {source : Source}
variable {state : State Unit Bytes FramingError μ}

namespace Hears

theorem events (hears : format.Hears source bytes state) :
    state.trace.events = (format.parse bytes).payloads.map (.frame · source) :=
  events_eq hears.frames hears.sources

theorem note (hears : format.Hears source bytes state) (notice : Notice) :
    format.Hears source bytes (state.note notice) where
  runs    := hears.runs
  rests   := hears.rests
  frames  := by simpa [State.note, Stage.note] using hears.frames
  sources := by simpa [State.note, Stage.note] using hears.sources

theorem feed (uses : decoder.Uses format.strategy) (hears : format.Hears source bytes state)
    (within : format.excess? (format.parse bytes).left = none) (chunk : Bytes) :
    format.Hears source (bytes ++ chunk) (decoder.feed chunk source state).2 where
  toReads := (hears.toReads.feed uses within chunk source).1
  sources := by
    have ⟨_, _, grows, sources⟩ := decoder.feed_attributed chunk source hears.rests.sound
    rw [grows.events]
    exact List.forall_mem_append.mpr ⟨hears.sources, sources⟩

section Ways

variable (uses : decoder.Uses format.strategy) (hears : format.Hears source bytes state)
include uses hears

-- The ways out, in each of which the signal is the only event that is still to come.
section Within

variable (within : format.excess? (format.parse bytes).left = none)
include within

theorem close :
    format.Produces source bytes none (decoder.close source .disconnected state) := by
  let notice := Notice.transportClosing .disconnected source
  have ⟨outcome, events⟩ := (hears.note notice).toReads.finish uses within .disconnected
  constructor
  case outcome =>
    simp only [verdict, within, ← outcome]
    rfl
  case events =>
    rw [(hears.note notice).events] at events
    rw [closing_of_within within]
    exact events

theorem closeAfter (error : TransportError) :
    format.Produces source bytes (some error) (decoder.closeAfter source error state) := by
  let notice := Notice.transportFailed source error
  have ⟨outcome, events⟩ := (hears.note notice).toReads.finish uses within .disconnected
  rw [(hears.note notice).events] at events
  rcases finished : decoder.finish .disconnected (state.note notice) with ⟨outcome', after⟩
  rw [finished] at outcome events
  obtain rfl : outcome' = conclusion (format.parse bytes).left := outcome
  rw [Decoder.closeAfter_of_finish finished (returns_conclusion _)]
  constructor
  case outcome => simp only [verdict, within]
  case events  => rw [Decoder.State.flushed_events, closing_of_within within, events]

end Within

-- Behind a header that announces too much, it does not matter how the transport goes on.
theorem abortAfter {size : Nat} (excess : format.excess? (format.parse bytes).left = some size)
    (more : Bytes) (failure : Option TransportError) :
    format.Produces source (bytes ++ more) failure
      (decoder.abortAfter source (.strategy (.oversized size format.limit)) state) := by
  have ⟨outcome, events⟩ := Decoder.abort_of_steady uses.steady hears.runs .closed
  rw [hears.events] at events
  rcases aborted : decoder.abort .closed state with ⟨outcome', after⟩
  rw [aborted] at outcome events
  cases outcome
  have excess' := excess?_append excess more
  constructor <;>
    simp only [Decoder.abortAfter, aborted, parse_append_of_excess excess]
  case outcome => simp only [verdict, excess']
  case events  =>
    rw [closing_of_excess excess', ← events]
    simp [State.note, Stage.note]

end Ways

-- By induction on the polls: as long as nothing too large is announced, each leaves the decoder as if
-- all bytes so far had come at once.
theorem consumeChunks (uses : decoder.Uses format.strategy) {sofar : Bytes}
    (hears : format.Hears source sofar state)
    (within : format.excess? (format.parse sofar).left = none) {items : List Item}
    {failure : Option TransportError} (brings : Brings .whole items bytes failure)
    {cancelled : Bool} (calm : cancelled = false) :
    let consumed := decoder.consumeChunks source cancelled items state
    format.Produces source (sofar ++ bytes) failure (consumed.outcome, consumed.state) := by
  fun_induction decoder.consumeChunks source cancelled items state generalizing sofar bytes
  case case1 => cases calm
  all_goals have calm' := brings.yields.1
  case case2 came ih => exact ih hears within (brings.of_pending came) calm'
  case case3 came =>
    obtain ⟨rfl, rfl⟩ := brings.of_finished came
    rw [List.append_nil]
    exact hears.close uses within
  case case4 chunk came _ _ went ih =>
    obtain ⟨more, rfl, rest⟩ := brings.of_chunk came
    obtain ⟨_, outcome⟩ := hears.toReads.feed uses within chunk source
    have hears' := hears.feed uses within chunk
    rw [went] at outcome hears'
    rw [← List.append_assoc]
    exact ih hears' (admission_eq_done_iff.mp outcome.symm) rest calm'
  case case5 state _ _ chunk came error failed rejects =>
    obtain ⟨more, rfl, _⟩ := brings.of_chunk came
    have hears' := hears.feed uses within chunk
    have broken : (decoder.feed chunk source state).1 ≠ .done () := by simp [rejects]
    obtain ⟨size, excess, outcome⟩ := hears.toReads.feed_broken uses within broken
    rw [rejects] at outcome hears'
    cases outcome
    rw [← List.append_assoc]
    exact hears'.abortAfter uses excess more failure
  case case6 state _ _ chunk came fault failed faulted =>
    have broken : (decoder.feed chunk source state).1 ≠ .done () := by simp [faulted]
    obtain ⟨_, _, outcome⟩ := hears.toReads.feed_broken uses within broken
    cases (congrArg Prod.fst faulted).symm.trans outcome
  case case7 error came =>
    obtain ⟨rfl, rfl⟩ := brings.of_failed came
    rw [List.append_nil]
    exact hears.closeAfter uses within error

end Hears

theorem initial_hears (format : LengthPrefixed) (source : Source) :
    format.Hears source [] (.initial () : State Unit Bytes FramingError μ) where
  toReads := initial_reads format
  sources := nofun

section Uses

variable (uses : decoder.Uses format.strategy) {items : List Item}
variable {failure : Option TransportError}
include uses

theorem consumeStream_produces (brings : Brings .whole items bytes failure) (source : Source) :
    let run := decoder.consumeStream source false items (.initial ())
    format.Produces source bytes failure (run.outcome, run.state) := by
  have nothing : format.excess? (format.parse []).left = none := by
    rw [parse_of_partialHeader rfl]
    rfl
  have opened := (initial_hears (μ := μ) format source).note (.transportOpened source)
  exact opened.consumeChunks uses nothing brings rfl

-- A reader is like the stream of its slices.
theorem consume_produces {mode : Mode} (fits : mode.Fits) (brings : Brings mode items bytes failure)
    (source : Source) :
    let run := decoder.consume source mode items (.initial ())
    format.Produces source bytes failure (run.outcome, run.state) := by
  cases mode
  case whole       => exact consumeStream_produces uses brings source
  case sliced size =>
    have same := decoder.consumeReader_slices source fits false items (.initial ())
    have ⟨outcome, events⟩ := consumeStream_produces uses brings.slice source
    exact ⟨same.outcome.symm.trans outcome, same.state ▸ events⟩

end Uses

-- Nothing else matters about the runs: the decoders may ask for memory in their own ways, and the
-- transports may be read in their own ways, in slices of any size or not at all.
theorem consume_eq_of_brings {decoder decoder' : Decoder Unit Bytes FramingError μ}
    (uses : decoder.Uses format.strategy) (uses' : decoder'.Uses format.strategy)
    {mode mode' : Mode} (fits : mode.Fits) (fits' : mode'.Fits)
    {items items' : List Item} {failure : Option TransportError}
    (brings : Brings mode items bytes failure) (brings' : Brings mode' items' bytes failure)
    (source source' : Source) :
    let run  := decoder.consume source mode items (.initial ())
    let run' := decoder'.consume source' mode' items' (.initial ())
    format.Produces source bytes failure (run.outcome, run.state) ∧
    format.Produces source' bytes failure (run'.outcome, run'.state) ∧
    run.outcome = run'.outcome ∧
    (source = source' → run.state.trace.events = run'.state.trace.events) := by
  intro run run'
  have produces  := consume_produces uses fits brings source
  have produces' := consume_produces uses' fits' brings' source'
  refine ⟨produces, produces', produces.outcome.trans produces'.outcome.symm, ?_⟩
  rintro rfl
  exact produces.events.trans produces'.events.symm

-- Both transports fail in the middle of a payload. To flush what there is of it fails, too, but it is
-- the first error that counts.
theorem consume_eq_of_brings_partialPayload :
    let format : LengthPrefixed := { limit := 4 }
    let decoder : Decoder Unit Bytes FramingError Unit :=
      { strategy := format.strategy, receiver := .collecting }
    let decoder' : Decoder Unit Bytes FramingError Unit :=
      { decoder with allocator := { provider := .padding 5 8 [7], floor := 1 } }
    let failure : TransportError := { kind := .timedOut, details := none }
    let bytes : Bytes := [0, 0, 0, 1, 7, 0, 0, 0, 2, 8]
    let items : List Item :=
      [.data [0, 0, 0, 1, 7, 0, 0], .pending, .data [0, 2, 8], .error failure]
    let items' : List Item :=
      [.data [0], .data [], .data [0, 0, 1, 7, 0, 0, 0, 2, 8], .error failure, .cancel]
    let run  := decoder.consume (some "peer") (.sliced 3) items (.initial ())
    let run' := decoder'.consume (some "peer") .whole items' (.initial ())
    decoder.Uses format.strategy ∧ decoder'.Uses format.strategy ∧
    (Mode.sliced 3).Fits ∧ Mode.whole.Fits ∧
    Brings (.sliced 3) items bytes (some failure) ∧ Brings .whole items' bytes (some failure) ∧
    run.outcome = .failed (.transport failure) ∧
    run.state.trace.events = [.frame [7] (some "peer"), .ended .disconnected] ∧
    run.state.trace.invocations.length ≠ run'.state.trace.invocations.length ∧
    run.outcome = run'.outcome ∧ run.state.trace.events = run'.state.trace.events := by
  intro format decoder decoder' failure bytes items items' run run'
  have uses  : decoder.Uses format.strategy := ⟨rfl, Receiver.collecting_steady⟩
  have uses' : decoder'.Uses format.strategy := ⟨rfl, Receiver.collecting_steady⟩
  have fits  : (Mode.sliced 3).Fits := show 3 ≤ ReadBuffer.sizeLimit by decide
  have fits' : Mode.whole.Fits      := trivial
  have brings : Brings (.sliced 3) items bytes (some failure) :=
    have last : Brings (.sliced 3) [.data [0, 2, 8], .error failure] ([0, 2, 8] ++ []) _ :=
      .data nofun .failed
    .data nofun (.pending last)
  have brings' : Brings .whole items' bytes (some failure) :=
    have last : Brings .whole (items'.drop 2) ([0, 0, 1, 7, 0, 0, 0, 2, 8] ++ []) _ :=
      .data nofun .failed
    .data nofun (.data (fun _ => rfl) last)
  have ⟨_, _, outcome, events⟩ :=
    consume_eq_of_brings uses uses' fits fits' brings brings' (some "peer") (some "peer")
  exact ⟨uses, uses', fits, fits', brings, brings', by decide +kernel, by decide +kernel,
    by decide +kernel, outcome, events rfl⟩

-- Both transports bring the same bytes, but there is no buffer for the reads.
theorem consume_ne_of_brings :
    let format : LengthPrefixed := { limit := 4 }
    let decoder : Decoder Unit Bytes FramingError Unit :=
      { strategy := format.strategy, receiver := .collecting }
    let size := ReadBuffer.sizeLimit + 1
    let bytes : Bytes := [0, 0, 0, 1, 7]
    let items : List Item := [.data bytes]
    let run  := decoder.consume none (.sliced size) items (.initial ())
    let run' := decoder.consume none .whole items (.initial ())
    decoder.Uses format.strategy ∧
    Brings (.sliced size) items bytes none ∧ Brings .whole items bytes none ∧
    run'.outcome = .done .disconnected ∧
    run'.state.trace.events = [.frame [7] none, .ended .disconnected] ∧
    run.outcome = .faulted .capacityOverflow ∧ run.state.trace.events = [] := by
  intro format decoder size bytes items run run'
  have exceeds : ReadBuffer.sizeLimit < size := Nat.lt_succ_self _
  have overflows : run = { outcome := .faulted .capacityOverflow, left := items, state := _ } :=
    decoder.consumeReader_of_exceeds none exceeds false items (.initial ())
  rw [overflows]
  exact ⟨⟨rfl, Receiver.collecting_steady⟩, .data nofun .exhausted, .data nofun .exhausted,
    by decide +kernel, by decide +kernel, rfl, rfl⟩

end LengthPrefixed
end Framing
