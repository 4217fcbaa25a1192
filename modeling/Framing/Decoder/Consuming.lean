import Framing.Decoder.Call
import Framing.Transport

/-!
Whole transports. Chunks are taken from a transport until it ends, fails or is cancelled, and in
every case the stream is ended. Streams of chunks and readers each have a loop of their own.
-/

namespace Framing.Decoder

open Transport (Item Mode ReadBuffer)

variable {σ φ ε μ : Type}

-- How consuming a transport comes out, and what it left in store.
structure Consumed (σ φ ε μ : Type) where
  outcome : Outcome (DecodeError ε) EndSignal
  left    : List Item
  state   : State σ φ ε μ

variable (decoder : Decoder σ φ ε μ) (source : Source)

-- Ends the stream because the transport has ended or was cancelled.
def close (signal : EndSignal) (state : State σ φ ε μ) :
    Outcome (DecodeError ε) EndSignal × State σ φ ε μ :=
  let (outcome, state) := decoder.finish signal (state.note (.transportClosing signal source))
  (outcome.map fun _ => signal, state)

-- Ends the stream because the transport has failed. Should that fail too, the first error is the one
-- that counts.
def closeAfter (error : TransportError) (state : State σ φ ε μ) :
    Outcome (DecodeError ε) EndSignal × State σ φ ε μ :=
  match decoder.finish .disconnected (state.note (.transportFailed source error)) with
  | (.done _, state)        => (.failed (.transport error), state)
  | (.failed second, state) =>
    (.failed (.transport error), state.note (.flushFailedToo second.kind source))
  | (.faulted fault, state) => (.faulted fault, state)

-- Ends the stream because decoding has failed. The strategy is not invoked again on what it rejected.
def abortAfter (error : DecodeError ε) (state : State σ φ ε μ) :
    Outcome (DecodeError ε) EndSignal × State σ φ ε μ :=
  match decoder.abort .closed state with
  | (.done discarded, state) => (.failed error, state.note (.abortedAfterFailure source discarded))
  | (.failed second, state)  => (.failed second, state)
  | (.faulted fault, state)  => (.faulted fault, state)

-- The end of a run, by a way of ending the stream.
def Consumed.ofEnd (left : List Item)
    (result : Outcome (DecodeError ε) EndSignal × State σ φ ε μ) : Consumed σ φ ε μ where
  outcome := result.1
  left    := left
  state   := result.2

-- Decodes one chunk after the other, as a stream yields them. Before each poll it is seen whether an
-- earlier one asked for the end. A stream that yields no more has ended.
def consumeChunks (cancelled : Bool) (items : List Item) (state : State σ φ ε μ) :
    Consumed σ φ ε μ :=
  if cancelled then
    .ofEnd items (decoder.close source .closed state)
  else
    let poll := Transport.next items
    match _ : poll.ready with
    | none                       => consumeChunks poll.cancelled poll.left state
    | some none                  => .ofEnd poll.left (decoder.close source .disconnected state)
    | some (some (.ok chunk))    =>
      match decoder.feed chunk source state with
      | (.done _, state)        => consumeChunks poll.cancelled poll.left state
      | (.failed error, state)  => .ofEnd poll.left (decoder.abortAfter source error state)
      | (.faulted fault, state) => { outcome := .faulted fault, left := poll.left, state }
    | some (some (.error error)) => .ofEnd poll.left (decoder.closeAfter source error state)
termination_by Transport.load items
decreasing_by
  all_goals
    refine Transport.load_next_lt ?_
    rw [show (Transport.next items).ready = _ from ‹_›]
    exact nofun

-- Decodes what is read into a buffer, read by read. Before each poll it is seen whether an earlier one
-- asked for the end. A reader of which nothing is read has ended.
def consumeReads (buffer : ReadBuffer) (cancelled : Bool) (items : List Item)
    (state : State σ φ ε μ) : Consumed σ φ ε μ :=
  if cancelled then
    .ofEnd items (decoder.close source .closed state)
  else
    let read := Transport.read buffer items
    match _ : read.ready with
    | none                   => consumeReads read.buffer read.cancelled read.left state
    | some (.ok 0)           => .ofEnd read.left (decoder.close source .disconnected state)
    | some (.ok (count + 1)) =>
      match decoder.feed (read.buffer.front (count + 1)) source state with
      | (.done _, state)        => consumeReads read.buffer read.cancelled read.left state
      | (.failed error, state)  => .ofEnd read.left (decoder.abortAfter source error state)
      | (.faulted fault, state) => { outcome := .faulted fault, left := read.left, state }
    | some (.error error)    => .ofEnd read.left (decoder.closeAfter source error state)
termination_by Transport.load items
decreasing_by
  all_goals
    refine Transport.load_read_lt ?_
    rw [show (Transport.read buffer items).ready = _ from ‹_›]
    exact nofun

-- Decodes what a stream of chunks has in store, and ends the stream.
def consumeStream (cancelled : Bool) (items : List Item) (state : State σ φ ε μ) :
    Consumed σ φ ε μ :=
  decoder.consumeChunks source cancelled items (state.note (.transportOpened source))

-- Decodes what a reader has in store, in reads of at most `size` bytes, and ends the stream. Nothing is
-- read, and nothing is ended, where there can be no such buffer.
def consumeReader (size : Nat) (cancelled : Bool) (items : List Item) (state : State σ φ ε μ) :
    Consumed σ φ ε μ :=
  let opened := state.note (.transportOpened source)
  match ReadBuffer.zeroed size with
  | .ok buffer   => decoder.consumeReads source buffer cancelled items opened
  | .error fault => { outcome := .faulted fault, left := items, state := opened }

-- Decodes what a transport has in store, where nobody has asked for the end yet.
def consume (mode : Mode) (items : List Item) (state : State σ φ ε μ) : Consumed σ φ ε μ :=
  match mode with
  | .whole       => decoder.consumeStream source false items state
  | .sliced size => decoder.consumeReader source size false items state

end Framing.Decoder
