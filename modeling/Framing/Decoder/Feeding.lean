import Framing.Decoder.Pass

/-!
Chunks of a stream. A chunk is decoded where it lies if nothing is retained, and together with the
retained bytes otherwise; what a pass leaves unread is retained for the next one.
-/

namespace Framing.Decoder

variable {σ φ ε μ : Type} (decoder : Decoder σ φ ε μ)

-- Decodes `chunk` where it lies. A fault loses what is unread of it.
def feedDirect (chunk : Bytes) (state : State σ φ ε μ) :
    Outcome (DecodeError ε) Unit × State σ φ ε μ :=
  let pass    := decoder.pass chunk 0 0 state.toStage
  let state   := { state with toStage := pass.stage }
  let outcome := pass.outcome.map fun _ => ()
  if outcome.returns then
    (outcome, state.retain (state.retention.keep decoder.allocator pass.unread))
  else
    (outcome, state)

-- Decodes `chunk` behind the retained bytes. A fault leaves them in their buffer, with everything
-- that the pass had come past consumed.
def feedAppended (chunk : Bytes) (state : State σ φ ε μ) :
    Outcome (DecodeError ε) Unit × State σ φ ε μ :=
  let state := state.retain (state.retention.append decoder.allocator chunk).2
  match state.retention.buffer with
  | none        => (.done (), state)
  | some buffer =>
    let pass    := decoder.pass buffer.unread buffer.consumed 0 state.toStage
    let state   := { state with
      toStage          := pass.stage
      retention.buffer := some (buffer.consumeTo pass.position) }
    let outcome := pass.outcome.map fun _ => ()
    if outcome.returns then
      (outcome, state.retain (state.retention.fit decoder.allocator))
    else
      (outcome, state)

-- Puts the call on record if it failed.
def recorded (result : Outcome (DecodeError ε) Unit × State σ φ ε μ) :
    Outcome (DecodeError ε) Unit × State σ φ ε μ :=
  match result.1 with
  | .failed error => (result.1, result.2.recordFailure error)
  | _             => result

-- Decodes a chunk of the stream. Empty chunks and chunks after the end of the stream are ignored.
def feed (chunk : Bytes) (source : Source) (state : State σ φ ε μ) :
    Outcome (DecodeError ε) Unit × State σ φ ε μ :=
  if chunk = [] then
    (.done (), state.note .emptyChunkIgnored)
  else if state.ended then
    (.done (), state.note (.lateChunkIgnored chunk.length source))
  else
    let state := { state with context.source := source }
    recorded <|
      if state.retention.isPresent then
        decoder.feedAppended chunk state
      else
        decoder.feedDirect chunk state

-- Feeds `chunks` in order, up to the first that does not go well.
def feedAll (source : Source) : List Bytes → State σ φ ε μ →
    Outcome (DecodeError ε) Unit × State σ φ ε μ
  | [], state              => (.done (), state)
  | chunk :: chunks, state =>
    match decoder.feed chunk source state with
    | (.done (), state) => feedAll source chunks state
    | (outcome, state)  => (outcome, state)

end Framing.Decoder
