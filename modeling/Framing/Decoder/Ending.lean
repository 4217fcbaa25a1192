import Framing.Decoder.Feeding

/-!
The end of a stream. What is still retained is flushed or given up, and the signal is forwarded
behind everything else, whether that went well or not.
-/

namespace Framing.Decoder

variable {σ φ ε μ : Type} (decoder : Decoder σ φ ε μ)

-- Lets the strategy have its last say on `unread`, and discards what it leaves.
def conclude (unread : Bytes) (stage : Stage σ φ ε μ) :
    Outcome (DecodeError ε) Unit × Stage σ φ ε μ :=
  match decoder.invoke true unread stage with
  | (.failed error, _, stage)       => (.failed (.strategy error), stage)
  | (.faulted fault, _, stage)      => (.faulted fault, stage)
  | (.done found, consumed, stage) =>
    let left  := unread.length - consumed
    let stage := if left = 0 then stage else stage.note (.leftoverDiscarded left)
    if found.isResult then
      match decoder.dispatch found none stage with
      | (none, stage)       => (.done (), stage)
      | (some fault, stage) => (.faulted fault, stage)
    else
      (.done (), stage)

-- Decodes what is left of the stream, `unread`, which starts at `position`.
def flush (unread : Bytes) (position : Nat) (stage : Stage σ φ ε μ) :
    Outcome (DecodeError ε) Unit × Stage σ φ ε μ :=
  let stage := stage.beginEnding.note (.ending unread.length)
  if unread = [] then
    decoder.conclude unread stage
  else
    let pass := decoder.pass unread position 0 stage
    match pass.outcome with
    | .done _        => decoder.conclude pass.unread pass.stage
    | .failed error  => (.failed error, pass.stage)
    | .faulted fault => (.faulted fault, pass.stage)

-- Hands over `signal` after `result`. Of two faults the first is the one that counts.
def forward (signal : EndSignal) (result : Outcome (DecodeError ε) Unit × State σ φ ε μ) :
    Outcome (DecodeError ε) Unit × State σ φ ε μ :=
  let (fault, stage) := decoder.hand (.ended signal) result.2.toStage
  let state := { result.2 with toStage := stage }
  match fault with
  | some fault => (if result.1.returns then .faulted fault else result.1, state)
  | none       => (result.1, state)

-- Ends the stream: flushes what is retained and forwards `signal`. Only the first end flushes.
def finish (signal : EndSignal) (state : State σ φ ε μ) :
    Outcome (DecodeError ε) Unit × State σ φ ε μ :=
  if state.ended then
    decoder.forward signal (.done (), state.note (.endedBefore signal))
  else
    let position := state.retention.buffer.elim 0 Buffer.consumed
    let (outcome, stage) := decoder.flush state.retention.unread position state.toStage
    decoder.forward signal <| recorded
      (outcome, { toStage := stage, retention := state.retention.release, ended := true })

-- Ends the stream without another invocation, and returns how many bytes that gives up.
def abort (signal : EndSignal) (state : State σ φ ε μ) :
    Outcome (DecodeError ε) Nat × State σ φ ε μ :=
  let discarded := if state.ended then 0 else state.retention.unread.length
  let retention := if state.ended then state.retention else state.retention.release
  let (outcome, state) := decoder.forward signal
    (.done (), State.note { state with retention, ended := true } (.aborted discarded signal))
  (outcome.map fun _ => discarded, state)

end Framing.Decoder
