import Framing.Decoder.Ending

/-!
Calls of a decoder as data, and runs of them.
-/

namespace Framing.Decoder

variable {σ φ ε μ : Type}

inductive Call (μ : Type) where
  | receive (delivery : Delivery μ)
  | feed (chunk : Bytes) (source : Source)
  | finish (signal : EndSignal)
  | abort (signal : EndSignal)
  deriving DecidableEq, Repr

-- What a call returns that went well: how many bytes it gave up, if it was asked to.
inductive Reply where
  | unit
  | discarded (count : Nat)
  deriving DecidableEq, Repr

variable (decoder : Decoder σ φ ε μ)

-- Processes a delivery from the transport; messages pass through.
def receive (delivery : Delivery μ) (state : State σ φ ε μ) :
    Outcome (DecodeError ε) Unit × State σ φ ε μ :=
  match delivery with
  | .chunk bytes source => decoder.feed bytes source state
  | .ended signal       => decoder.finish signal state
  | .message content    =>
    let (fault, stage) := decoder.hand (.message content) state.toStage
    (fault.elim (.done ()) .faulted, { state with toStage := stage })

def perform (call : Call μ) (state : State σ φ ε μ) :
    Outcome (DecodeError ε) Reply × State σ φ ε μ :=
  match call with
  | .receive delivery  => (decoder.receive delivery state).map unit id
  | .feed chunk source => (decoder.feed chunk source state).map unit id
  | .finish signal     => (decoder.finish signal state).map unit id
  | .abort signal      => (decoder.abort signal state).map (·.map .discarded) id
where
  unit (outcome : Outcome (DecodeError ε) Unit) : Outcome (DecodeError ε) Reply :=
    outcome.map fun _ => .unit

-- Performs `calls` in order, whatever becomes of each.
def run : List (Call μ) → State σ φ ε μ →
    List (Outcome (DecodeError ε) Reply) × State σ φ ε μ
  | [], state            => ([], state)
  | call :: calls, state =>
    let (outcome, state)  := decoder.perform call state
    let (outcomes, state) := run calls state
    (outcome :: outcomes, state)

end Framing.Decoder
