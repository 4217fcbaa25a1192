import Framing.Grouping
import Framing.Retention
import Framing.Trace

/-!
Decoders of one stream. A decoder shows the unread bytes of its stream to a strategy, dispatches
what the strategy finds, and retains the bytes that it leaves unread.
-/

namespace Framing

variable {σ φ ε μ : Type}

-- What is fixed when a decoder is built.
structure Decoder (σ φ ε μ : Type) where
  strategy  : Strategy σ φ ε
  receiver  : Receiver φ μ
  allocator : Allocator := {}
  grouping  : Grouping  := .together

namespace Decoder

-- What decoding changes. `handed` counts the events that were handed to the receiver.
structure Stage (σ φ ε μ : Type) where
  strategyState : σ
  context       : Context     := {}
  handed        : Nat         := 0
  trace         : Trace φ ε μ := #[]

-- All that changes in a decoder.
structure State (σ φ ε μ : Type) extends Stage σ φ ε μ where
  retention : Retention := {}
  ended     : Bool      := false

namespace Stage

variable (stage : Stage σ φ ε μ)

def act (activities : List Activity) : Stage σ φ ε μ :=
  { stage with
    trace := activities.foldl (fun trace activity => trace.push (.activity activity)) stage.trace }

def note (notice : Notice) : Stage σ φ ε μ :=
  stage.act [.noted notice]

def count (increments : List (Metric × Nat)) : Stage σ φ ε μ :=
  stage.act (increments.map fun (metric, amount) => .counted metric amount)

-- One more result was found, and is about to be dispatched.
def countResult : Stage σ φ ε μ :=
  { stage with context.results := stage.context.results + 1 }

-- From now on the strategy is told that the stream has ended.
def beginEnding : Stage σ φ ε μ :=
  { stage with context := { stage.context with source := none, ending := true } }

end Stage

namespace State

variable (state : State σ φ ε μ)

-- The state of a decoder to which nothing has been delivered yet.
def initial (strategyState : σ) : State σ φ ε μ where
  strategyState := strategyState

def note (notice : Notice) : State σ φ ε μ :=
  { state with toStage := state.toStage.note notice }

-- The state after an operation on what is retained.
def retain (step : Retention × List Activity) : State σ φ ε μ :=
  { state with toStage := state.act step.2, retention := step.1 }

-- Puts a failed call on record.
def recordFailure (error : DecodeError ε) : State σ φ ε μ :=
  let notice := .failed error.kind error.isDefect state.context.source state.retention.unread.length
  { state with toStage := (state.toStage.note notice).count [(.errors error.kind.name, 1)] }

end State

variable (decoder : Decoder σ φ ε μ)

-- Invokes the strategy on `unread`, for the last time if `last`.
def invoke (last : Bool) (unread : Bytes) (stage : Stage σ φ ε μ) :
    Outcome ε (Found φ) × Nat × Stage σ φ ε μ :=
  let strategy   := if last then decoder.strategy.conclude else decoder.strategy.decode
  let invocation := strategy stage.strategyState stage.context unread
  let invoked    :=
    { last, context := stage.context, unread
      outcome := invocation.outcome, consumed := invocation.consumed }
  let stage      := { stage with
    strategyState := invocation.state
    trace         := stage.trace.push (.invoked invoked) }
  (invocation.outcome, invocation.consumed, stage.act (invocation.notices.map .noted))

-- Hands `event` to the receiver, which may break off.
def hand (event : Event φ μ) (stage : Stage σ φ ε μ) : Option Fault × Stage σ φ ε μ :=
  let reception := decoder.receiver.receive stage.handed event
  let stage     := { stage with
    handed := stage.handed + 1
    trace  := stage.trace.push (.handed event reception) }
  match reception with
  | .accepted      => (none, stage)
  | .discarded     => (none, stage.note .receiverGone)
  | .refused fault => (some fault, stage)

-- Hands over `events` in order, up to the first at which the receiver breaks off.
def handAll : List (Event φ μ) → Stage σ φ ε μ → Option Fault × Stage σ φ ε μ
  | [], stage              => (none, stage)
  | event :: events, stage =>
    match decoder.hand event stage with
    | (none, stage)       => handAll events stage
    | (some fault, stage) => (some fault, stage)

-- Dispatches a result. Its frames count once they are all handed over.
def dispatch (found : Found φ) (source : Source) (stage : Stage σ φ ε μ) :
    Option Fault × Stage σ φ ε μ :=
  match decoder.handAll (found.events decoder.grouping source) stage.countResult with
  | (none, stage)       => (none, stage.count (Metric.dispatched found.frames.length))
  | (some fault, stage) => (some fault, stage)

end Decoder
end Framing
