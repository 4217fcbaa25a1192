import Framing.Bytes

/-!
What travels through a decoder: deliveries from the transport on the way in, events for a receiver
on the way out.
-/

namespace Framing

-- The address that a delivery came from, where the transport knows it.
abbrev Source := Option String

def Source.text : Source → String
  | none         => "None"
  | some address => s!"Some({address})"

-- The signal that a stream is over.
inductive EndSignal where
  | disconnected
  | closed
  deriving DecidableEq, Repr

def EndSignal.text : EndSignal → String
  | disconnected => "Disconnected"
  | closed       => "Closed"

-- A delivery from the transport, with messages of type `μ` beside the bytes of the stream.
inductive Delivery (μ : Type) where
  | chunk (bytes : Bytes) (source : Source)
  | message (content : μ)
  | ended (signal : EndSignal)
  deriving DecidableEq, Repr

-- An event for a receiver, with frames of type `φ`.
inductive Event (φ μ : Type) where
  | frame (frame : φ) (source : Source)
  | batch (frames : List φ) (source : Source)
  | message (content : μ)
  | ended (signal : EndSignal)
  deriving DecidableEq, Repr

namespace Event

variable {φ μ : Type}

def frame? : Event φ μ → Option φ
  | frame f _ => some f
  | _         => none

def isEnd : Event φ μ → Bool
  | ended _ => true
  | _       => false

end Event
end Framing
