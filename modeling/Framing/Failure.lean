import Framing.Bytes

/-!
What can go wrong with a stream, each failure by its cause. The formats of this library report a
`FramingError`, a transport reports a `TransportError`, and a decoder adds the one failure that it
detects itself: a frame for which no byte was consumed.
-/

namespace Framing

inductive TransportError.Kind where
  | addressInUse
  | alreadyExists
  | brokenPipe
  | connectionAborted
  | connectionRefused
  | connectionReset
  | interrupted
  | invalidData
  | invalidInput
  | notConnected
  | notFound
  | other
  | permissionDenied
  | timedOut
  | unexpectedEnd
  | wouldBlock
  | writeZero
  deriving DecidableEq, Repr

def TransportError.Kind.description : TransportError.Kind → String
  | addressInUse      => "address in use"
  | alreadyExists     => "entity already exists"
  | brokenPipe        => "broken pipe"
  | connectionAborted => "connection aborted"
  | connectionRefused => "connection refused"
  | connectionReset   => "connection reset"
  | interrupted       => "operation interrupted"
  | invalidData       => "invalid data"
  | invalidInput      => "invalid input parameter"
  | notConnected      => "not connected"
  | notFound          => "entity not found"
  | other             => "other error"
  | permissionDenied  => "permission denied"
  | timedOut          => "timed out"
  | unexpectedEnd     => "unexpected end of file"
  | wouldBlock        => "operation would block"
  | writeZero         => "write zero"

-- A transport operation that failed; without details its kind speaks for it.
structure TransportError where
  kind    : TransportError.Kind
  details : Option String
  deriving DecidableEq, Repr

def TransportError.message (error : TransportError) : String :=
  error.details.getD error.kind.description

-- Why bytes are no frames of their format.
inductive FramingError where
  | oversized (size limit : Nat)
  | partialHeader (received size : Nat)
  | partialPayload (received expected : Nat)
  | unterminated (received : Nat)
  deriving DecidableEq, Repr

namespace FramingError

def message : FramingError → String
  | oversized size limit             => s!"frame exceeds max length: {size} > {limit}"
  | partialHeader received size      =>
    s!"premature end of stream during header: {received} of {size} header bytes"
  | partialPayload received expected =>
    s!"premature end of stream: {received} bytes of {expected} byte frame received"
  | unterminated received            =>
    s!"premature end of stream: {received} bytes without a delimiter"

-- Whether the stream ended in the middle of a frame.
def endsEarly : FramingError → Bool
  | oversized .. => false
  | _            => true

-- The error as one of the transport: data that ends too early, or data that is no good.
def toTransport (error : FramingError) : TransportError where
  kind    := if error.endsEarly then .unexpectedEnd else .invalidData
  details := some error.message

end FramingError

-- Why decoding a stream fails, under a strategy with errors of type `ε`.
inductive DecodeError (ε : Type) where
  | stalled (results : Nat)
  | strategy (error : ε)
  | transport (error : TransportError)
  deriving DecidableEq, Repr

-- The failures that are counted apart.
inductive DecodeError.Kind where
  | stalled
  | strategy
  | transport
  deriving DecidableEq, Repr

def DecodeError.Kind.name : DecodeError.Kind → String
  | stalled   => "no_progress"
  | strategy  => "strategy"
  | transport => "transport"

namespace DecodeError

variable {ε : Type}

def kind : DecodeError ε → Kind
  | stalled _   => .stalled
  | strategy _  => .strategy
  | transport _ => .transport

-- Whether it is the strategy that is at fault, rather than the input.
def isDefect (error : DecodeError ε) : Bool :=
  error.kind = .stalled

def message (describe : ε → String) : DecodeError ε → String
  | stalled results =>
    "decode strategy returned a frame without consuming input "
      ++ s!"(after {results} results in this pass)"
  | strategy error  => s!"decode strategy failed: {describe error}"
  | transport error => s!"transport error: {error.message}"

-- The message of the error that caused this one.
def cause? (describe : ε → String) : DecodeError ε → Option String
  | stalled _       => none
  | strategy error  => some (describe error)
  | transport error => some error.message

def strategy? : DecodeError ε → Option ε
  | strategy error => some error
  | _              => none

def toTransport (convert : ε → TransportError) (describe : ε → String) :
    DecodeError ε → TransportError
  | stalled results => ⟨.other, some (message describe (.stalled results))⟩
  | strategy error  => convert error
  | transport error => error

end DecodeError
end Framing
