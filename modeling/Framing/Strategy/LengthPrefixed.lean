import Framing.Strategy.Attempt

/-!
The length-prefixed format: each frame is a four-byte big-endian length and then that many bytes of
payload.
-/

namespace Framing

-- Payloads of more than `limit` bytes are refused.
structure LengthPrefixed where
  limit : Nat := 65536
  deriving DecidableEq, Repr

namespace LengthPrefixed

variable {unread : Bytes}

def headerSize : Nat := 4

-- The payload length that the next header announces, if all of the header is there.
def announced (format : LengthPrefixed) : Attempt Unit FramingError unread (Option Nat) := do
  match (← Attempt.cursor).peek? headerSize with
  | none        => return none
  | some header =>
    let size := header.toNat
    if size ≤ format.limit then
      return some size
    else
      Attempt.fail (.oversized size format.limit)

-- A header is consumed together with its payload, so that an empty payload is progress too.
def decode (format : LengthPrefixed) : Attempt Unit FramingError unread (Found Bytes) := do
  match ← format.announced with
  | none      => return .nothing
  | some size =>
    if (← Attempt.cursor).remaining < headerSize + size then
      return .nothing
    else
      Attempt.advance headerSize
      return .frame (← Attempt.copy size)

-- A stream may end between two frames only.
def conclude (format : LengthPrefixed) : Attempt Unit FramingError unread (Found Bytes) := do
  if (← Attempt.cursor).remaining = 0 then
    return .nothing
  else
    let found ← format.decode
    if found.isResult then
      return found
    else
      let received := (← Attempt.cursor).remaining
      match ← format.announced with
      | some expected => Attempt.fail (.partialPayload (received - headerSize) expected)
      | none          => Attempt.fail (.partialHeader received headerSize)

def strategy (format : LengthPrefixed) : Strategy Unit Bytes FramingError :=
  .ofAttempts (fun _ _ => format.decode) (fun _ _ => format.conclude)

-- The bytes that stand for `payloads`. A header has room for lengths below 2 ^ 32.
def encode (payloads : List Bytes) : Bytes :=
  payloads.flatMap fun payload => Bytes.ofNat headerSize payload.length ++ payload

end LengthPrefixed
end Framing
