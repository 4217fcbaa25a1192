import Framing.Strategy.Attempt

/-!
Delimited streams: each frame is ended by a fixed run of bytes. Frames over the limit are an error,
or are skipped up to the next delimiter.
-/

namespace Framing

-- `limit` bounds a frame without its delimiter, whether or not the delimiter is kept. With
-- `acceptTail` a stream may end without a delimiter behind its last frame.
structure Delimited where
  delimiter        : Bytes
  delimiter_ne_nil : delimiter ≠ []
  limit            : Nat  := 65536
  keepDelimiter    : Bool := false
  skipOversized    : Bool := false
  acceptTail       : Bool := false

namespace Delimited

variable {unread : Bytes}

-- Frames that end with a line feed.
def byLine : Delimited where
  delimiter        := [10]
  delimiter_ne_nil := List.cons_ne_nil _ _

-- Frames that end with `delimiter`, or with a line feed where the delimiter is empty.
def endingWith (delimiter : Bytes) : Delimited :=
  if h : delimiter = [] then byLine else { delimiter, delimiter_ne_nil := h }

-- Skips `count` bytes of a frame that is over the limit.
def skip (format : Delimited) (count : Nat) :
    Attempt Bool FramingError unread (Found Bytes) := do
  Attempt.note (.oversizedSkipped count format.limit)
  Attempt.advance count
  return .nothing

-- The state tells whether the next bytes belong to a frame that is being skipped. While it is, the
-- last bytes stay unread as long as a delimiter may have begun in them.
def decode (format : Delimited) : Attempt Bool FramingError unread (Found Bytes) := do
  let width := format.delimiter.length
  let cursor ← Attempt.cursor
  let skipping ← Attempt.state
  match cursor.find? format.delimiter with
  | none       =>
    let size := cursor.remaining
    if skipping then
      Attempt.advance (size - (width - 1))
      return .nothing
    else if size ≤ format.limit then
      return .nothing
    else if format.skipOversized then
      Attempt.setState true
      format.skip (size - (width - 1))
    else
      Attempt.fail (.oversized size format.limit)
  | some index =>
    if skipping then
      Attempt.setState false
      Attempt.advance (index + width)
      return .nothing
    else if index ≤ format.limit then
      if format.keepDelimiter then
        return .frame (← Attempt.copy (index + width))
      else
        let frame ← Attempt.copy index
        Attempt.advance width
        return .frame frame
    else if format.skipOversized then
      format.skip (index + width)
    else
      Attempt.fail (.oversized index format.limit)

def conclude (format : Delimited) : Attempt Bool FramingError unread (Found Bytes) := do
  let found ← format.decode
  let left := (← Attempt.cursor).remaining
  if found.isResult || left = 0 || (← Attempt.state) then
    return found
  else if format.acceptTail then
    return .frame (← Attempt.copy left)
  else
    Attempt.fail (.unterminated left)

-- A stream starts in the state `false`: nothing is being skipped.
def strategy (format : Delimited) : Strategy Bool Bytes FramingError :=
  .ofAttempts (fun _ _ => format.decode) (fun _ _ => format.conclude)

end Delimited
end Framing
