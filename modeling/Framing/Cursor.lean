import Framing.Bytes
import Framing.Outcome

/-!
A cursor over bytes that are not yet consumed. Reading moves it forward, seeking moves it anywhere
within the bytes, and a step that cannot be carried out leaves it where it was.
-/

namespace Framing

-- A seek outside the bytes.
structure SeekError where
  position : Nat
  length   : Nat
  deriving DecidableEq, Repr

def SeekError.message (error : SeekError) : String :=
  s!"seek to {error.position} is outside a view of {error.length} bytes"

-- A cursor over `bytes`; what lies before it is consumed.
structure Cursor (bytes : Bytes) where
  position    : Nat
  position_le : position ≤ bytes.length
  deriving DecidableEq

namespace Cursor

variable {bytes : Bytes}

def start (bytes : Bytes) : Cursor bytes where
  position    := 0
  position_le := Nat.zero_le _

def remaining (cursor : Cursor bytes) : Nat :=
  bytes.length - cursor.position

-- The bytes from the cursor to the end.
def unread (cursor : Cursor bytes) : Bytes :=
  bytes.drop cursor.position

@[simp]
theorem length_unread (cursor : Cursor bytes) : cursor.unread.length = cursor.remaining :=
  List.length_drop

theorem position_add_remaining (cursor : Cursor bytes) :
    cursor.position + cursor.remaining = bytes.length :=
  Nat.add_sub_cancel' cursor.position_le

-- The cursor behind the next `count` bytes.
def skip (cursor : Cursor bytes) (count : Nat) (h : count ≤ cursor.remaining) : Cursor bytes where
  position    := cursor.position + count
  position_le := cursor.position_add_remaining ▸ Nat.add_le_add_left h _

def seek (cursor : Cursor bytes) (position : Nat) : Except SeekError (Cursor bytes) :=
  if h : position ≤ bytes.length then
    .ok { cursor with position, position_le := h }
  else
    .error { position, length := bytes.length }

-- The next `count` bytes, left unconsumed.
def peek? (cursor : Cursor bytes) (count : Nat) : Option Bytes :=
  if count ≤ cursor.remaining then some (cursor.unread.take count) else none

-- The next `count` bytes, consumed.
def take? (cursor : Cursor bytes) (count : Nat) : Option (Bytes × Cursor bytes) :=
  if h : count ≤ cursor.remaining then
    some (cursor.unread.take count, cursor.skip count h)
  else
    none

-- The offset from the cursor of the first occurrence of `needle`.
def find? (cursor : Cursor bytes) (needle : Bytes) : Option Nat :=
  cursor.unread.offsetOf? needle

-- Consumes `count` bytes; going past the end is a fault.
def advance (cursor : Cursor bytes) (count : Nat) : Except Fault (Cursor bytes) :=
  if h : count ≤ cursor.remaining then
    .ok (cursor.skip count h)
  else
    .error (.advancePastEnd count cursor.remaining)

-- Consumes and returns `count` bytes; going past the end is a fault. Cursors come by this through the
-- interface that buffers share, which only builds on how many bytes remain, on what they are and on
-- `advance`: what is written here, and in `readNat`, is what the interface documents. It looks at how
-- many bytes remain before it consumes any.
def copy (cursor : Cursor bytes) (count : Nat) : Except Fault (Bytes × Cursor bytes) :=
  if h : count ≤ cursor.remaining then
    .ok (cursor.unread.take count, cursor.skip count h)
  else
    .error (.readPastEnd count cursor.remaining)

-- Consumes `width` bytes and returns the number they spell. The interface offers this for widths of
-- 1, 2, 4 and 8.
def readNat (cursor : Cursor bytes) (width : Nat) : Except Fault (Nat × Cursor bytes) :=
  (cursor.copy width).map fun (digits, cursor) => (digits.toNat, cursor)

end Cursor
end Framing
