import Framing.Retention.Placement
import Framing.Retention.Provider

/-!
Buffers that are written at one end and read from the other. The first bytes of a buffer are
consumed, those behind them are unread, and behind these there is room up to the capacity.
-/

namespace Framing

-- `consumed` counts the bytes of `written` that are consumed.
structure Buffer where
  written  : Bytes
  consumed : Nat
  capacity : Nat
  deriving DecidableEq, Repr

namespace Buffer

def unread (buffer : Buffer) : Bytes :=
  buffer.written.drop buffer.consumed

def room (buffer : Buffer) : Nat :=
  buffer.capacity - buffer.written.length

structure WellFormed (buffer : Buffer) : Prop where
  consumed_le : buffer.consumed ≤ buffer.written.length
  written_le  : buffer.written.length ≤ buffer.capacity

def ofAllocation (allocation : Allocation) : Buffer where
  written  := allocation.contents
  consumed := 0
  capacity := allocation.capacity

def clear (buffer : Buffer) : Buffer :=
  { buffer with written := [], consumed := 0 }

-- Gives up the bytes that are consumed.
def compact (buffer : Buffer) : Buffer :=
  { buffer with written := buffer.unread, consumed := 0 }

def append (buffer : Buffer) (chunk : Bytes) : Buffer :=
  { buffer with written := buffer.written ++ chunk }

def consumeTo (buffer : Buffer) (position : Nat) : Buffer :=
  { buffer with consumed := position }

-- The cheapest way to make `size` more bytes fit.
def placementFor (buffer : Buffer) (size : Nat) : Placement :=
  if size ≤ buffer.room then
    .inPlace
  else if size ≤ buffer.room + buffer.consumed then
    .compacted
  else
    .moved

end Buffer
end Framing
