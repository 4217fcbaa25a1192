import Framing.Failure
import Framing.Outcome

/-!
Transports as far as a decoder sees them: a store of items, and what each poll makes of the next. A
stream of chunks is polled for the next chunk, and a reader for bytes to be put into a buffer.
-/

namespace Framing.Transport

-- `pending` makes a poll find nothing yet. `cancel` asks for the end of the stream, and lets the
-- poll go on to the next item.
inductive Item where
  | data (bytes : Bytes)
  | error (error : TransportError)
  | pending
  | cancel
  deriving DecidableEq, Repr

-- A data item is taken as a whole, as a chunk of a stream, or else in slices, by reads into a buffer
-- of `size` bytes, and at least one.
inductive Mode where
  | whole
  | sliced (size : Nat)
  deriving DecidableEq, Repr

-- What came of a poll, unless it is pending, whether it asked for the end of the stream, and what is
-- still in store.
structure Poll (ρ : Type) where
  ready     : Option ρ
  cancelled : Bool := false
  left      : List Item

-- Polls for the next chunk. A stream is at its end when there is none.
def next : List Item → Poll (Option (Except TransportError Bytes))
  | []                   => { ready := some none, left := [] }
  | .data bytes :: left  => { ready := some (some (.ok bytes)), left }
  | .error error :: left => { ready := some (some (.error error)), left }
  | .pending :: left     => { ready := none, left }
  | .cancel :: left      => { next left with cancelled := true }

-- A buffer to read into, and what has been written to the front of it. Behind that it is zero.
structure ReadBuffer where
  size       : Nat
  written    : Bytes := []
  size_pos   : 0 < size
  written_le : written.length ≤ size

namespace ReadBuffer

-- No more bytes than this can be asked for at once: the largest signed 64-bit word.
def sizeLimit : Nat :=
  UInt64.size / 2 - 1

-- A buffer for `size` bytes, and for one at least. Asking for too many is a fault. That memory may run
-- out before that is not in view.
def zeroed (size : Nat) : Except Fault ReadBuffer :=
  if max size 1 ≤ sizeLimit then
    .ok {
      size       := max size 1
      size_pos   := Nat.le_max_right ..
      written_le := Nat.zero_le _ }
  else
    .error .capacityOverflow

variable (buffer : ReadBuffer)

-- Writes to the front. Bytes for which there is no room are left out, and those of an earlier write
-- stay where they are not overwritten.
def write (bytes : Bytes) : ReadBuffer where
  size       := buffer.size
  written    := bytes.take buffer.size ++ buffer.written.drop bytes.length
  size_pos   := buffer.size_pos
  written_le := by
    have := buffer.written_le
    simp only [List.length_append, List.length_take, List.length_drop]
    omega

-- The first `count` bytes.
def front (count : Nat) : Bytes :=
  buffer.written.take count ++ List.replicate (count - buffer.written.length) 0

end ReadBuffer

-- What came of a poll for bytes: how many there were, and the buffer that has them.
structure Read extends Poll (Except TransportError Nat) where
  buffer : ReadBuffer

-- Polls for bytes, as many as fit into the buffer. What does not fit of an item stays in store. When
-- nothing is left no bytes are read, and neither are any from an item that has none.
def read (buffer : ReadBuffer) : List Item → Read
  | []                   => { ready := some (.ok 0), left := [], buffer }
  | .error error :: left => { ready := some (.error error), left, buffer }
  | .pending :: left     => { ready := none, left, buffer }
  | .cancel :: left      => { read buffer left with cancelled := true }
  | .data bytes :: left  =>
    let rest := bytes.drop buffer.size
    { ready  := some (.ok (min bytes.length buffer.size))
      left   := if rest = [] then left else .data rest :: left
      buffer := buffer.write bytes }

-- A bound on the polls that the items can feed.
def load : List Item → Nat
  | []                  => 0
  | .data bytes :: left => bytes.length + 1 + load left
  | _ :: left           => 1 + load left

-- A poll that does not find the end uses something up.
theorem load_next_lt {items : List Item} (h : (next items).ready ≠ some none) :
    load (next items).left < load items := by
  induction items
  case nil => contradiction
  case cons item left ih =>
    cases item
    case cancel => exact Nat.lt_add_left _ (ih h)
    all_goals exact Nat.lt_add_of_pos_left (Nat.succ_pos _)

theorem load_read_lt {buffer : ReadBuffer} {items : List Item}
    (h : (read buffer items).ready ≠ some (.ok 0)) :
    load (read buffer items).left < load items := by
  induction items
  case nil => contradiction
  case cons item left ih =>
    cases item
    case error | pending => exact Nat.lt_add_of_pos_left Nat.one_pos
    case cancel => exact Nat.lt_add_left _ (ih h)
    case data bytes =>
      simp only [read]
      split
      case isTrue => exact Nat.lt_add_of_pos_left (Nat.succ_pos _)
      case isFalse more =>
        have := buffer.size_pos
        have longer : buffer.size < bytes.length := by simpa using more
        simp only [load, List.length_drop]
        omega

end Framing.Transport
