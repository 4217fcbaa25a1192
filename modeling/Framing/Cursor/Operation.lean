import Framing.Cursor

/-!
Operations on a cursor as data: a script can list them, and performing them yields readings.
-/

namespace Framing.Cursor

inductive Operation where
  | position
  | length
  | remaining
  | isEmpty
  | hasRemaining
  | unread
  | seek (position : Nat)
  | peek (count : Nat)
  | take (count : Nat)
  | takeAll
  | takeUntil (needle : Bytes)
  | skipWhile (value : Nat)
  | find (needle : Bytes)
  | advance (count : Nat)
  | copy (count : Nat)
  | readNat (width : Nat)
  deriving DecidableEq, Repr

-- What an operation shows.
inductive Reading where
  | nothing
  | moved
  | flag (value : Bool)
  | number (value : Nat)
  | bytes (value : Bytes)
  | outOfBounds (error : SeekError)
  | fault (fault : Fault)
  deriving DecidableEq, Repr

-- What an operation came to: what it shows, the bytes that it took out, and the cursor behind it.
structure Performed (bytes : Bytes) where
  reading : Reading
  taken   : Option Bytes := none
  cursor  : Cursor bytes

variable {bytes : Bytes}

def Performed.ofTake (cursor : Cursor bytes) :
    Option (Bytes × Cursor bytes) → Performed bytes
  | none                 => { reading := .nothing, cursor }
  | some (taken, cursor) => { reading := .bytes taken, taken, cursor }

def Performed.ofRead (cursor : Cursor bytes) :
    Except Fault (Reading × Option Bytes × Cursor bytes) → Performed bytes
  | .ok (reading, taken, cursor) => { reading, taken, cursor }
  | .error fault                 => { reading := .fault fault, cursor }

-- How many of the next bytes all have that value. No byte has a value above 255.
def runLength (cursor : Cursor bytes) (value : Nat) : Nat :=
  (cursor.unread.takeWhile (·.toNat = value)).length

theorem runLength_le_remaining (cursor : Cursor bytes) (value : Nat) :
    cursor.runLength value ≤ cursor.remaining :=
  cursor.length_unread ▸ (List.takeWhile_sublist _).length_le

def perform (cursor : Cursor bytes) : Operation → Performed bytes
  | .position         => { reading := .number cursor.position, cursor }
  | .length           => { reading := .number bytes.length, cursor }
  | .remaining        => { reading := .number cursor.remaining, cursor }
  | .isEmpty          => { reading := .flag bytes.isEmpty, cursor }
  | .hasRemaining     => { reading := .flag (0 < cursor.remaining), cursor }
  | .unread           => { reading := .bytes cursor.unread, cursor }
  | .seek position    =>
    match cursor.seek position with
    | .ok cursor   => { reading := .moved, cursor }
    | .error error => { reading := .outOfBounds error, cursor }
  | .peek count       =>
    match cursor.peek? count with
    | none       => { reading := .nothing, cursor }
    | some bytes => { reading := .bytes bytes, cursor }
  | .take count       => .ofTake cursor (cursor.take? count)
  | .takeAll          => .ofTake cursor (cursor.take? cursor.remaining)
  | .takeUntil needle =>
    match cursor.find? needle with
    | none       => { reading := .nothing, cursor }
    | some index =>
      match cursor.take? index with
      | none                 => { reading := .nothing, cursor }
      | some (taken, cursor) =>
        match cursor.advance needle.length with
        | .ok cursor   => { reading := .bytes taken, taken, cursor }
        | .error fault => { reading := .fault fault, taken, cursor }
  | .skipWhile value  =>
    { reading := .number (cursor.runLength value)
      cursor  := cursor.skip _ (cursor.runLength_le_remaining value) }
  | .find needle      =>
    match cursor.find? needle with
    | none       => { reading := .nothing, cursor }
    | some index => { reading := .number index, cursor }
  | .advance count    => .ofRead cursor ((cursor.advance count).map (.moved, none, ·))
  | .copy count       =>
    .ofRead cursor <| (cursor.copy count).map fun (copied, cursor) =>
      (.bytes copied, some copied, cursor)
  | .readNat width    =>
    .ofRead cursor <| (cursor.readNat width).map fun (number, cursor) =>
      (.number number, none, cursor)

end Framing.Cursor
