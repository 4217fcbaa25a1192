import Framing.Bytes

/-!
Cuts of a run of bytes into chunks.
-/

namespace Framing.Bytes

-- Consecutive chunks of the given sizes, as long as there are bytes, and then one with all the rest.
-- No chunk is empty.
def chunks (bytes : Bytes) : List Nat → List Bytes
  | []            => proper bytes
  | size :: sizes => proper (bytes.take size) ++ chunks (bytes.drop size) sizes
where
  proper (chunk : Bytes) : List Bytes :=
    if chunk = [] then [] else [chunk]

theorem flatten_chunks (bytes : Bytes) (sizes : List Nat) :
    (bytes.chunks sizes).flatten = bytes := by
  have flatten_proper (chunk : Bytes) : (chunks.proper chunk).flatten = chunk := by
    unfold chunks.proper
    split
    case isTrue empty => exact empty.symm
    case isFalse => exact List.append_nil chunk
  induction sizes generalizing bytes with
  | nil => exact flatten_proper bytes
  | cons size sizes ih =>
    rw [chunks, List.flatten_append, flatten_proper, ih, List.take_append_drop]

end Framing.Bytes
