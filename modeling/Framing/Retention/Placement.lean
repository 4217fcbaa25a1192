/-!
The ways in which a chunk can join the bytes that are already retained.
-/

namespace Framing

-- A chunk starts a buffer, goes behind what is in one, takes the place of what was consumed, or
-- moves to a new buffer together with what is unread.
inductive Placement where
  | fresh
  | inPlace
  | compacted
  | moved
  deriving DecidableEq, Repr

namespace Placement

def name : Placement → String
  | fresh     => "allocate"
  | inPlace   => "in_place"
  | compacted => "compact"
  | moved     => "reallocate"

-- Whether the placement stands for a new buffer.
def allocates : Placement → Bool
  | fresh   | moved     => true
  | inPlace | compacted => false

end Placement
end Framing
