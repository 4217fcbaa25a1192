import Framing.Activity
import Framing.Retention.Buffer

/-!
The bytes that are retained between deliveries. There is a buffer for them only while there are any
to keep, and after each pass over them they move to a buffer of the right size.
-/

namespace Framing

-- `requests` counts the requests that the provider has answered so far.
structure Retention where
  buffer   : Option Buffer := none
  requests : Nat           := 0
  deriving DecidableEq, Repr

namespace Retention

def isPresent (retention : Retention) : Bool :=
  retention.buffer.isSome

def unread (retention : Retention) : Bytes :=
  retention.buffer.elim [] Buffer.unread

-- Gives up the buffer.
def release (retention : Retention) : Retention :=
  { retention with buffer := none }

variable (allocator : Allocator)

-- Retains `content` in a new buffer and nothing else; for no bytes there is no buffer.
def store (retention : Retention) (content : Bytes) : Retention × List Activity :=
  if content = [] then
    (retention.release, [])
  else
    let allocation := allocator.allocate retention.requests content.length
    let buffer     := (Buffer.ofAllocation allocation).clear.append content
    ({ buffer, requests := retention.requests + 1 },
      [.requested (allocator.request content.length)])

-- Appends `chunk` to the bytes in `buffer`, in the cheapest way that has room for it.
def place (retention : Retention) (buffer : Buffer) (chunk : Bytes) :
    Placement → Retention × List Activity
  | .inPlace   => ({ retention with buffer := buffer.append chunk }, [])
  | .compacted => ({ retention with buffer := buffer.compact.append chunk }, [])
  | _          => retention.store allocator (buffer.unread ++ chunk)

-- Appends `chunk` to the retained bytes, and tells how.
def append (retention : Retention) (chunk : Bytes) :
    Placement × Retention × List Activity :=
  match retention.buffer with
  | none        => record .fresh (retention.store allocator chunk)
  | some buffer =>
    let placement := buffer.placementFor chunk.length
    record placement (retention.place allocator buffer chunk placement)
where
  record (placement : Placement) : Retention × List Activity →
      Placement × Retention × List Activity
    | (retention, activities) =>
      let noted   := .noted (.appended chunk.length placement retention.unread.length)
      let counted := if placement.allocates then [.counted (.allocations placement) 1] else []
      (placement, retention, activities ++ noted :: counted)

-- Retains what a pass over a chunk left of it, in place of anything retained before.
def keep (retention : Retention) (remainder : Bytes) : Retention × List Activity :=
  let (retention, activities) := retention.store allocator remainder
  match retention.buffer with
  | none   => (retention, activities)
  | some _ =>
    (retention, activities
      ++ [.noted (.kept remainder.length), .counted (.allocations .fresh) 1])

-- Moves what is unread to a buffer of the right size, or gives up the buffer if nothing is.
def fit (retention : Retention) : Retention × List Activity :=
  match retention.buffer with
  | none        => (retention, [])
  | some before =>
    let (retention, activities) := retention.store allocator before.unread
    match retention.buffer with
    | none       => (retention, activities ++ [.noted .emptied])
    | some after =>
      (retention, activities
        ++ [.noted (.fitted after.unread.length before.capacity after.capacity)])

end Retention
end Framing
