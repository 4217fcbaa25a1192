import Framing.Bytes

/-!
Where buffers come from. A provider is asked for a capacity and returns memory with at least that
capacity, whatever was left in it.
-/

namespace Framing

-- Memory as a provider hands it out, with the contents that its last user left there.
structure Allocation where
  contents : Bytes
  capacity : Nat
  deriving DecidableEq, Repr

-- A provider may answer each request in its own way, so that an answer depends on how many requests
-- went before it.
structure Provider where
  allocate            : (ordinal request : Nat) → Allocation
  request_le_capacity : ∀ ordinal request, request ≤ (allocate ordinal request).capacity

namespace Provider

-- Gives what is asked for, clean.
def exact : Provider where
  allocate _ request      := { contents := [], capacity := request }
  request_le_capacity _ _ := Nat.le_refl _

def roundUp (number unit : Nat) : Nat :=
  (number + unit - 1) / unit * unit

theorem le_roundUp (number : Nat) {unit : Nat} (h : 0 < unit) : number ≤ roundUp number unit := by
  have quotient  := Nat.div_add_mod (number + unit - 1) unit
  have remainder := Nat.mod_lt (number + unit - 1) h
  rw [Nat.mul_comm] at quotient
  unfold roundUp
  omega

-- Gives `extra` bytes more than asked for, rounded up to a multiple of `unit`, and leaves as much of
-- `contents` in them as there is room for.
def padding (extra unit : Nat) (contents : Bytes) : Provider where
  allocate _ request :=
    let capacity := roundUp (request + extra) (max unit 1)
    { contents := contents.take capacity, capacity }
  request_le_capacity _ request :=
    Nat.le_trans (Nat.le_add_right request extra) (le_roundUp _ (Nat.le_max_right unit 1))

end Provider

-- How a decoder asks for buffers: from whom, and for how much at the least.
structure Allocator where
  provider : Provider := .exact
  floor    : Nat      := 256

namespace Allocator

variable (allocator : Allocator)

-- What is requested for `size` bytes.
def request (size : Nat) : Nat :=
  max size allocator.floor

-- What the request for `size` bytes gives, when `ordinal` requests went before it.
def allocate (ordinal size : Nat) : Allocation :=
  allocator.provider.allocate ordinal (allocator.request size)

theorem size_le_capacity (ordinal size : Nat) : size ≤ (allocator.allocate ordinal size).capacity :=
  Nat.le_trans (Nat.le_max_left _ _) (allocator.provider.request_le_capacity _ _)

end Allocator
end Framing
