/-!
Runs of bytes, in stream order: where one run first occurs inside another, and how a run spells a
number.
-/

namespace Framing

-- A run of bytes, in stream order.
abbrev Bytes := List UInt8

namespace Bytes

-- The offset of the first occurrence of `needle` in `bytes`, counted from `passed`. The empty needle
-- occurs everywhere, hence first at the start.
def offsetFrom? (needle : Bytes) (passed : Nat) : Bytes → Option Nat
  | []           => if needle.isEmpty then some passed else none
  | byte :: rest =>
    if needle.isPrefixOf (byte :: rest) then some passed else offsetFrom? needle (passed + 1) rest

-- The offset of the first occurrence of `needle` in `bytes`.
def offsetOf? (bytes needle : Bytes) : Option Nat :=
  offsetFrom? needle 0 bytes

-- What was passed over before the search only shifts the answer.
theorem offsetFrom?_eq_map (needle bytes : Bytes) (passed : Nat) :
    offsetFrom? needle passed bytes = (offsetOf? bytes needle).map (passed + ·) := by
  have shift (bytes : Bytes) : ∀ passed start, offsetFrom? needle (passed + start) bytes
      = (offsetFrom? needle start bytes).map (passed + ·) := by
    induction bytes with
    | nil => intros; simp only [offsetFrom?]; split <;> rfl
    | cons byte rest ih =>
      intro passed start
      simp only [offsetFrom?]
      split
      · rfl
      · rw [Nat.add_assoc, ih]
  exact shift bytes passed 0

-- The number that `bytes` spells, its most significant byte first.
def toNat (bytes : Bytes) : Nat :=
  bytes.foldl (fun number byte => number * 256 + byte.toNat) 0

-- The last `width` base-256 digits of `number`, the most significant first.
def ofNat (width number : Nat) : Bytes :=
  match width with
  | 0         => []
  | width + 1 => ofNat width (number / 256) ++ [UInt8.ofNat number]

@[simp]
theorem length_ofNat (width number : Nat) : (ofNat width number).length = width := by
  induction width generalizing number with
  | zero => rfl
  | succ width ih => simp [ofNat, ih]

end Bytes
end Framing
