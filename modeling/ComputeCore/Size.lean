import ComputeCore.Fault
/-!
# 64-bit sizes

Sizes, offsets and counts are natural numbers below `Size.limit`. Sums, differences and products
that leave this range are faults, never silently reduced; the only wrapping operations are `succ`
and `pred`, the steps of an atomic counter.
-/

namespace ComputeCore.Size

/-- One more than the largest size: two to the 64th. -/
def limit : Nat := 0x10000000000000000

/-- The most bytes an array may hold: one less than half the limit. -/
def arrayLimit : Nat := 0x7FFFFFFFFFFFFFFF

/-- The sum of two sizes. -/
def add (a b : Nat) : Except Fault Nat :=
  if a + b < limit then .ok (a + b) else .error .addOverflow

/-- The difference of two sizes. -/
def sub (a b : Nat) : Except Fault Nat :=
  if b ≤ a then .ok (a - b) else .error .subOverflow

/-- The product of two sizes. -/
def mul (a b : Nat) : Except Fault Nat :=
  if a * b < limit then .ok (a * b) else .error .mulOverflow

/-- The product of a list of sizes, multiplied from the left. -/
def product (sizes : List Nat) : Except Fault Nat :=
  sizes.foldlM mul 1

/-- An array of `count` entries of `width` bytes exists only if its bytes are within bounds. -/
def fitsArray (count width : Nat) : Except Fault Unit :=
  if count * width ≤ arrayLimit then .ok () else .error .capacityOverflow

/-- One more, wrapping round at the limit. -/
def succ (n : Nat) : Nat :=
  (n + 1) % limit

/-- One less, wrapping round at zero. -/
def pred (n : Nat) : Nat :=
  (n + (limit - 1)) % limit

end ComputeCore.Size
