import ComputeCore.Size
/-!
# Mixed-radix numerals

Ids over several dimensions are numerals in mixed radix, least significant digit first: digit `d`
counts in units of the product of the radices before it. Values are checked sizes, so a numeral
whose value leaves the 64-bit range has none.
-/

namespace ComputeCore.Radix

/-- The value of the numeral `digits`, folded from the most significant digit down: what the
higher digits amount to, times this radix, plus this digit. -/
def value : List Nat → List Nat → Except Fault Nat
  | radix :: radices, digit :: digits => do
    let higher ← value radices digits
    let scaled ← Size.mul higher radix
    Size.add scaled digit
  | _, _ => .ok 0

/-- The digits of `n`, as many as there are radices; what is left over above them is dropped. -/
def digits : List Nat → Nat → List Nat
  | [], _ => []
  | radix :: radices, n => n % radix :: digits radices (n / radix)

/-- Adds `carry` to the numeral, least significant digit first, and gives back what carries out of
its last digit. It stops as soon as there is nothing to carry, and has no answer if a digit and
its carry do not fit a size. -/
def addCarry : List Nat → List Nat → Nat → Option (List Nat × Nat)
  | radix :: radices, digit :: digits, carry =>
    if carry = 0 then some (digit :: digits, 0)
    else if digit + carry < Size.limit then do
      let (rest, out) ← addCarry radices digits ((digit + carry) / radix)
      some ((digit + carry) % radix :: rest, out)
    else none
  | _, digits, carry => some (digits, carry)

end ComputeCore.Radix
