import ComputeCore.Memory.Heap
/-!
# Scalars as bytes

Kernels see numbers as little-endian bytes in memory and in by-value arguments.
-/

namespace ComputeCore

/-- The low `width` bytes of a word, least significant first. -/
def wordBytes : Nat → UInt64 → List UInt8
  | 0, _ => []
  | width + 1, word => word.toUInt8 :: wordBytes width (word >>> 8)

/-- The word with these bytes, least significant first. -/
def wordOfBytes : List UInt8 → UInt64
  | [] => 0
  | byte :: bytes => byte.toUInt64 ||| (wordOfBytes bytes <<< 8)

/-- A type of by-value argument. -/
inductive Scalar where
  | u8 | u16 | u32 | u64
  | i8 | i16 | i32 | i64
  | f32 | f64
  deriving DecidableEq, Inhabited

namespace Scalar

/-- The size of a scalar in bytes. -/
def size : Scalar → Nat
  | u8 | i8 => 1
  | u16 | i16 => 2
  | u32 | i32 | f32 => 4
  | u64 | i64 | f64 => 8

/-- Whether the top bit is a sign. -/
def signed : Scalar → Bool
  | i8 | i16 | i32 | i64 => true
  | _ => false

/-- The bytes of an integer, its low bits if it does not fit. -/
def encode (scalar : Scalar) (value : Int) : Bytes :=
  (wordBytes scalar.size (UInt64.ofInt value)).toArray

/-- The scalar with these bytes as a word: signed ones keep their sign, and floating-point ones are
their bits. None if the number of bytes is not that of the scalar. -/
def decode? (scalar : Scalar) (bytes : Bytes) : Option UInt64 :=
  if bytes.size ≠ scalar.size then none
  else
    let word := wordOfBytes bytes.toList
    let sign : UInt64 := 1 <<< (UInt64.ofNat (8 * scalar.size - 1))
    if scalar.signed then some ((word ^^^ sign) - sign) else some word

end Scalar

end ComputeCore
