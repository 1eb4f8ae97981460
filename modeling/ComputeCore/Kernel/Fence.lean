/-!
# Memory fences at barriers

A barrier may ask for a fence on local memory, on global memory, or on both.
-/

namespace ComputeCore

/-- The fences a barrier asks for, as a set of bits. -/
structure FenceFlags where
  bits : UInt32
  deriving DecidableEq, Inhabited

namespace FenceFlags

/-- No fence. -/
def none : FenceFlags := { bits := 0 }

/-- A fence on local memory. -/
def localMemory : FenceFlags := { bits := 1 }

/-- A fence on global memory. -/
def globalMemory : FenceFlags := { bits := 2 }

/-- The fences of both sets. -/
def union (a b : FenceFlags) : FenceFlags :=
  { bits := a.bits ||| b.bits }

/-- Whether every bit of `other` is set. -/
def contains (flags other : FenceFlags) : Bool :=
  flags.bits &&& other.bits = other.bits

/-- Whether any memory fence is asked for. -/
def fences (flags : FenceFlags) : Bool :=
  flags.bits &&& (localMemory.bits ||| globalMemory.bits) ≠ 0

end FenceFlags

end ComputeCore
