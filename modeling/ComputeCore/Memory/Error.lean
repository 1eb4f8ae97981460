import ComputeCore.Memory.Object
/-!
# What global memory refuses

A refused call leaves memory as it was and says why. A call can also break down with a fault; the
two are kept apart in `MemoryFailure`.
-/

namespace ComputeCore

/-- Why a memory call was refused. -/
inductive MemoryError where
  /-- The capacity is used up. -/
  | outOfGlobalMemory (requested available : Nat)
  /-- The host has no block of this size. -/
  | hostAllocation (size : Nat)
  /-- A sub-object mapped before its parent. -/
  | parentNotMapped (object parent : ObjectId)
  /-- A sub-object that does not lie inside its parent. -/
  | invalidSubRegion (offset size parentSize : Nat)
  | notMapped (object : ObjectId)
  /-- A range that does not lie inside its object. -/
  | outOfBounds (offset length size : Nat)
  /-- A fill that would end inside a repetition of its pattern. -/
  | patternMismatch (length pattern : Nat)
  /-- Initial data shorter than what the layout reads. -/
  | invalidHostData (required actual : Nat)
  deriving DecidableEq, Inhabited

/-- The text a refusal is reported with. -/
def MemoryError.message : MemoryError → String
  | .outOfGlobalMemory requested available =>
    s!"out of global memory: requested {requested} bytes, {available} available"
  | .hostAllocation size => s!"host allocation of {size} bytes failed"
  | .parentNotMapped object parent =>
    s!"parent {parent.describe} of {object.describe} is not mapped"
  | .invalidSubRegion offset size parentSize =>
    s!"sub-region at offset {offset} with size {size} exceeds parent size {parentSize}"
  | .notMapped object => s!"memory object {object.describe} is not mapped"
  | .outOfBounds offset length size =>
    s!"access at offset {offset} with length {length} exceeds object size {size}"
  | .patternMismatch length pattern =>
    s!"fill length {length} is not a multiple of pattern length {pattern}"
  | .invalidHostData required actual =>
    s!"host data too short: need {required} bytes, got {actual}"

/-- How a memory call can fail. -/
inductive MemoryFailure where
  | refused (error : MemoryError)
  | fault (fault : Fault)
  deriving DecidableEq, Inhabited

end ComputeCore
