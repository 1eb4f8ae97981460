import ComputeCore.Event.Handle
/-!
# Faults

A fault is a broken invariant: arithmetic that left the 64-bit range, a request no caller should
make, or an alarm raised by kernel code itself. It is not an answer a caller is expected to handle;
it unwinds the work that caused it up to whoever contains it. A dispatch contains the faults of its
kernel, a worker those of its dispatch.
-/

namespace ComputeCore

/-- Why a computation could not go on. -/
inductive Fault where
  /-- A sum above the largest 64-bit size. -/
  | addOverflow
  /-- A difference below zero. -/
  | subOverflow
  /-- A product above the largest 64-bit size. -/
  | mulOverflow
  /-- A growable array asked to hold more bytes than any block may have. -/
  | capacityOverflow
  /-- A kernel's static local storage does not fit the arena. -/
  | staticLocalOverflow (size capacity : Nat)
  /-- An allocation past the end of the arena. -/
  | arenaOverflow (size used capacity : Nat)
  /-- An event linked under one that does not exist. -/
  | unknownParent (parent : Event)
  /-- An alarm raised by kernel or host code, with its own text. -/
  | raised (text : String)
  deriving DecidableEq, Inhabited

namespace Fault

/-- The text a fault is reported with. -/
def message : Fault → String
  | addOverflow => "attempt to add with overflow"
  | subOverflow => "attempt to subtract with overflow"
  | mulOverflow => "attempt to multiply with overflow"
  | capacityOverflow => "capacity overflow"
  | staticLocalOverflow size capacity =>
    s!"static local size {size} exceeds local memory capacity {capacity}"
  | arenaOverflow size used capacity =>
    s!"local allocation of {size} bytes overflows local memory ({used} of {capacity} used)"
  | unknownParent parent => s!"unknown parent event {parent.describe}"
  | raised text => text

end Fault

end ComputeCore
