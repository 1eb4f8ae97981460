import ComputeCore.IndexSpace.Cursor
import ComputeCore.Kernel.Fence
import ComputeCore.Kernel.Frame
import ComputeCore.Kernel.Process
import ComputeCore.Kernel.Scalar
import ComputeCore.Memory.Object
/-!
# Kernels and work-items

A kernel is invoked once for each work-item of a dispatch, and again after every barrier that item
reaches. An invocation gets a view of the runtime, the `WorkItem`, and the frame the item left
behind, and ends with an `Outcome` and the frame as it is then.
-/

namespace ComputeCore

/-- The exit status of a command. -/
abbrev Status := Int32

/-- How one invocation of a kernel ends. -/
inductive Outcome where
  /-- The work-item is finished. -/
  | done
  /-- The work-item waits at a barrier and goes on at `resumeAt` in the next pass. -/
  | barrier (resumeAt : UInt32)
  /-- The dispatch is given up with this status. -/
  | trap (status : Status)
  deriving DecidableEq, Inhabited

/-- A kernel argument as the host gives it. -/
inductive KernelArg where
  /-- A mapped object, looked up when the dispatch starts. -/
  | object (id : ObjectId)
  /-- This many bytes of local memory, set aside for each work-group. -/
  | localBytes (size : Nat)
  /-- The bytes of a value. -/
  | value (bytes : Bytes)
  deriving DecidableEq, Inhabited

/-- A kernel argument as a work-item sees it. -/
inductive BoundArg where
  | object (region : Region)
  | localRegion (region : Region)
  | value (bytes : Bytes)
  /-- A local argument before its work-group is set up. -/
  | unbound
  deriving DecidableEq, Inhabited

/-- The view a running work-item has of the runtime. -/
structure WorkItem where
  cursor : Cursor
  args : List BoundArg
  /-- The local memory of the worker, where static local variables live. -/
  localMemory : Region
  deriving DecidableEq, Inhabited

/-- A kernel entry point. -/
structure Kernel where
  name : String
  /-- Bytes of local memory the kernel declares statically. -/
  staticLocal : Nat := 0
  /-- One invocation. -/
  invoke : WorkItem → Frame → Process (Outcome × Frame)

instance : Inhabited Kernel := ⟨{ name := "", invoke := fun _ frame => .done (.done, frame) }⟩

namespace WorkItem

/-- The address of an object argument. -/
def objectArg? (item : WorkItem) (n : Nat) : Option Region :=
  match item.args[n]? with
  | some (.object region) => some region
  | _ => none

/-- The address of a local argument in this group's local memory. -/
def localArg? (item : WorkItem) (n : Nat) : Option Region :=
  match item.args[n]? with
  | some (.localRegion region) => some region
  | _ => none

/-- A by-value argument read as a scalar, if it has the size of one. -/
def valueArg? (item : WorkItem) (n : Nat) (scalar : Scalar) : Option UInt64 :=
  match item.args[n]? with
  | some (.value bytes) => scalar.decode? bytes
  | _ => none

/-- Ends the invocation at a barrier. The other work-items of the group reach theirs before this
one goes on, whatever fence is asked for. -/
def barrier (_item : WorkItem) (_flags : FenceFlags) (resumeAt : UInt32) : Outcome :=
  .barrier resumeAt

/-- A copy for the whole group, which only its first work-item starts. The copy's event is linked
under `event` if that is given, and is the answer otherwise. -/
def groupCopy (item : WorkItem) (job : CopyJob) (event : Option Event) : Process (Option Event) :=
  if item.cursor.isGroupStart then do
    let signal ← match event with
      | some parent => Process.request (.newChildEvent parent)
      | none => Process.request .newEvent
    Process.request (.startCopy job signal)
    return some (event.getD signal)
  else return event

/-- The work-item as it reads in logs. -/
def describe (item : WorkItem) : String :=
  let ids (ids : List Nat) := ", ".intercalate (ids.map toString)
  let localIds := ids item.cursor.localIds
  let groupIds := ids item.cursor.groupIds
  s!"WorkItem \x7b local_id: [{localIds}], group_id: [{groupIds}] \x7d"

end WorkItem

end ComputeCore
