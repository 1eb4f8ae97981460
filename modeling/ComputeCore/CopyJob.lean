import ComputeCore.Memory.Heap
/-!
# Copy jobs

A copy job moves `count` elements from one address to another. With a source stride it gathers
elements that lie that many elements apart into consecutive ones, with a target stride it scatters
consecutive elements out. If both are given the source stride wins and the target is consecutive.
-/

namespace ComputeCore

/-- One possibly strided copy of elements. -/
structure CopyJob where
  target : Address
  source : Address
  count : Nat
  elementSize : Nat
  /-- Elements from one target element to the next, zero for consecutive ones. -/
  targetStride : Nat := 0
  /-- Elements from one source element to the next, zero for consecutive ones. -/
  sourceStride : Nat := 0
  deriving DecidableEq, Inhabited

namespace CopyJob

/-- A copy of consecutive elements. -/
def contiguous (target source : Address) (count elementSize : Nat) : CopyJob :=
  { target, source, count, elementSize }

/-- A copy with elements `stride` apart on one side. -/
def strided (target source : Address) (count elementSize stride : Nat) (sourceStrided : Bool) :
    CopyJob :=
  if sourceStrided then { target, source, count, elementSize, sourceStride := stride }
  else { target, source, count, elementSize, targetStride := stride }

/-- Copies `n` elements, moving on by `sourceStep` and `targetStep` elements between two of them.
The step is only computed when a further element is reached. -/
def copyElements (elementSize sourceStep targetStep : Nat) :
    Nat → Address → Address → Heap → Except Fault Unit × Heap
  | 0, _, _, heap => (.ok (), heap)
  | 1, source, target, heap => (.ok (), heap.copy source target elementSize)
  | n + 2, source, target, heap =>
    let heap := heap.copy source target elementSize
    match Size.mul sourceStep elementSize, Size.mul targetStep elementSize with
    | .ok sourceBytes, .ok targetBytes =>
      copyElements elementSize sourceStep targetStep (n + 1) (source.advance sourceBytes)
        (target.advance targetBytes) heap
    | .error fault, _ => (.error fault, heap)
    | _, .error fault => (.error fault, heap)

/-- Carries out the copy. -/
def run (job : CopyJob) (heap : Heap) : Except Fault Unit × Heap :=
  if job.sourceStride ≠ 0 then
    copyElements job.elementSize job.sourceStride 1 job.count job.source job.target heap
  else if job.targetStride ≠ 0 then
    copyElements job.elementSize 1 job.targetStride job.count job.source job.target heap
  else
    match Size.mul job.count job.elementSize with
    | .ok size => (.ok (), heap.copy job.source job.target size)
    | .error fault => (.error fault, heap)

end CopyJob

end ComputeCore
