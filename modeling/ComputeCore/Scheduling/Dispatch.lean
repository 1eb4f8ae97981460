import ComputeCore.Memory.Arena
import ComputeCore.Scheduling.Command
/-!
# Running a dispatch

A dispatch runs its groups one after the other. When a group starts, the arena is reset to the
kernel's static storage, the local arguments are carved off it, and every work-item's frame is
started over. The group then runs in passes: a pass goes over the work-items in local order and invokes
each one that is not finished, and passes repeat until all are. So a work-item that reached a
barrier goes on only after every other one of its group has reached its own or finished.

The scheduler is a machine of small steps. `Dispatch.step` does everything up to the next
invocation and says whose turn it is; whoever runs the kernel hands its result to
`Dispatch.accept`. A trap ends the dispatch there.
-/

namespace ComputeCore

/-- The work-item a pass has come to. -/
structure Turn where
  /-- The work-item's place in the index space. -/
  cursor : Cursor
  /-- The work-item's place among those of its group. -/
  index : Nat
  deriving DecidableEq, Inhabited

namespace Turn

/-- The turn of the next work-item. -/
def next (turn : Turn) : Turn :=
  { cursor := turn.cursor.advance 1, index := turn.index + 1 }

end Turn

/-- Where the scheduler stands. -/
inductive DispatchStage where
  /-- A group is about to be set up, if there is one left. -/
  | entering
  /-- A pass has come to a work-item, or past the last one. -/
  | passing (turn : Turn)
  deriving DecidableEq, Inhabited

/-- The state of a running dispatch. -/
structure Dispatch where
  space : IndexSpace
  kernel : Kernel
  /-- The arguments as given, with the sizes of local ones. -/
  params : List KernelArg
  /-- The arguments as the work-items of the current group see them. -/
  args : List BoundArg
  perGroup : Nat
  totalGroups : Nat
  /-- The linear id of the current group. -/
  group : Nat := 0
  /-- The number of the current pass over the group. -/
  pass : Nat := 0
  /-- The first work-item of the current group. -/
  start : Cursor
  /-- What each work-item of the group saved, in local order. -/
  frames : Array Frame
  /-- Which work-items of the group are finished. -/
  finished : Array Bool
  /-- How many are not. -/
  remaining : Nat := 0
  stage : DispatchStage := .entering

/-- What a step of the scheduler comes to. -/
inductive DispatchStep where
  /-- There is more to do before the next invocation. -/
  | moved (dispatch : Dispatch) (arena : LocalArena)
  /-- It is a work-item's turn, with this frame. -/
  | invoke (turn : Turn) (item : WorkItem) (frame : Frame)
  /-- Every group is done. -/
  | finished

/-- What the result of an invocation comes to. -/
inductive Verdict where
  | goOn (dispatch : Dispatch)
  /-- The dispatch is given up with this status. -/
  | trapped (status : Status)

namespace Dispatch

/-- The bytes one work-item's frame takes up in the array of frames. -/
def frameWidth : Nat := 80

/-- An argument at the start of a dispatch: objects are looked up, local ones wait for their group.
None if an object is not mapped. -/
def bindArg (memory : GlobalMemory) : KernelArg → Option BoundArg
  | .object id => (memory.regionOf? id).map .object
  | .localBytes _ => some .unbound
  | .value bytes => some (.value bytes)

/-- The dispatch of a command whose arguments are bound. -/
def create (range : NDRange) (args : List BoundArg) : Except Fault Dispatch := do
  let perGroup ← range.space.itemsPerGroup
  Size.fitsArray perGroup frameWidth
  let totalGroups ← range.space.totalGroups
  return {
    space := range.space, kernel := range.kernel, params := range.args, args, perGroup, totalGroups
    start := range.space.first
    frames := Array.replicate perGroup {}
    finished := Array.replicate perGroup false }

/-- Carves the local arguments off the arena, in the order of the arguments. -/
def carve : List KernelArg → List BoundArg → LocalArena →
    Except Fault (List BoundArg × LocalArena)
  | .localBytes size :: params, _ :: args, arena => do
    let (start, arena) ← arena.alloc size
    let (rest, arena) ← carve params args arena
    return (.localRegion { start, size } :: rest, arena)
  | _ :: params, arg :: args, arena => do
    let (rest, arena) ← carve params args arena
    return (arg :: rest, arena)
  | _, args, arena => .ok (args, arena)

/-- Sets up the current group. -/
def enterGroup (dispatch : Dispatch) (arena : LocalArena) :
    Except Fault (Dispatch × LocalArena) := do
  let start ← dispatch.space.groupStart dispatch.group
  let arena ← arena.reset dispatch.kernel.staticLocal
  let (args, arena) ← carve dispatch.params dispatch.args arena
  let ready := { dispatch with
    args, start, pass := 0
    frames := Frame.resetAll dispatch.frames
    finished := Array.replicate dispatch.finished.size false
    remaining := dispatch.perGroup
    stage := .passing { cursor := start, index := 0 } }
  return (ready, arena)

/-- One step of the scheduler. -/
def step (dispatch : Dispatch) (arena : LocalArena) : Except Fault DispatchStep :=
  match dispatch.stage with
  | .entering =>
    if dispatch.group < dispatch.totalGroups then do
      let (dispatch, arena) ← dispatch.enterGroup arena
      return .moved dispatch arena
    else .ok .finished
  | .passing turn =>
    if turn.index < dispatch.perGroup then
      if dispatch.finished.getD turn.index false then
        .ok (.moved { dispatch with stage := .passing turn.next } arena)
      else
        let item := { cursor := turn.cursor, args := dispatch.args, localMemory := arena.region }
        .ok (.invoke turn item (dispatch.frames.getD turn.index {}))
    else if 0 < dispatch.remaining then
      let first : Turn := { cursor := dispatch.start, index := 0 }
      .ok (.moved { dispatch with pass := dispatch.pass + 1, stage := .passing first } arena)
    else .ok (.moved { dispatch with group := dispatch.group + 1, stage := .entering } arena)

/-- Takes in how the invocation of a turn ended and the frame it left. -/
def accept (dispatch : Dispatch) (turn : Turn) (outcome : Outcome) (frame : Frame) :
    Except Fault Verdict :=
  match outcome with
  | .done => do
    let remaining ← Size.sub dispatch.remaining 1
    return .goOn { dispatch with
      remaining
      frames := dispatch.frames.setIfInBounds turn.index frame
      finished := dispatch.finished.setIfInBounds turn.index true
      stage := .passing turn.next }
  | .barrier resumeAt =>
    .ok (.goOn { dispatch with
      frames := dispatch.frames.setIfInBounds turn.index { frame with resume := resumeAt }
      stage := .passing turn.next })
  | .trap status => .ok (.trapped status)

end Dispatch

end ComputeCore
