import ComputeCore.Kernel.Basic
/-!
# Kernels as programs

A program is a list of instructions over the slots of a work-item's frame. Its kernel starts each
invocation at the frame's resume point and is done when it runs past the last instruction. Slots
hold 64-bit words and arithmetic wraps round; memory is accessed through the kernel's arguments
with every access checked against the size of what it goes to.

A command may execute `Program.budget` instructions in all its invocations together, so every
invocation ends.
-/

namespace ComputeCore

/-- An operation on two words. -/
inductive WordOp where
  | add | sub | mul | div | mod
  | and | or | xor | shl | shr
  | eq | ne | lt
  deriving DecidableEq, Inhabited

/-- The result of an operation, none for a division by zero. -/
def WordOp.apply (op : WordOp) (a b : UInt64) : Option UInt64 :=
  match op with
  | add => some (a + b)
  | sub => some (a - b)
  | mul => some (a * b)
  | div => if b = 0 then none else some (a / b)
  | mod => if b = 0 then none else some (a % b)
  | and => some (a &&& b)
  | or => some (a ||| b)
  | xor => some (a ^^^ b)
  | shl => some (a <<< b)
  | shr => some (a >>> b)
  | eq => some (if a = b then 1 else 0)
  | ne => some (if a ≠ b then 1 else 0)
  | lt => some (if a < b then 1 else 0)

/-- What a work-item can ask about itself. -/
inductive ItemQuery where
  | workDim
  | globalSize (dim : Nat)
  | globalId (dim : Nat)
  | localSize (dim : Nat)
  | localId (dim : Nat)
  | numGroups (dim : Nat)
  | groupId (dim : Nat)
  | globalOffset (dim : Nat)
  | localLinear
  | groupLinear
  | position
  | isGroupStart
  | resume
  deriving DecidableEq, Inhabited

/-- The memory an instruction goes to. -/
inductive MemoryRef where
  /-- What an object argument stands for. -/
  | object (arg : Nat)
  /-- What a local argument stands for. -/
  | localArg (arg : Nat)
  /-- All of the worker's local memory. -/
  | allLocal
  deriving DecidableEq, Inhabited

/-- A strided copy's stride and the side it is on. -/
structure CopyStride where
  stride : Nat
  sourceStrided : Bool
  deriving DecidableEq, Inhabited

/-- One instruction. Slots are named by number. -/
inductive Instruction where
  | set (target : Nat) (value : UInt64)
  | move (target source : Nat)
  | addImmediate (target source : Nat) (value : UInt64)
  | operate (op : WordOp) (target a b : Nat)
  | query (target : Nat) (what : ItemQuery)
  /-- Load `width` bytes from the offset in a slot. -/
  | load (target : Nat) (memory : MemoryRef) (offset width : Nat)
  /-- Store the low `width` bytes of a slot at the offset in another one. -/
  | store (memory : MemoryRef) (offset source width : Nat)
  | jump (target : Nat)
  | jumpIfZero (slot target : Nat)
  | jumpUnlessZero (slot target : Nat)
  | barrier (flags : FenceFlags) (resumeAt : UInt32)
  | done
  | trap (status : Status)
  | raise (text : String)
  /-- Whether a by-value argument reads as a scalar, and the scalar in the next slot. -/
  | value (target arg : Nat) (scalar : Scalar)
  /-- One if an argument is an object, two if it is local memory. -/
  | argKind (target arg : Nat)
  /-- A group-wide copy between two offsets held in slots, under the event of a slot pair. -/
  | groupCopy (target : Nat) (goal : MemoryRef) (goalOffset : Nat) (source : MemoryRef)
      (sourceOffset count elementSize : Nat) (event : Option Nat) (stride : Option CopyStride)
  /-- Wait for the events of slot pairs. -/
  | wait (events : List (Option Nat))
  | lock
  | unlock
  | latch (number : Nat)
  | mark (label : String)
  | log (label : String) (slots : List Nat)
  | describe
  /-- Not an instruction of the machine. -/
  | malformed
  deriving DecidableEq, Inhabited

namespace Program

/-! ## Traps of the machine -/

/-- An access that leaves the memory it goes to. -/
def outOfBounds : Status := -1000

/-- An access through an argument that is not there or of another kind. -/
def noSuchArgument : Status := -1001

/-- A copy between ranges that meet. -/
def overlappingCopy : Status := -1002

/-- An instruction beyond the command's budget. -/
def budgetExhausted : Status := -1003

def divisionByZero : Status := -1004

def malformedInstruction : Status := -1005

/-- The instructions one command may execute. -/
def budget : Nat := 50000

/-! ## Instructions -/

/-- How an instruction ends: with the next one, or with the invocation. -/
inductive Next where
  | goTo (pc : Nat) (frame : Frame)
  | stop (outcome : Outcome) (frame : Frame)

/-- Traps where there is no value. -/
def orTrap {α : Type} (value : Option α) (status : Status) : Except Status α :=
  match value with
  | some value => .ok value
  | none => .error status

/-- The region a memory reference stands for. -/
def regionOf (item : WorkItem) : MemoryRef → Except Status Region
  | .object arg => orTrap (item.objectArg? arg) noSuchArgument
  | .localArg arg => orTrap (item.localArg? arg) noSuchArgument
  | .allLocal => .ok item.localMemory

/-- The part of a memory reference's region from `offset` on, if it holds `size` bytes. -/
def partOf (item : WorkItem) (memory : MemoryRef) (offset size : Nat) : Except Status Region := do
  let region ← regionOf item memory
  if region.covers offset size then .ok { start := region.start.advance offset, size }
  else .error outOfBounds

/-- The answer to a query. -/
def answer (item : WorkItem) (frame : Frame) : ItemQuery → Except Fault Nat
  | .workDim => .ok item.cursor.space.dims
  | .globalSize dim => .ok (item.cursor.space.globalSize dim)
  | .globalId dim => item.cursor.globalId dim
  | .localSize dim => .ok (item.cursor.space.localSize dim)
  | .localId dim => .ok (item.cursor.localId dim)
  | .numGroups dim => .ok (item.cursor.space.numGroups dim)
  | .groupId dim => .ok (item.cursor.groupId dim)
  | .globalOffset dim => .ok (item.cursor.space.globalOffset dim)
  | .localLinear => item.cursor.localLinear
  | .groupLinear => item.cursor.groupLinear
  | .position => item.cursor.position
  | .isGroupStart => .ok item.cursor.isGroupStart.toNat
  | .resume => .ok frame.resume.toNat

/-- The event a slot pair holds: none unless the first slot is one. -/
def eventOf (frame : Frame) : Option Nat → Option Event
  | none => none
  | some slot => if frame.get slot = 1 then some (.ofBits (frame.get (slot + 1))) else none

/-- The bytes `count` elements take up, `stride` elements apart; a stride of zero is none. -/
def spanned (count elementSize stride : Nat) : Nat :=
  if count = 0 then 0
  else if stride = 0 then count * elementSize
  else ((count - 1) * stride + 1) * elementSize

/-- The copy a group-copy instruction describes, with both its ranges checked. -/
def copyJob (item : WorkItem) (frame : Frame) (goal : MemoryRef) (goalOffset : Nat)
    (source : MemoryRef) (sourceOffset count elementSize : Nat) (stride : Option CopyStride) :
    Except Status CopyJob := do
  let strideOn (sourceSide : Bool) : Nat := match stride with
    | some { stride, sourceStrided } => if sourceStrided = sourceSide then stride else 0
    | none => 0
  let target ← partOf item goal (frame.get goalOffset).toNat
    (spanned count elementSize (strideOn false))
  let supply ← partOf item source (frame.get sourceOffset).toNat
    (spanned count elementSize (strideOn true))
  if target.overlaps supply then .error overlappingCopy
  else
    match stride with
    | none => .ok (.contiguous target.start supply.start count elementSize)
    | some { stride, sourceStrided } =>
      .ok (.strided target.start supply.start count elementSize stride sourceStrided)

/-- A flag and, in the slot after it, a word. -/
def setPair (frame : Frame) (slot : Nat) (flag value : UInt64) : Except Fault Frame := do
  let frame ← frame.set slot flag
  frame.set (slot + 1) value

/-- Goes on after `pc` with the frame a computation leaves. -/
def advance (pc : Nat) (frame : Except Fault Frame) : Process Next :=
  match frame with
  | .ok frame => .done (.goTo (pc + 1) frame)
  | .error fault => .fault fault

/-- Goes on with a checked value, or ends the invocation with the trap. -/
def trapping {α : Type} (frame : Frame) (value : Except Status α) (next : α → Process Next) :
    Process Next :=
  match value with
  | .ok value => next value
  | .error status => .done (.stop (.trap status) frame)

/-- Executes the instruction at `pc`. -/
def execute (item : WorkItem) (pc : Nat) (frame : Frame) : Instruction → Process Next
  | .set target value => advance pc (frame.set target value)
  | .move target source => advance pc (frame.set target (frame.get source))
  | .addImmediate target source value => advance pc (frame.set target (frame.get source + value))
  | .operate op target a b =>
    trapping frame (orTrap (op.apply (frame.get a) (frame.get b)) divisionByZero) fun value =>
      advance pc (frame.set target value)
  | .query target what =>
    advance pc do
      let value ← answer item frame what
      frame.set target (UInt64.ofNat value)
  | .load target memory offset width =>
    trapping frame (partOf item memory (frame.get offset).toNat width) fun part =>
      .ask (.read part.start width) fun bytes =>
        advance pc (frame.set target (wordOfBytes bytes.toList))
  | .store memory offset source width =>
    trapping frame (partOf item memory (frame.get offset).toNat width) fun part =>
      .ask (.write part.start (wordBytes width (frame.get source)).toArray) fun _ =>
        advance pc (.ok frame)
  | .jump target => .done (.goTo target frame)
  | .jumpIfZero slot target =>
    .done (.goTo (if frame.get slot = 0 then target else pc + 1) frame)
  | .jumpUnlessZero slot target =>
    .done (.goTo (if frame.get slot ≠ 0 then target else pc + 1) frame)
  | .barrier flags resumeAt => .done (.stop (item.barrier flags resumeAt) frame)
  | .done => .done (.stop .done frame)
  | .trap status => .done (.stop (.trap status) frame)
  | .raise text => .fault (.raised text)
  | .value target arg scalar =>
    match item.valueArg? arg scalar with
    | some value => advance pc (setPair frame target 1 value)
    | none => advance pc (setPair frame target 0 0)
  | .argKind target arg =>
    let object := (item.objectArg? arg).isSome.toNat
    let isLocal := (item.localArg? arg).isSome.toNat
    advance pc (frame.set target (UInt64.ofNat (object + 2 * isLocal)))
  | .groupCopy target goal goalOffset source sourceOffset count elementSize event stride =>
    trapping frame
      (copyJob item frame goal goalOffset source sourceOffset count elementSize stride) fun job =>
      (item.groupCopy job (eventOf frame event)).bind fun
        | some event => advance pc (setPair frame target 1 event.toBits)
        | none => advance pc (setPair frame target 0 0)
  | .wait events =>
    (Process.waitForAll (events.map (eventOf frame))).bind fun _ => advance pc (.ok frame)
  | .lock => .ask .acquireLock fun _ => advance pc (.ok frame)
  | .unlock => .ask .releaseLock fun _ => advance pc (.ok frame)
  | .latch number => (Process.passLatch number).bind fun _ => advance pc (.ok frame)
  | .mark label => .ask (.mark label) fun _ => advance pc (.ok frame)
  | .log label slots =>
    let line := .record label item.cursor.groupIds item.cursor.localIds (slots.map frame.get)
    .ask (.log line) fun _ => advance pc (.ok frame)
  | .describe => .ask (.log (.text item.describe)) fun _ => advance pc (.ok frame)
  | .malformed => .done (.stop (.trap malformedInstruction) frame)

/-- Runs a program from `pc` on. Each instruction spends one unit of the command's budget, so more
than `budget + 1` steps are never asked for. -/
def run (code : Array Instruction) (item : WorkItem) :
    Nat → Nat → Frame → Process (Outcome × Frame)
  | 0, _, frame => .done (.trap budgetExhausted, frame)
  | steps + 1, pc, frame =>
    match code[pc]? with
    | none => .done (.done, frame)
    | some instruction =>
      .ask (.spend budget) fun (granted : Bool) =>
        if granted = false then .done (.trap budgetExhausted, frame)
        else
          (execute item pc frame instruction).bind fun
            | .goTo pc frame => run code item steps pc frame
            | .stop outcome frame => .done (outcome, frame)

/-- The kernel that runs a program. -/
def kernel (name : String) (staticLocal : Nat) (code : Array Instruction) : Kernel :=
  { name, staticLocal
    invoke := fun item frame => run code item (budget + 1) frame.resume.toNat frame }

end Program

end ComputeCore
