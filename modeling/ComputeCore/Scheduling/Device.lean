import ComputeCore.Scheduling.Config
import ComputeCore.Scheduling.Multiprocessor
/-!
# Devices

A device is what its workers share together with its multiprocessors. Kernels are spread over the
multiprocessors in turn, everything else goes to the first one. `enqueue` gives a command an event
that is completed when the command is over, and takes the event back if the command is refused.

`Device.step?` is one step of one of the device's threads: a worker, a copy under way, or a thread
waiting for an event. `Device.settle` is one schedule of these steps, in which everybody runs until
nobody can take a step any more.
-/

namespace ComputeCore

/-- A compute device. -/
structure Device where
  shared : Shared
  multiprocessors : Array Multiprocessor
  /-- Counts the kernels submitted, and so whose turn it is. -/
  turn : Nat := 0

/-- A thread of a device. -/
inductive Agent where
  | worker (multiprocessor worker : Nat)
  | copy (number : Nat)
  | waiter (number : Nat)
  deriving DecidableEq, Inhabited

namespace Device

/-- Multiprocessors for the given pools of cores, numbered from `id`. -/
def createPools (shared : Shared) :
    Nat → List (List Nat) → Except Refusal (List Multiprocessor × Shared)
  | _, [] => .ok ([], shared)
  | id, cores :: pools => do
    let (multiprocessor, shared) ← Multiprocessor.create id cores shared
    let (rest, shared) ← createPools shared (id + 1) pools
    return (multiprocessor :: rest, shared)

/-- The device of a configuration, on a machine with this many cores whose host provides blocks up to a
limit. Multiprocessors that would have no worker are left out. -/
def create (cores : Nat) (config : Config) (blockLimit : Fin Size.limit := Heap.usualLimit) :
    Except SetupFailure Device :=
  if config.workers = 0 then .error (.refused (.invalidConfig "at least one worker is required"))
  else
    match config.partition cores with
    | .error fault => .error (.fault fault)
    | .ok partition =>
      let shared : Shared :=
        { memory := .ofCapacity config.globalMemory blockLimit, localMemory := config.localMemory
          sink := .device }
      match createPools shared 0 (partition.filter fun cores => !cores.isEmpty) with
      | .error error => .error (.refused error)
      | .ok (multiprocessors, shared) =>
        .ok { shared, multiprocessors := multiprocessors.toArray }

/-- A device of a single multiprocessor whose completions are only taken down. -/
def createPool (id : Nat) (cores : List Nat) (globalMemory localMemory : Nat)
    (blockLimit : Fin Size.limit := Heap.usualLimit) : Except Refusal Device := do
  let shared : Shared := { memory := .ofCapacity globalMemory blockLimit, localMemory, sink := .recorder }
  let (multiprocessor, shared) ← Multiprocessor.create id cores shared
  return { shared, multiprocessors := #[multiprocessor] }

/-! ## Commands -/

/-- The position of the multiprocessor a command goes to. -/
def route (device : Device) (command : Command) : Nat :=
  if command.isNDRange then device.turn % device.multiprocessors.size else 0

/-- Submits a command; answers whether it was accepted. -/
def submit (device : Device) (command : Command) : Bool × Device :=
  let target := device.route command
  let device := if command.isNDRange then { device with turn := Size.succ device.turn } else device
  match device.multiprocessors[target]? with
  | none => (false, device)
  | some multiprocessor =>
    let (accepted, multiprocessor) := multiprocessor.submit command
    (accepted, { device with
      multiprocessors := device.multiprocessors.setIfInBounds target multiprocessor })

/-- Submits a command with a fresh event, and answers the event, none if it was refused. -/
def enqueue (device : Device) (command : Command) : Option Event × Device :=
  let (event, events) := device.shared.events.newEvent
  let device := { device with shared := { device.shared with events } }
  match device.submit (command.withEvent event) with
  | (true, device) => (some event, device)
  | (false, device) =>
    let events := device.shared.events.remove event
    (none, { device with shared := { device.shared with events } })

/-- Takes the exit status recorded for a command, if there is one. -/
def takeStatus (device : Device) (command : CommandId) : Option Status × Device :=
  let statuses := device.shared.statuses
  (statuses.find? command,
    { device with shared := { device.shared with statuses := statuses.erase command } })

/-- The number of exit statuses recorded and not taken. -/
def pendingStatuses (device : Device) : Nat :=
  device.shared.statuses.size

/-- Reports a command as over, as its worker would. -/
def notify (device : Device) (command : Command) (ending : Ending) : Device :=
  match device.shared.report command.id ending with
  | (true, shared) => { device with shared := shared.complete command.event }
  | (false, shared) => { device with shared }

/-- Closes the queues of all workers. What is queued is still carried out. -/
def shutdown (device : Device) : Device :=
  { device with multiprocessors := device.multiprocessors.map Multiprocessor.shutdown }

/-! ## Threads -/

/-- One step of one thread, none if it has to wait or has stopped. -/
def step? (device : Device) : Agent → Option Device
  | .worker i j => do
    let multiprocessor ← device.multiprocessors[i]?
    let worker ← multiprocessor.workers[j]?
    let (shared, worker) ← worker.step? device.shared
    let workers := multiprocessor.workers.setIfInBounds j worker
    some { device with
      shared
      multiprocessors := device.multiprocessors.setIfInBounds i { multiprocessor with workers } }
  | .copy number => do
    let shared ← device.shared.stepCopy? number
    some { device with shared }
  | .waiter number => do
    let events ← device.shared.events.stepWaiter? number
    some { device with shared := { device.shared with events } }

/-! ## Coming to rest -/

/-- Lets the workers of every multiprocessor run, for up to `steps` steps each. -/
def runWorkers (steps : Nat) : List Multiprocessor → Shared → Bool →
    Bool × Shared × List Multiprocessor
  | [], shared, moved => (moved, shared, [])
  | multiprocessor :: rest, shared, moved =>
    let (moved, shared, workers) :=
      Multiprocessor.runFor steps multiprocessor.workers.toList shared moved
    let (moved, shared, rest) := runWorkers steps rest shared moved
    (moved, shared, { multiprocessor with workers := workers.toArray } :: rest)

/-- Carries the copies with the given numbers to their end. -/
def runCopies : List Nat → Shared → Bool → Bool × Shared
  | [], shared, moved => (moved, shared)
  | number :: rest, shared, moved =>
    match shared.stepCopy? number with
    | none => runCopies rest shared moved
    | some shared => runCopies rest ((shared.stepCopy? number).getD shared) true

/-- Lets every thread of the device run until it has to wait. The flag says whether any took a
step. -/
def round (steps : Nat) (device : Device) : Bool × Device :=
  let (moved, shared, multiprocessors) :=
    runWorkers steps device.multiprocessors.toList device.shared false
  let (moved, shared) := runCopies (List.range shared.copies.size) shared moved
  let moved := moved || shared.events.stepFirst?.isSome
  let shared := { shared with events := shared.events.settle }
  (moved, { device with shared, multiprocessors := multiprocessors.toArray })

/-- Lets the device's threads run, for up to `rounds` rounds of up to `steps` steps of each worker,
until none of them can take a step. -/
def settle (steps : Nat) : Nat → Device → Device
  | 0, device => device
  | rounds + 1, device =>
    match device.round steps with
    | (true, device) => settle steps rounds device
    | (false, device) => device

/-- The device as it reads in logs. -/
def describe (device : Device) : String :=
  let pools := ", ".intercalate (device.multiprocessors.toList.map Multiprocessor.describe)
  s!"CpuDevice \x7b multiprocessors: [{pools}] \x7d"

end Device

end ComputeCore
