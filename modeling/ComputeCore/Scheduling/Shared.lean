import ComputeCore.Event.WaitList
import ComputeCore.Scheduling.Command
import ComputeCore.SpinLock
/-!
# What workers share

All workers of a device share its global memory, its events and its global lock, the copies under
way, and the host's side: the buffers reads go to, latches that hold commands back, what commands
log, and whoever is told of their completion.

`Shared.perform` carries out one request of a process. It is one atomic step, and it has no answer
while the process has to wait.
-/

namespace ComputeCore

/-- A latch the host holds commands back with. Once open it stays open. -/
structure Latch where
  /-- How many commands came to it. -/
  arrived : Nat := 0
  opened : Bool := false
  deriving DecidableEq, Inhabited

/-- How a command ended. -/
inductive Ending where
  /-- Normally. -/
  | done
  /-- With an exit status. -/
  | exit (status : Status)
  deriving DecidableEq, Inhabited

/-- A completion as it was reported. -/
structure Report where
  command : CommandId
  ending : Ending
  deriving DecidableEq, Inhabited

/-- Who is told when a command is completed. -/
inductive Sink where
  /-- The device, which keeps exit statuses until they are asked for and completes events. -/
  | device
  /-- Somebody who only takes notes. -/
  | recorder
  /-- Nobody any more. -/
  | gone
  deriving DecidableEq, Inhabited

/-- How far a copy under way is. -/
inductive CopyStage where
  /-- The bytes are still to be moved. -/
  | copying
  /-- The event is still to be completed. -/
  | signalling
  | ended
  deriving DecidableEq, Inhabited

/-- A copy on a thread of its own. -/
structure CopyTask where
  job : CopyJob
  /-- The event to complete when the bytes are there. -/
  signal : Event
  stage : CopyStage := .copying
  deriving DecidableEq, Inhabited

/-- The state all workers of a device share. -/
structure Shared where
  memory : GlobalMemory
  /-- The size of each worker's local memory. -/
  localMemory : Nat
  events : WaitList := {}
  lock : SpinLock := {}
  copies : Array CopyTask := #[]
  sink : Sink
  /-- The exit statuses the device has not been asked for yet. -/
  statuses : Dict CommandId Status := {}
  /-- The completions a recorder took down, oldest first. -/
  reports : Array Report := #[]
  /-- The host buffers that reads go to, by number. -/
  hostBuffers : Array Bytes := #[]
  latches : Dict Nat Latch := {}
  /-- The list all commands append to. -/
  marks : Array String := #[]
  /-- What each command logged. -/
  logs : Dict CommandId (Array LogLine) := {}
  /-- What each command has used up of its budget. -/
  spent : Dict CommandId Nat := {}
  deriving Inhabited

namespace Shared

/-- A latch, fresh if nobody came to it yet. -/
def latch (shared : Shared) (number : Nat) : Latch :=
  shared.latches.findD number {}

/-- Carries out a request of a command's process, none while it has to wait. -/
def perform (shared : Shared) (command : CommandId) :
    (request : Request) → Option (Except Fault (request.Reply × Shared))
  | .read start size => some (.ok (shared.memory.heap.read start size, shared))
  | .write start bytes =>
    let heap := shared.memory.heap.write start bytes
    some (.ok ((), { shared with memory := { shared.memory with heap } }))
  | .newEvent =>
    let (event, events) := shared.events.newEvent
    some (.ok (event, { shared with events }))
  | .newChildEvent parent =>
    match shared.events.newChildEvent parent with
    | .ok (event, events) => some (.ok (event, { shared with events }))
    | .error fault => some (.error fault)
  | .startCopy job signal =>
    some (.ok ((), { shared with copies := shared.copies.push { job, signal } }))
  | .enterWait event =>
    let (waiter, events) := shared.events.enterWait event
    some (.ok (waiter, { shared with events }))
  | .leaveWait waiter =>
    if shared.events.isBlocked waiter then none else some (.ok ((), shared))
  | .acquireLock =>
    match shared.lock.acquire? with
    | some lock => some (.ok ((), { shared with lock }))
    | none => none
  | .releaseLock => some (.ok ((), { shared with lock := shared.lock.release }))
  | .arrive number =>
    let latch := shared.latch number
    let latches := shared.latches.insert number { latch with arrived := latch.arrived + 1 }
    some (.ok ((), { shared with latches }))
  | .pass number => if (shared.latch number).opened then some (.ok ((), shared)) else none
  | .mark label => some (.ok ((), { shared with marks := shared.marks.push label }))
  | .log line =>
    let log := (shared.logs.findD command #[]).push line
    some (.ok ((), { shared with logs := shared.logs.insert command log }))
  | .spend limit =>
    let spent := shared.spent.findD command 0
    if spent < limit then
      some (.ok (true, { shared with spent := shared.spent.insert command (spent + 1) }))
    else some (.ok (false, shared))

/-- Opens a latch. -/
def openLatch (shared : Shared) (number : Nat) : Shared :=
  { shared with
    latches := shared.latches.insert number { shared.latch number with opened := true } }

/-! ## Copies under way -/

/-- One step of a copy: it moves its bytes, then completes its event. A copy that faults ends
without completing it. -/
def stepCopy? (shared : Shared) (number : Nat) : Option Shared := do
  let task ← shared.copies[number]?
  let goTo (stage : CopyStage) : Array CopyTask :=
    shared.copies.setIfInBounds number { task with stage }
  match task.stage with
  | .copying =>
    let (result, heap) := task.job.run shared.memory.heap
    let stage := match result with
      | .ok () => .signalling
      | .error _ => .ended
    some { shared with memory := { shared.memory with heap }, copies := goTo stage }
  | .signalling =>
    some { shared with
      events := shared.events.setCompleted task.signal true, copies := goTo .ended }
  | .ended => none

/-! ## Reporting -/

/-- Tells the sink how a command ended. Answers whether the sink goes on to complete events. -/
def report (shared : Shared) (command : CommandId) (ending : Ending) : Bool × Shared :=
  match shared.sink, ending with
  | .device, .done => (true, shared)
  | .device, .exit status =>
    (true, { shared with statuses := shared.statuses.insert command status })
  | .recorder, _ => (false, { shared with reports := shared.reports.push { command, ending } })
  | .gone, _ => (false, shared)

/-- Completes the event of a command, if it has one. -/
def complete (shared : Shared) (event : Option Event) : Shared :=
  match event with
  | some event => { shared with events := shared.events.setCompleted event true }
  | none => shared

end Shared

end ComputeCore
