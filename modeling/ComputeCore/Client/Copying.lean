import ComputeCore.Scheduling.Device
/-!
# A client of copy jobs

A client can have a copy job carried out on a thread of its own. It makes a first event and an event
for the copy, linked under the first one or not, and lets the copy come to its end. Then it
completes and awaits the first event, and at last awaits the copy's event too.

Waiting for the first event reaps the copy's event along with it exactly if that is linked under it.
-/

namespace ComputeCore

/-- What a client saw of the events around a copy. -/
structure CopyTrace where
  /-- Whether the copy's event was completed once its thread had ended. -/
  completed : Bool
  /-- The events left once the first event was awaited. -/
  afterFirst : Nat
  /-- The events left once the copy's event was awaited too. -/
  afterBoth : Nat
  deriving DecidableEq, Inhabited

namespace CopyTrace

/-- A copy on a thread of its own, with nothing else going on. -/
def bench (job : CopyJob) (heap : Heap) (events : WaitList) (signal : Event) : Device :=
  { shared :=
      { memory := { GlobalMemory.ofCapacity 0 with heap }, localMemory := 0, events, sink := .gone
        copies := #[{ job, signal }] }
    multiprocessors := #[] }

/-- Lets the copy and everybody who waits come to rest. There are no workers to take a step; one
round carries the copy to its end and lets the waiting threads go on, a second one finds nothing to
do. -/
def rest (device : Device) : Device :=
  device.settle 0 2

/-- Sends a thread to wait for an event and lets everything come to rest. -/
def await (event : Event) (device : Device) : Device :=
  let shared := device.shared
  let (_, events) := shared.events.enterWait event
  rest { device with shared := { shared with events } }

/-- Completes an event. -/
def complete (event : Event) (device : Device) : Device :=
  { device with shared := device.shared.complete (some event) }

/-- Has a job carried out, and answers the heap after it and what was seen of the events. A job
that faults takes its thread down. -/
def take (job : CopyJob) (heap : Heap) (linked : Bool) : Except Fault (Heap × CopyTrace) := do
  let (first, events) := WaitList.newEvent {}
  let (signal, events) ← if linked then events.newChildEvent first else .ok events.newEvent
  if let (.error fault, _) := job.run heap then throw fault
  let ended := rest (bench job heap events signal)
  let afterFirst := await first (complete first ended)
  let afterBoth := await signal afterFirst
  return (ended.shared.memory.heap, {
    completed := ended.shared.events.isCompleted signal
    afterFirst := afterFirst.shared.events.size
    afterBoth := afterBoth.shared.events.size })

end CopyTrace

end ComputeCore
