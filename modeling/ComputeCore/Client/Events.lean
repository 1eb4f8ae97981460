import ComputeCore.Event.WaitList
/-!
# Events by number

A client of a wait list numbers the events it makes from zero, and the threads it sends waiting
too. It may also spell a handle out, be it stale or made up. A child that cannot be made still
takes a number, which then names no event.
-/

namespace ComputeCore

/-- How a client names an event. -/
inductive EventName where
  | number (n : Nat)
  | spelled (event : Event)

/-- A request to a wait list. -/
inductive EventCall where
  | new
  | child (parent : EventName)
  | set (event : EventName) (value : Bool)
  | get (event : EventName)
  | remove (event : EventName)
  | isEmpty
  /-- Send a thread to wait for an event. -/
  | wait (event : EventName)

/-- What a request to a wait list is answered with. -/
inductive EventReply where
  | event (event : Event)
  | flag (value : Bool)
  | waiter (number : Nat)
  | done
  | fault (fault : Fault)

/-- The events and waiting threads a client knows by number. -/
structure EventNames where
  events : Array Event := #[]
  /-- The numbers that the wait list gave the client's threads. -/
  waiters : Array Nat := #[]
  deriving Inhabited

namespace EventNames

/-- The handle of a number that was never given to an event. -/
def nowhere : Event :=
  { index := 0xFFFFFFFF, generation := 0xFFFFFFFF }

/-- The handle a client means. -/
def resolve (names : EventNames) : EventName → Event
  | .number n => names.events.getD n nowhere
  | .spelled event => event

/-- Gives an event the next number. -/
def add (names : EventNames) (event : Event) : EventNames :=
  { names with events := names.events.push event }

/-- Carries out a call. -/
def serve (names : EventNames) (list : WaitList) :
    EventCall → EventReply × EventNames × WaitList
  | .new =>
    let (event, list) := list.newEvent
    (.event event, names.add event, list)
  | .child parent =>
    match list.newChildEvent (names.resolve parent) with
    | .ok (event, list) => (.event event, names.add event, list)
    | .error fault => (.fault fault, names.add nowhere, list)
  | .set event value => (.done, names, list.setCompleted (names.resolve event) value)
  | .get event => (.flag (list.isCompleted (names.resolve event)), names, list)
  | .remove event => (.done, names, list.remove (names.resolve event))
  | .isEmpty => (.flag (list.size = 0), names, list)
  | .wait event =>
    let (number, list) := list.enterWait (names.resolve event)
    (.waiter names.waiters.size, { names with waiters := names.waiters.push number }, list)

/-- The client's threads that are still waiting, in the order they were sent. -/
def blocked (names : EventNames) (list : WaitList) : List Nat :=
  (List.range names.waiters.size).filter fun i => list.isBlocked (names.waiters.getD i 0)

end EventNames

end ComputeCore
