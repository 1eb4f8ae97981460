import ComputeCore.Event.Table
/-!
# Waiting for events

A wait list is the table of events together with the threads waiting in it. Waiting for an event
first waits for, and reaps, every event linked under it, oldest first, and then sleeps until the
event itself is completed and reaps it. A handle that names no event is not waited for.

One lock guards the table. A waiting thread takes it for one step at a time, described by
`Waiter.step`: it looks at the event of its innermost call and either returns from the call, takes
the first link out and calls itself on it, reaps the event, or falls asleep. Nothing but an event
turning completed wakes a sleeping waiter, and that wakes all of them.
-/

namespace ComputeCore

/-- A thread inside `wait`. -/
structure Waiter where
  /-- The events of its nested calls, innermost first; empty once it has returned. -/
  calls : List Event
  /-- Whether it waits to be woken. -/
  asleep : Bool := false
  deriving DecidableEq, Inhabited

namespace Waiter

/-- Whether the thread is still inside `wait`. -/
def isBlocked (waiter : Waiter) : Bool :=
  !waiter.calls.isEmpty

/-- What a waiter does while it holds the lock once. A sleeping or returned one does nothing. -/
def step (table : EventTable) (waiter : Waiter) : Option (EventTable × Waiter) :=
  if waiter.asleep then none
  else
    match waiter.calls with
    | [] => none
    | event :: outer =>
      match table.lookup? event with
      | none => some (table, { calls := outer })
      | some { completed, linked := [] } =>
        if completed then some (table.remove event, { calls := outer })
        else some (table, { waiter with asleep := true })
      | some { completed, linked := child :: rest } =>
        some (table.setEntry event { completed, linked := rest },
          { calls := child :: event :: outer })

/-- The waiter once a completion has been announced. -/
def wake (waiter : Waiter) : Waiter :=
  { waiter with asleep := false }

/-- What a waiter contributes to the bound on the steps to come. -/
def weight (waiter : Waiter) : Nat :=
  2 * waiter.calls.length + if waiter.asleep then 0 else 1

end Waiter

/-- The events of one runtime and the threads waiting for them. -/
structure WaitList where
  table : EventTable := {}
  /-- Every thread that ever waited, by number. -/
  waiters : Array Waiter := #[]
  deriving DecidableEq, Inhabited

namespace WaitList

/-- The number of events. -/
def size (list : WaitList) : Nat :=
  list.table.live

/-- A new event, not completed. -/
def newEvent (list : WaitList) : Event × WaitList :=
  let (event, table) := list.table.insert
  (event, { list with table })

/-- A new event linked under `parent`, which waiting for `parent` waits for too. -/
def newChildEvent (list : WaitList) (parent : Event) : Except Fault (Event × WaitList) :=
  if list.table.knows parent then
    let (child, table) := list.table.insert
    match table.lookup? parent with
    | none => .ok (child, { list with table })
    | some entry =>
      .ok (child, { list with
        table := table.setEntry parent { entry with linked := entry.linked ++ [child] } })
  else .error (.unknownParent parent)

/-- Sets the completion flag of an event, and wakes every waiter if that completes it. -/
def setCompleted (list : WaitList) (event : Event) (value : Bool) : WaitList :=
  match list.table.lookup? event with
  | none => list
  | some entry =>
    { table := list.table.setEntry event { entry with completed := value }
      waiters := if value && !entry.completed then list.waiters.map Waiter.wake
        else list.waiters }

/-- Whether a handle names a completed event. -/
def isCompleted (list : WaitList) (event : Event) : Bool :=
  match list.table.lookup? event with
  | some entry => entry.completed
  | none => false

/-- Erases an event, completed or not, together with everything linked under it. -/
def remove (list : WaitList) (event : Event) : WaitList :=
  { list with table := list.table.removeTree event }

/-- A thread starts to wait for an event. Answers the number of the waiter. -/
def enterWait (list : WaitList) (event : Event) : Nat × WaitList :=
  (list.waiters.size, { list with waiters := list.waiters.push { calls := [event] } })

/-- Whether a waiter is still inside `wait`. -/
def isBlocked (list : WaitList) (number : Nat) : Bool :=
  match list.waiters[number]? with
  | some waiter => waiter.isBlocked
  | none => false

/-- One step of one waiter, none if it sleeps or has returned. -/
def stepWaiter? (list : WaitList) (number : Nat) : Option WaitList := do
  let waiter ← list.waiters[number]?
  let (table, waiter) ← waiter.step list.table
  some { table, waiters := list.waiters.setIfInBounds number waiter }

/-! ## Coming to rest -/

/-- One step of the first waiter that can take one. -/
def stepFirst? (list : WaitList) : Option WaitList :=
  (List.range list.waiters.size).findSome? list.stepWaiter?

/-- A bound on the steps the waiters can take on their own: following a link costs one link for one
more call, and every other step ends a call or puts a waiter to sleep. -/
def work (list : WaitList) : Nat :=
  list.waiters.toList.foldr (fun waiter steps => waiter.weight + steps) (3 * list.table.linkCount)

/-- Lets the waiters take up to `steps` steps. -/
def settleFor : Nat → WaitList → WaitList
  | 0, list => list
  | steps + 1, list =>
    match list.stepFirst? with
    | none => list
    | some list => settleFor steps list

/-- Lets every waiter run until it sleeps or returns. -/
def settle (list : WaitList) : WaitList :=
  settleFor list.work list

end WaitList

end ComputeCore
