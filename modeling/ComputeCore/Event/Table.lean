import ComputeCore.Fault
/-!
# The event table

Events live in the slots of a table. A slot is either empty or holds one event: a completion flag
and the events linked under it, oldest first. Emptied slots are reused, the one emptied last first,
and tell their successive tenants apart by a generation that every removal raises.

Removing an event can remove everything linked under it as well. Each link of the table is followed
at most once, because it is taken out with the event that holds it; so the number of links bounds
the work.
-/

namespace ComputeCore

/-- One live event. -/
structure EventEntry where
  completed : Bool := false
  /-- The events linked under this one, oldest first. -/
  linked : List Event := []
  deriving DecidableEq, Inhabited

/-- One place for an event. -/
structure EventSlot where
  generation : UInt32 := 0
  /-- The event that lives here now. -/
  entry : Option EventEntry := none
  deriving DecidableEq, Inhabited

/-- The slots, and which of them are free. -/
structure EventTable where
  slots : Array EventSlot := #[]
  /-- The empty slots, last emptied first. -/
  free : List UInt32 := []
  /-- The number of events. -/
  live : Nat := 0
  deriving DecidableEq, Inhabited

namespace EventTable

/-- The event a handle names, none if the handle is stale or made up. -/
def lookup? (table : EventTable) (event : Event) : Option EventEntry :=
  match table.slots[event.index.toNat]? with
  | some slot => if slot.generation = event.generation then slot.entry else none
  | none => none

/-- Whether a handle names an event. -/
def knows (table : EventTable) (event : Event) : Bool :=
  (table.lookup? event).isSome

/-- Replaces the event a handle names. -/
def setEntry (table : EventTable) (event : Event) (entry : EventEntry) : EventTable :=
  { table with
    slots := table.slots.setIfInBounds event.index.toNat
      { generation := event.generation, entry := some entry } }

/-- A new event, neither completed nor linked. -/
def insert (table : EventTable) : Event × EventTable :=
  match table.free with
  | index :: free =>
    let event : Event :=
      { index, generation := (table.slots.getD index.toNat default).generation }
    (event, { table with free, live := table.live + 1 }.setEntry event {})
  | [] =>
    let event : Event := { index := UInt32.ofNat table.slots.size, generation := 0 }
    (event, { table with slots := table.slots.push { entry := some {} }, live := table.live + 1 })

/-- Takes one event out and leaves its slot to the next generation. -/
def remove (table : EventTable) (event : Event) : EventTable :=
  if table.knows event then
    { slots := table.slots.setIfInBounds event.index.toNat
        { generation := event.generation + 1, entry := none }
      free := event.index :: table.free
      live := table.live - 1 }
  else table

/-- The links under the event of a slot. -/
def slotLinks (slot : EventSlot) : Nat :=
  match slot.entry with
  | some entry => entry.linked.length
  | none => 0

/-- The links in the table. -/
def linkCount (table : EventTable) : Nat :=
  table.slots.toList.foldr (fun slot links => slotLinks slot + links) 0

/-- Takes out the pending events and everything linked under them, the one added last first, in at
most `steps` steps. -/
def removeAll : Nat → EventTable → List Event → EventTable
  | 0, table, _ => table
  | _ + 1, table, [] => table
  | steps + 1, table, event :: pending =>
    match table.lookup? event with
    | none => removeAll steps table pending
    | some entry => removeAll steps (table.remove event) (entry.linked.reverse ++ pending)

/-- Takes out an event and everything linked under it, at any depth. -/
def removeTree (table : EventTable) (event : Event) : EventTable :=
  removeAll (table.linkCount + 1) table [event]

end EventTable

end ComputeCore
