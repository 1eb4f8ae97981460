import ComputeCore.Proofs.Event.Operations
import ComputeCore.Proofs.Event.Cascade
/-!
# Events under names of their own

The wait list as it would be if names were never short: a map from names to events, a record of the names
it gave, and the threads that wait. There are no slots, nothing is reused, and a new event gets any name that
none had before it.

Two things can be read off its steps at once. A name that was given and is unknown stays unknown, because no
step brings a name back; and a step leaves the events alone that it does not touch.
-/

namespace ComputeCore

inductive EventAnswer where
  | name (event : Event)
  | fault (fault : Fault)
  | done
  deriving DecidableEq

def EventAnswer.names : EventAnswer → List Event
  | .name event => [event]
  | _ => []

structure NameMap where
  lookup? : Event → Option EventEntry := fun _ => none
  /-- Every name that was given, oldest first. -/
  given : List Event := []
  waiters : Array Waiter := #[]

namespace NameMap

def isCompleted (map : NameMap) (event : Event) : Bool :=
  match map.lookup? event with
  | some entry => entry.completed
  | none => false

/-- The number of live names. -/
def size (map : NameMap) : Nat :=
  (map.given.filter fun event => (map.lookup? event).isSome).length

def isBlocked (map : NameMap) (number : Nat) : Bool :=
  match map.waiters[number]? with
  | some waiter => waiter.isBlocked
  | none => false

def bind (map : NameMap) (event : Event) (entry : EventEntry) : NameMap :=
  { map with lookup? := fun other => if other = event then some entry else map.lookup? other }

def unbind (map : NameMap) (event : Event) : NameMap :=
  { map with lookup? := fun other => if other = event then none else map.lookup? other }

def give (map : NameMap) (fresh : Event) : NameMap :=
  { map.bind fresh {} with given := map.given ++ [fresh] }

def move (map : NameMap) (number : Nat) (waiter : Waiter) : NameMap :=
  { map with waiters := map.waiters.setIfInBounds number waiter }

/-- The thread is awake, inside a call for the event. -/
def Turn (map : NameMap) (number : Nat) (event : Event) (outer : List Event) : Prop :=
  map.waiters[number]? = some { calls := event :: outer }

/-- All that an operation can do to the map, and what it answers. -/
inductive Step (map : NameMap) : EventOp → EventAnswer → NameMap → Prop
  | newEvent (fresh : Event) (unused : fresh ∉ map.given) : Step map .newEvent (.name fresh) (map.give fresh)
  | newChild (parent fresh : Event) (entry : EventEntry) (found : map.lookup? parent = some entry)
      (unused : fresh ∉ map.given) :
      Step map (.newChild parent) (.name fresh)
        ((map.give fresh).bind parent { entry with linked := entry.linked ++ [fresh] })
  | noParent (parent : Event) (unknown : map.lookup? parent = none) :
      Step map (.newChild parent) (.fault (.unknownParent parent)) map
  | setCompleted (event : Event) (value : Bool) (entry : EventEntry) (found : map.lookup? event = some entry) :
      Step map (.setCompleted event value) .done
        { map.bind event { entry with completed := value } with
          waiters := if value && !entry.completed then map.waiters.map Waiter.wake else map.waiters }
  | setUnknown (event : Event) (value : Bool) (unknown : map.lookup? event = none) :
      Step map (.setCompleted event value) .done map
  /-- The event goes with everything its links lead to, and nothing else goes. -/
  | remove (event : Event) (map' : NameMap)
      (gone : ∀ other, Linked map.lookup? event other → map'.lookup? other = none)
      (kept : ∀ other, ¬ Linked map.lookup? event other → map'.lookup? other = map.lookup? other)
      (given_eq : map'.given = map.given) (waiters_eq : map'.waiters = map.waiters) :
      Step map (.remove event) .done map'
  | enterWait (event : Event) :
      Step map (.enterWait event) .done { map with waiters := map.waiters.push { calls := [event] } }
  /-- The thread sleeps or has returned, or there is none with this number. -/
  | idle (number : Nat) (still : ∀ event outer, ¬ map.Turn number event outer) :
      Step map (.stepWaiter number) .done map
  | leave (number : Nat) (event : Event) (outer : List Event) (turn : map.Turn number event outer)
      (unknown : map.lookup? event = none) :
      Step map (.stepWaiter number) .done (map.move number { calls := outer })
  | reap (number : Nat) (event : Event) (outer : List Event) (turn : map.Turn number event outer)
      (found : map.lookup? event = some { completed := true, linked := [] }) :
      Step map (.stepWaiter number) .done ((map.unbind event).move number { calls := outer })
  | fallAsleep (number : Nat) (event : Event) (outer : List Event) (turn : map.Turn number event outer)
      (found : map.lookup? event = some { completed := false, linked := [] }) :
      Step map (.stepWaiter number) .done (map.move number { calls := event :: outer, asleep := true })
  | descend (number : Nat) (event : Event) (outer : List Event) (completed : Bool) (child : Event)
      (rest : List Event) (turn : map.Turn number event outer)
      (found : map.lookup? event = some { completed, linked := child :: rest }) :
      Step map (.stepWaiter number) .done
        ((map.bind event { completed, linked := rest }).move number { calls := child :: event :: outer })

/-- The events that an operation is about: the one it names, what a removal takes along, and for a thread
inside `wait` the event of its innermost call. -/
def Touches (map : NameMap) : EventOp → Event → Prop
  | .newEvent, _ => False
  | .newChild parent, other => other = parent
  | .setCompleted event _, other => other = event
  | .remove event, other => Linked map.lookup? event other
  | .enterWait _, _ => False
  | .stepWaiter number, other => ∃ outer, map.Turn number other outer

section Steps
variable {map map' : NameMap} {op : EventOp} {answer : EventAnswer} {event : Event} {entry : EventEntry}

/-- No step brings a name back. -/
theorem Step.unknown (h : map.Step op answer map') (hgiven : event ∈ map.given)
    (hunknown : map.lookup? event = none) :
    map'.lookup? event = none := by
  -- What is bound in a step is new, or was bound before.
  have hnew : ∀ fresh, fresh ∉ map.given → event ≠ fresh := fun fresh hfresh heq => hfresh (heq ▸ hgiven)
  have hold : ∀ other entry, map.lookup? other = some entry → event ≠ other := by
    rintro other entry hfound rfl
    simp [hunknown] at hfound
  cases h with
  | newEvent fresh unused => simp [give, bind, hnew fresh unused, hunknown]
  | newChild parent fresh entry found unused =>
    simp [give, bind, hnew fresh unused, hold parent entry found, hunknown]
  | setCompleted other value entry found => simp [bind, hold other entry found, hunknown]
  | remove other map' gone kept given_eq waiters_eq =>
    by_cases hlinked : Linked map.lookup? other event
    · exact gone event hlinked
    · rw [kept event hlinked, hunknown]
  | reap number other outer turn found => simp [unbind, move, hunknown]
  | descend number other outer completed child rest turn found => simp [bind, move, hold other _ found, hunknown]
  | _ => exact hunknown

/-- A live event that a step does not touch keeps its flag and its links. -/
theorem Step.untouched (h : map.Step op answer map') (hfound : map.lookup? event = some entry)
    (hgiven : event ∈ map.given) (htouches : ¬ map.Touches op event) : map'.lookup? event = some entry := by
  have hnew : ∀ fresh, fresh ∉ map.given → event ≠ fresh := fun fresh hfresh heq => hfresh (heq ▸ hgiven)
  cases h with
  | newEvent fresh unused => simp [give, bind, hnew fresh unused, hfound]
  | newChild parent fresh entry found unused =>
    have hne : event ≠ parent := htouches
    simp [give, bind, hnew fresh unused, hne, hfound]
  | setCompleted other value entry found =>
    have hne : event ≠ other := htouches
    simp [bind, hne, hfound]
  | remove other map' gone kept given_eq waiters_eq => rw [kept event htouches, hfound]
  | reap number other outer turn found =>
    have hne : event ≠ other := fun heq => htouches ⟨outer, heq ▸ turn⟩
    simp [unbind, move, hne, hfound]
  | descend number other outer completed child rest turn found =>
    have hne : event ≠ other := fun heq => htouches ⟨outer, heq ▸ turn⟩
    simp [bind, move, hne, hfound]
  | _ => exact hfound

end Steps

end NameMap

end ComputeCore
