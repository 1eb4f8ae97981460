import ComputeCore.Proofs.Event.Pending
/-!
# What becomes of links

A new event has no links, and is linked under its parent if it is given one (`WaitList.Made`). A completion
changes no links, and a waiter's own step neither completes an event nor makes one pending
(`Waiter.Move.pending_iff`). An operation that is on other events leaves an event as it is
(`WaitList.lookup?_apply_of_leaves`).
-/

namespace ComputeCore

namespace EventTable

/-- The events linked under the one that a handle names, none if it names no event. -/
def links? (table : EventTable) (event : Event) : Option (List Event) :=
  (table.lookup? event).map (·.linked)

section Links
variable {table : EventTable} {event other : Event} {linked : List Event}

theorem links?_eq_some : table.links? event = some linked ↔
    ∃ completed, table.lookup? event = some { completed, linked } := by
  unfold links?
  rw [Option.map_eq_some_iff]
  constructor
  · rintro ⟨⟨completed, linked⟩, hentry, rfl⟩
    exact ⟨completed, hentry⟩
  · rintro ⟨completed, hentry⟩
    exact ⟨_, hentry, rfl⟩

theorem links?_eq_none : table.links? event = none ↔ table.lookup? event = none := by
  simp [links?]

theorem linked_eq {entry : EventEntry} (h : table.links? event = some linked)
    (hentry : table.lookup? event = some entry) : entry.linked = linked := by
  rw [links?, hentry] at h
  exact Option.some.inj h

theorem links?_setEntry {old entry : EventEntry} (h : table.lookup? event = some old) :
    links? (table.setEntry event entry) other = if other = event then some entry.linked else table.links? other := by
  unfold links?
  rw [lookup?_setEntry h]
  split <;> rfl

theorem links?_remove :
    links? (table.remove event) other = if other = event then none else table.links? other := by
  unfold links?
  rw [lookup?_remove]
  split <;> rfl

theorem live_remove (h : table.knows event = true) : (table.remove event).live = table.live - 1 := by
  rw [remove, if_pos h]

theorem isSome_links? : (table.links? event).isSome = table.knows event := by
  simp [links?, knows]

end Links

end EventTable

/-- A waiter's own step neither completes an event nor makes one pending. -/
theorem Waiter.Move.pending_iff {table table' : EventTable} {waiter waiter' : Waiter}
    (h : waiter.Move table table' waiter') (event : Event) : table'.Pending event ↔ table.Pending event := by
  refine ⟨?_, WaitList.pending_move h⟩
  rintro ⟨entry, hentry, hcompleted⟩
  cases h with
  | leave top outer calls unknown table_eq | fallAsleep top outer calls found table_eq =>
    exact ⟨entry, table_eq ▸ hentry, hcompleted⟩
  | reap top outer calls found table_eq =>
    rw [table_eq, EventTable.lookup?_remove] at hentry
    split at hentry
    · cases hentry
    · exact ⟨entry, hentry, hcompleted⟩
  | descend top outer calls completed child rest found table_eq =>
    rw [table_eq, EventTable.lookup?_setEntry found] at hentry
    split at hentry
    · next heq =>
      cases hentry
      exact ⟨{ completed, linked := child :: rest }, heq ▸ found, hcompleted⟩
    · exact ⟨entry, hentry, hcompleted⟩

namespace WaitList

/-! ## New events -/

/-- There is a new event, linked under `parent` if that is given. -/
structure Made (list list' : WaitList) (signal : Event) (parent : Option Event) : Prop where
  fresh : list.table.lookup? signal = none
  links : ∀ event, list'.table.links? event =
    if event = signal then some []
    else if parent = some event then (list.table.links? event).map (· ++ [signal])
    else list.table.links? event
  pending : ∀ event, list'.table.Pending event ↔ event = signal ∨ list.table.Pending event
  live : list'.table.live = list.table.live + 1
  waiters : list'.waiters = list.waiters
  wellFormed : list'.table.WellFormed

section Making
variable {list : WaitList} {parent : Event} {entry : EventEntry}

theorem pending_insert_iff {table : EventTable} (h : table.WellFormed) (hroom : table.insert.2.Numbered)
    (event : Event) : EventTable.Pending table.insert.2 event ↔ event = table.insert.1 ∨ table.Pending event := by
  unfold EventTable.Pending
  rw [EventTable.lookup?_insert h hroom]
  by_cases heq : event = table.insert.1 <;> simp [heq]

theorem made_newEvent (h : list.table.WellFormed) (hroom : list.newEvent.2.table.Numbered) :
    list.Made list.newEvent.2 list.newEvent.1 none where
  fresh := by
    have hroom' : (list.apply .newEvent).table.Numbered := hroom
    have hmade : list.newEvent.1 ∈ (list.answer .newEvent).names := List.mem_singleton_self _
    exact (lookup?_of_made h hroom' hmade).1
  links event := by
    have hentry : EventTable.lookup? list.newEvent.2.table event =
        if event = list.newEvent.1 then some {} else list.table.lookup? event :=
      EventTable.lookup?_insert h hroom
    simp only [EventTable.links?, hentry]
    by_cases heq : event = list.newEvent.1 <;> simp [heq]
  pending := pending_insert_iff h hroom
  live := EventTable.live_insert list.table
  waiters := rfl
  wellFormed := h.insert

/-- A known event gets a child. -/
theorem newChildEvent_of_known (hparent : list.table.lookup? parent = some entry) :
    list.newChildEvent parent = .ok (list.table.insert.1, list.apply (.newChild parent)) := by
  have hknows : list.table.knows parent = true := EventTable.knows_iff.2 ⟨entry, hparent⟩
  obtain ⟨still, hstill, happly⟩ := apply_newChild_of_known hknows
  rw [happly]
  simp [newChildEvent, hknows, hstill]

theorem made_newChild (h : list.table.WellFormed) (hroom : (list.apply (.newChild parent)).table.Numbered)
    (hparent : list.table.lookup? parent = some entry) :
    list.Made (list.apply (.newChild parent)) list.table.insert.1 (some parent) := by
  rcases newChild_cases h hroom with ⟨hunknown, -, -⟩ | ⟨old, hold, hinsert, hstill, hanswer, happly⟩
  · simp [hunknown] at hparent
  obtain rfl := Option.some.inj (hold.symm.trans hparent)
  have hmade : list.table.insert.1 ∈ (list.answer (.newChild parent)).names := by
    rw [hanswer]
    exact List.mem_singleton_self _
  have hfresh := (lookup?_of_made h hroom hmade).1
  have hne : parent ≠ list.table.insert.1 := fun heq => by
    rw [heq, hfresh] at hold
    cases hold
  refine ⟨hfresh, fun event => ?_, fun event => ?_, ?_, by rw [happly], wellFormed_apply h _⟩
  · simp only [EventTable.links?, happly, EventTable.lookup?_setEntry hstill,
      EventTable.lookup?_insert h hinsert, Option.some.injEq]
    by_cases hnew : event = list.table.insert.1
    · simp [hnew, Ne.symm hne]
    · by_cases heq : event = parent
      · simp [heq, hne, hold]
      · simp [hnew, heq, Ne.symm heq]
  · rw [← pending_insert_iff h hinsert]
    simp only [EventTable.Pending, happly, EventTable.lookup?_setEntry hstill]
    by_cases heq : event = parent
    · subst heq
      simp [hstill]
    · simp [heq]
  · rw [happly]
    exact EventTable.live_insert list.table

end Making

/-! ## Completions -/

section Completing
variable {list : WaitList} {event other : Event} {value : Bool}

theorem links?_setCompleted : (list.setCompleted event value).table.links? other = list.table.links? other := by
  cases hentry : list.table.lookup? event with
  | none => rw [setCompleted_of_unknown hentry]
  | some entry =>
    rw [table_setCompleted hentry, EventTable.links?_setEntry hentry]
    split
    · next heq => simp [EventTable.links?, heq, hentry]
    · rfl

theorem pending_setCompleted : (list.setCompleted event true).table.Pending other ↔
    other ≠ event ∧ list.table.Pending other := by
  unfold EventTable.Pending
  cases hentry : list.table.lookup? event with
  | none =>
    rw [setCompleted_of_unknown hentry]
    refine (and_iff_right_of_imp ?_).symm
    rintro ⟨entry, hother, -⟩ rfl
    simp [hentry] at hother
  | some entry =>
    simp only [table_setCompleted hentry, EventTable.lookup?_setEntry hentry]
    by_cases heq : other = event <;> simp [heq]

theorem live_setCompleted : (list.setCompleted event value).table.live = list.table.live := by
  cases hentry : list.table.lookup? event with
  | none => rw [setCompleted_of_unknown hentry]
  | some entry =>
    rw [table_setCompleted hentry]
    rfl

/-- Completing a pending event wakes everybody. -/
theorem waiters_setCompleted_of_pending (h : list.table.Pending event) :
    (list.setCompleted event true).waiters = list.waiters.map Waiter.wake := by
  obtain ⟨entry, hentry, hcompleted⟩ := h
  rw [waiters_setCompleted hentry, hcompleted]
  rfl

end Completing

/-! ## Operations on other events -/

/-- The operation is on other events than this one, and does not hand out its handle again. -/
def Leaves (list : WaitList) (event : Event) : EventOp → Prop
  | .newEvent => list.table.insert.1 ≠ event
  | .newChild parent => parent ≠ event ∧ list.table.insert.1 ≠ event
  | .setCompleted completed _ => completed ≠ event
  | .remove removed => ¬ Linked list.table.lookup? removed event
  | .enterWait awaited => awaited ≠ event
  | .stepWaiter number => ∀ waiter, list.waiters[number]? = some waiter → event ∉ waiter.calls

section Operations
variable {list : WaitList} {op : EventOp} {event : Event}

theorem lookup?_apply_of_leaves (h : list.table.WellFormed) (hroom : (list.apply op).table.Numbered)
    (hleaves : list.Leaves event op) : (list.apply op).table.lookup? event = list.table.lookup? event := by
  cases op with
  | newEvent => exact (EventTable.lookup?_insert h hroom).trans (if_neg (Ne.symm hleaves))
  | newChild parent =>
    rcases newChild_cases h hroom with ⟨-, -, happly⟩ | ⟨entry, -, hinsert, hstill, -, happly⟩
    · rw [happly]
    · rw [happly, EventTable.lookup?_setEntry hstill, if_neg (Ne.symm hleaves.1),
        EventTable.lookup?_insert h hinsert, if_neg (Ne.symm hleaves.2)]
  | setCompleted completed value =>
    simp only [apply]
    cases hentry : list.table.lookup? completed with
    | none => rw [setCompleted_of_unknown hentry]
    | some entry => rw [table_setCompleted hentry, EventTable.lookup?_setEntry hentry, if_neg (Ne.symm hleaves)]
  | remove removed => exact EventTable.lookup?_removeTree_of_not_linked hleaves
  | enterWait awaited => rfl
  | stepWaiter number =>
    rcases apply_stepWaiter list number with hsame | hstep
    · rw [hsame]
    · obtain ⟨waiter, waiter', hwaiter, hmoved, -⟩ := stepWaiter?_eq_some hstep
      have hother := hleaves waiter hwaiter
      cases (Waiter.move hmoved).2 with
      | leave top outer calls unknown table_eq | fallAsleep top outer calls found table_eq => rw [table_eq]
      | reap top outer calls found table_eq =>
        rw [table_eq, EventTable.lookup?_remove, if_neg]
        rintro rfl
        simp [calls] at hother
      | descend top outer calls completed child rest found table_eq =>
        rw [table_eq, EventTable.lookup?_setEntry found, if_neg]
        rintro rfl
        simp [calls] at hother

end Operations

end WaitList

end ComputeCore
