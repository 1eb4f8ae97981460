import ComputeCore.Proofs.Event.Names
import ComputeCore.Proofs.Event.Sleepers
/-!
# Events still to be completed

Nobody but who completes or removes an event takes it out of the table. Until then every operation
leaves it there, whatever it does to the links (`lookup?_apply_of_pending`); and an event comes into the
table only as the answer of an operation that makes one (`knows_of_apply`). So a wait that returns has
not found its event pending, and leaves it gone (`returned_gone`).
-/

namespace ComputeCore

theorem EventTable.pending_iff {table : EventTable} {event : Event} :
    table.Pending event ↔ ∃ linked, table.lookup? event = some { completed := false, linked } := by
  constructor
  · rintro ⟨⟨completed, linked⟩, hentry, rfl⟩
    exact ⟨linked, hentry⟩
  · rintro ⟨linked, hentry⟩
    exact ⟨_, hentry, rfl⟩

/-- An event without links is removed alone. -/
theorem Linked.eq_of_unlinked {lookup? : Event → Option EventEntry} {top other : Event}
    {entry : EventEntry} (h : Linked lookup? top other) (hfound : lookup? top = some entry)
    (hunlinked : entry.linked = []) : other = top := by
  induction h with
  | self => rfl
  | link _ found member ih =>
    rw [ih, hfound, Option.some.injEq] at found
    rw [← found, hunlinked] at member
    exact absurd member List.not_mem_nil

namespace WaitList

/-- The operation neither completes nor removes the event. -/
def Spares (list : WaitList) (event : Event) : EventOp → Prop
  | .setCompleted completed _ => completed ≠ event
  | .remove removed => ¬ Linked list.table.lookup? removed event
  | _ => True

section Operations
variable {list list' : WaitList} {op : EventOp} {event : Event} {linked : List Event}

theorem wellFormed_apply (h : list.table.WellFormed) (op : EventOp) :
    (list.apply op).table.WellFormed :=
  apply_keeps (fun _ htable => htable.insert) (fun _ _ _ _ htable hold _ => htable.setEntry hold)
    (fun _ event htable => htable.remove event) h

/-- A pending event stays pending through every operation that spares it, and gets no link but a new
child of its own. -/
theorem lookup?_apply_of_pending (h : list.table.WellFormed) (hroom : (list.apply op).table.Numbered)
    (hspares : list.Spares event op)
    (hentry : list.table.lookup? event = some { completed := false, linked }) :
    ∃ linked', (list.apply op).table.lookup? event = some { completed := false, linked := linked' } ∧
      (op ≠ .newChild event → linked = [] → linked' = []) := by
  have hknown : list.table.knows event = true := EventTable.knows_iff.2 ⟨_, hentry⟩
  have hfresh (hinsert : list.table.insert.2.Numbered) :
      EventTable.lookup? list.table.insert.2 event = some { completed := false, linked } := by
    have hne : event ≠ list.table.insert.1 := fun heq =>
      EventTable.insert_fresh h hinsert hentry (congrArg Event.index heq)
    rw [EventTable.lookup?_insert h hinsert, if_neg hne, hentry]
  cases op with
  | newEvent => exact ⟨linked, hfresh hroom, fun _ => id⟩
  | newChild parent =>
    rcases newChild_cases h hroom with ⟨-, -, happly⟩ | ⟨entry, hparent, hinsert, hstill, -, happly⟩
    · exact ⟨linked, by rw [happly, hentry], fun _ => id⟩
    · rw [happly]
      simp only [EventTable.lookup?_setEntry hstill]
      split
      · next heq =>
        subst heq
        obtain rfl := Option.some.inj (hparent.symm.trans hentry)
        exact ⟨_, rfl, fun hother => absurd rfl hother⟩
      · exact ⟨linked, hfresh hinsert, fun _ => id⟩
  | setCompleted completed value =>
    refine ⟨linked, ?_, fun _ => id⟩
    simp only [apply]
    cases hold : list.table.lookup? completed with
    | none => rw [setCompleted_of_unknown hold, hentry]
    | some entry =>
      rw [table_setCompleted hold, EventTable.lookup?_setEntry hold, if_neg (Ne.symm hspares), hentry]
  | remove removed =>
    exact ⟨linked, (EventTable.lookup?_removeTree_of_not_linked hspares).trans hentry, fun _ => id⟩
  | enterWait awaited => exact ⟨linked, hentry, fun _ => id⟩
  | stepWaiter number =>
    rcases apply_stepWaiter list number with hsame | hstep
    · exact ⟨linked, by rw [hsame, hentry], fun _ => id⟩
    · obtain ⟨waiter, waiter', -, hmoved, -⟩ := stepWaiter?_eq_some hstep
      cases (Waiter.move hmoved).2 with
      | leave awaited outer calls unknown table_eq =>
        exact ⟨linked, by rw [table_eq, hentry], fun _ => id⟩
      | reap awaited outer calls found table_eq =>
        -- Only a completed event is reaped.
        have hne : event ≠ awaited := by
          rintro rfl
          simp [hentry] at found
        exact ⟨linked, by rw [table_eq, EventTable.lookup?_remove, if_neg hne, hentry], fun _ => id⟩
      | fallAsleep awaited outer calls found table_eq =>
        exact ⟨linked, by rw [table_eq, hentry], fun _ => id⟩
      | descend awaited outer calls completed child rest found table_eq =>
        rw [table_eq, EventTable.lookup?_setEntry found]
        split
        · next heq =>
          subst heq
          obtain ⟨rfl, rfl⟩ : completed = false ∧ child :: rest = linked := by
            simpa [hentry, eq_comm] using found
          exact ⟨rest, rfl, fun _ hnone => by simp at hnone⟩
        · exact ⟨linked, hentry, fun _ => id⟩

theorem pending_apply (h : list.table.WellFormed) (hroom : (list.apply op).table.Numbered)
    (hspares : list.Spares event op) (hpending : list.table.Pending event) :
    (list.apply op).table.Pending event := by
  obtain ⟨linked, hentry⟩ := EventTable.pending_iff.1 hpending
  obtain ⟨linked', hentry', -⟩ := lookup?_apply_of_pending h hroom hspares hentry
  exact EventTable.pending_iff.2 ⟨linked', hentry'⟩

/-- What is handed out named nothing before, and names a fresh event then. -/
theorem lookup?_of_made (h : list.table.WellFormed) (hroom : (list.apply op).table.Numbered)
    (hmade : event ∈ (list.answer op).names) :
    list.table.lookup? event = none ∧ (list.apply op).table.lookup? event = some {} := by
  have hunknown (hinsert : list.table.insert.2.Numbered) :
      list.table.lookup? list.table.insert.1 = none := by
    cases hentry : list.table.lookup? list.table.insert.1 with
    | none => rfl
    | some entry => exact absurd rfl (EventTable.insert_fresh h hinsert hentry)
  cases op with
  | newEvent =>
    obtain rfl := List.mem_singleton.1 hmade
    exact ⟨hunknown hroom, (EventTable.lookup?_insert h hroom).trans (if_pos rfl)⟩
  | newChild parent =>
    rcases newChild_cases h hroom with ⟨-, hanswer, -⟩ | ⟨entry, hparent, hinsert, hstill, hanswer, happly⟩
    · rw [hanswer] at hmade
      exact absurd hmade List.not_mem_nil
    · rw [hanswer] at hmade
      obtain rfl := List.mem_singleton.1 hmade
      have hne : list.table.insert.1 ≠ parent := by
        intro heq
        rw [← heq, hunknown hinsert] at hparent
        exact absurd hparent (by simp)
      refine ⟨hunknown hinsert, ?_⟩
      rw [happly, EventTable.lookup?_setEntry hstill, if_neg hne, EventTable.lookup?_insert h hinsert,
        if_pos rfl]
  | _ => exact absurd hmade List.not_mem_nil

/-- What is in the table was there before, or has just been handed out. -/
theorem knows_of_apply (h : list.table.WellFormed) (hroom : (list.apply op).table.Numbered)
    (hknows : (list.apply op).table.knows event = true) :
    list.table.knows event = true ∨ event ∈ (list.answer op).names := by
  cases op with
  | newEvent =>
    unfold EventTable.knows at hknows ⊢
    rw [show EventTable.lookup? (list.apply .newEvent).table event = _ from
      EventTable.lookup?_insert h hroom] at hknows
    split at hknows
    · next heq => exact .inr (List.mem_singleton.2 heq)
    · exact .inl hknows
  | newChild parent =>
    rcases newChild_cases h hroom with ⟨-, -, happly⟩ | ⟨entry, -, hinsert, hstill, hanswer, happly⟩
    · exact .inl (happly ▸ hknows)
    · rw [happly, EventTable.knows_setEntry hstill] at hknows
      unfold EventTable.knows at hknows ⊢
      rw [EventTable.lookup?_insert h hinsert] at hknows
      split at hknows
      · next heq => exact .inr (hanswer ▸ List.mem_singleton.2 heq)
      · exact .inl hknows
  | setCompleted completed value =>
    refine .inl ?_
    simp only [apply] at hknows
    cases hold : list.table.lookup? completed with
    | none => rwa [setCompleted_of_unknown hold] at hknows
    | some entry => rwa [table_setCompleted hold, EventTable.knows_setEntry hold] at hknows
  | remove removed =>
    refine .inl ?_
    unfold EventTable.knows at hknows ⊢
    rcases EventTable.lookup?_removeTree list.table removed event with hkept | hgone
    · rwa [show (list.apply (.remove removed)).table.lookup? event = _ from hkept] at hknows
    · rw [show (list.apply (.remove removed)).table.lookup? event = _ from hgone] at hknows
      simp at hknows
  | enterWait awaited => exact .inl hknows
  | stepWaiter number =>
    refine .inl ?_
    rcases apply_stepWaiter list number with hsame | hstep
    · rwa [hsame] at hknows
    · obtain ⟨waiter, waiter', -, hmoved, -⟩ := stepWaiter?_eq_some hstep
      cases (Waiter.move hmoved).2 with
      | leave awaited outer calls unknown table_eq => rwa [table_eq] at hknows
      | reap awaited outer calls found table_eq =>
        unfold EventTable.knows at hknows ⊢
        rw [table_eq, EventTable.lookup?_remove] at hknows
        split at hknows
        · simp at hknows
        · exact hknows
      | fallAsleep awaited outer calls found table_eq => rwa [table_eq] at hknows
      | descend awaited outer calls completed child rest found table_eq =>
        rwa [table_eq, EventTable.knows_setEntry found] at hknows

end Operations

/-! ## Returning -/

/-- The event whose wait ends with a step that leads from one list to another. -/
def returned? (list list' : WaitList) (number : Nat) : Option Event :=
  match list.waiters[number]?, list'.waiters[number]? with
  | some { calls := [event], .. }, some { calls := [], .. } => some event
  | _, _ => none

/-- When a wait for an event ends, the event was not pending, and is gone. -/
theorem returned_gone {list list' : WaitList} {number : Nat} {event : Event}
    (hstep : list.stepWaiter? number = some list') (h : list.returned? list' number = some event) :
    ¬ list.table.Pending event ∧ list'.table.knows event = false := by
  obtain ⟨waiter, waiter', hwaiter, hmoved, hwaiters⟩ := stepWaiter?_eq_some hstep
  have hafter := getElem?_stepWaiter hwaiter hwaiters number
  rw [if_pos rfl] at hafter
  obtain ⟨hcalls, hcalls'⟩ : waiter.calls = [event] ∧ waiter'.calls = [] := by
    obtain ⟨calls, asleep⟩ := waiter
    obtain ⟨calls', asleep'⟩ := waiter'
    simp only [returned?, hwaiter, hafter] at h
    split at h <;> simp_all
  cases (Waiter.move hmoved).2 with
  | leave awaited outer calls unknown table_eq =>
    obtain ⟨rfl, -⟩ : event = awaited ∧ [] = outer := by simpa [hcalls] using calls
    refine ⟨fun ⟨entry, hpending, _⟩ => ?_, by simp [EventTable.knows, table_eq, unknown]⟩
    simp [unknown] at hpending
  | reap awaited outer calls found table_eq =>
    obtain ⟨rfl, -⟩ : event = awaited ∧ [] = outer := by simpa [hcalls] using calls
    refine ⟨fun hpending => ?_, by simp [EventTable.knows, table_eq, EventTable.lookup?_remove]⟩
    obtain ⟨linked, hpending⟩ := EventTable.pending_iff.1 hpending
    simp [found] at hpending
  | fallAsleep awaited outer calls found table_eq waiter_eq => simp [waiter_eq, hcalls] at hcalls'
  | descend awaited outer calls completed child rest found table_eq waiter_eq =>
    simp [waiter_eq] at hcalls'

end WaitList

end ComputeCore
