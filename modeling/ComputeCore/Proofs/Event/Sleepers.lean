import Mathlib.Data.List.Induction
import ComputeCore.Proofs.Event.Operations
/-!
# Who sleeps, and on what

Only an event that turns completed wakes a waiter. That is enough as long as a sleeper's event can
leave the table in no other way than by being completed and reaped, and then every waiter at rest is
inside a wait for an event that is there and not completed (`WaitList.Attended`). Removing an event
is the other way: it wakes nobody, so a thread that sleeps on an event that is removed under it
stays inside its wait for good. `attended_iff_not_stranded` says that this is the only way to be
left behind, and always is one.
-/

namespace ComputeCore

/-- The handle names an event that is not completed. -/
def EventTable.Pending (table : EventTable) (event : Event) : Prop :=
  ∃ entry, table.lookup? event = some entry ∧ entry.completed = false

namespace WaitList

/-- Every thread inside `wait` is there for an event that is live and not completed. -/
def Attended (list : WaitList) : Prop :=
  ∀ waiter ∈ list.waiters, ∀ event outer, waiter.calls = event :: outer → list.table.Pending event

/-- Every sleeping thread is. -/
def SleepersPend (list : WaitList) : Prop :=
  ∀ waiter ∈ list.waiters, waiter.asleep = true →
    ∃ event outer, waiter.calls = event :: outer ∧ list.table.Pending event

/-- Removing `event` takes the event out on which some thread sleeps. -/
def Strands (list : WaitList) (event : Event) : Prop :=
  ∃ waiter ∈ list.waiters, waiter.asleep = true ∧ ∃ sleptOn outer, waiter.calls = sleptOn :: outer ∧
    list.table.knows sleptOn = true ∧ (list.table.removeTree event).knows sleptOn = false

section Sleepers
variable {list list' : WaitList} {number : Nat} {event : Event}

/-! ## Sleepers that are not left behind -/

/-- A thread at rest inside `wait` sleeps. -/
theorem SleepersPend.attended (h : list.SleepersPend) (hrest : list.AtRest) : list.Attended := by
  intro waiter hwaiter event outer hcalls
  rcases Waiter.asleep_of_step (step_eq_none hrest hwaiter) with hasleep | hreturned
  · obtain ⟨event', outer', hcalls', hpending⟩ := h waiter hwaiter hasleep
    obtain ⟨rfl, -⟩ := by simpa [hcalls] using hcalls'
    exact hpending
  · simp [hcalls] at hreturned

/-- It is enough that what was pending still is. -/
theorem SleepersPend.mono (h : list.SleepersPend)
    (hwaiters : ∀ waiter ∈ list'.waiters, waiter.asleep = true → waiter ∈ list.waiters)
    (htable : ∀ event, list.table.Pending event → list'.table.Pending event) : list'.SleepersPend := by
  intro waiter hwaiter hasleep
  obtain ⟨event, outer, hcalls, hpending⟩ := h waiter (hwaiters waiter hwaiter hasleep) hasleep
  exact ⟨event, outer, hcalls, htable event hpending⟩

theorem pending_insert {table : EventTable} (h : table.Pending event) :
    table.insert.2.Pending event := by
  obtain ⟨entry, hentry, hcompleted⟩ := h
  rcases EventTable.lookup?_insert_of_some hentry with hkept | hfresh
  · exact ⟨entry, hkept, hcompleted⟩
  · exact ⟨_, hfresh, rfl⟩

/-- An event that keeps its flag, or is not completed any more, leaves what is pending as it is. -/
theorem pending_setEntry {table : EventTable} {changed : Event} {old entry : EventEntry}
    (hold : table.lookup? changed = some old) (hflag : old.completed = false → entry.completed = false)
    (h : table.Pending event) : (table.setEntry changed entry).Pending event := by
  obtain ⟨found, hfound, hcompleted⟩ := h
  unfold EventTable.Pending
  rw [EventTable.lookup?_setEntry hold]
  by_cases heq : event = changed
  · obtain rfl : old = found := by simpa [heq, hold] using hfound
    exact ⟨entry, by simp [heq], hflag hcompleted⟩
  · exact ⟨found, by simp [heq, hfound], hcompleted⟩

theorem SleepersPend.newEvent (h : list.SleepersPend) : list.newEvent.2.SleepersPend :=
  h.mono (fun _ hwaiter _ => hwaiter) fun _ hpending => pending_insert hpending

theorem SleepersPend.newChild (h : list.SleepersPend) (parent : Event) :
    (list.apply (.newChild parent)).SleepersPend := by
  cases hknows : list.table.knows parent with
  | false => rwa [apply_newChild_of_unknown hknows]
  | true =>
    obtain ⟨entry, hentry, happly⟩ := apply_newChild_of_known hknows
    rw [happly]
    refine h.mono (fun _ hwaiter _ => hwaiter) fun event hpending => ?_
    exact pending_setEntry hentry id (pending_insert hpending)

/-- A completion wakes everybody; any other change of a flag completes nothing. -/
theorem SleepersPend.setCompleted (h : list.SleepersPend) (event : Event) (value : Bool) :
    (list.setCompleted event value).SleepersPend := by
  cases hentry : list.table.lookup? event with
  | none => rwa [setCompleted_of_unknown hentry]
  | some entry =>
    by_cases hwakes : (value && !entry.completed) = true
    · intro waiter hwaiter hasleep
      rw [waiters_setCompleted hentry, if_pos hwakes] at hwaiter
      obtain ⟨before, -, rfl⟩ := Array.mem_map.1 hwaiter
      simp [Waiter.wake] at hasleep
    · refine h.mono (fun waiter hwaiter _ => ?_) fun other hpending => ?_
      · rwa [waiters_setCompleted hentry, if_neg hwakes] at hwaiter
      · rw [table_setCompleted hentry]
        refine pending_setEntry hentry (fun hopen => ?_) hpending
        simpa [hopen] using hwakes

/-- A waiter's own step changes no flag, and reaps only a completed event. -/
theorem pending_move {table table' : EventTable} {waiter waiter' : Waiter}
    (hmove : waiter.Move table table' waiter') (h : table.Pending event) : table'.Pending event := by
  cases hmove with
  | leave reaped outer calls unknown table_eq waiter_eq => exact table_eq ▸ h
  | fallAsleep reaped outer calls found table_eq waiter_eq => exact table_eq ▸ h
  | descend parent outer calls completed child rest found table_eq waiter_eq =>
    exact table_eq ▸ pending_setEntry found id h
  | reap reaped outer calls found table_eq waiter_eq =>
    obtain ⟨entry, hentry, hcompleted⟩ := h
    have hne : event ≠ reaped := by
      rintro rfl
      simp [found] at hentry
      simp [← hentry] at hcompleted
    exact ⟨entry, by rw [table_eq, EventTable.lookup?_remove, if_neg hne, hentry], hcompleted⟩

theorem SleepersPend.stepWaiter (h : list.SleepersPend)
    (hstep : list.stepWaiter? number = some list') : list'.SleepersPend := by
  obtain ⟨waiter, waiter', hnumber, hstep, hwaiters⟩ := stepWaiter?_eq_some hstep
  obtain ⟨hawake, hmove⟩ := Waiter.move hstep
  intro other hother hasleep
  rcases Array.mem_or_eq_of_mem_setIfInBounds (hwaiters ▸ hother) with hother | rfl
  · obtain ⟨event, outer, hcalls, hpending⟩ := h other hother hasleep
    exact ⟨event, outer, hcalls, pending_move hmove hpending⟩
  · cases hmove with
    | leave event outer calls unknown table_eq waiter_eq => simp [waiter_eq] at hasleep
    | reap event outer calls found table_eq waiter_eq => simp [waiter_eq] at hasleep
    | descend event outer calls completed child rest found table_eq waiter_eq =>
      simp [waiter_eq] at hasleep
    | fallAsleep event outer calls found table_eq waiter_eq =>
      exact ⟨event, outer, by simp [waiter_eq, calls], _, table_eq ▸ found, rfl⟩

/-- A removal that takes out no event on which a thread sleeps leaves every sleeper as it is. -/
theorem SleepersPend.remove (h : list.SleepersPend) (hsafe : ¬ list.Strands event) :
    (list.remove event).SleepersPend := by
  intro waiter hwaiter hasleep
  obtain ⟨sleptOn, outer, hcalls, entry, hentry, hcompleted⟩ := h waiter hwaiter hasleep
  refine ⟨sleptOn, outer, hcalls, entry, ?_, hcompleted⟩
  rcases EventTable.lookup?_removeTree list.table event sleptOn with hkept | hgone
  · exact hkept.trans hentry
  · exact absurd ⟨waiter, hwaiter, hasleep, sleptOn, outer, hcalls,
      EventTable.knows_iff.2 ⟨entry, hentry⟩, by simp [EventTable.knows, hgone]⟩ hsafe

theorem SleepersPend.apply (h : list.SleepersPend) (op : EventOp)
    (hsafe : ∀ event, op = .remove event → ¬ list.Strands event) : (list.apply op).SleepersPend := by
  cases op with
  | newEvent => exact h.newEvent
  | newChild parent => exact h.newChild parent
  | setCompleted event value => exact h.setCompleted event value
  | remove event => exact h.remove (hsafe event rfl)
  | enterWait event =>
    intro waiter hwaiter hasleep
    rcases Array.mem_push.1 hwaiter with hwaiter | rfl
    · exact h waiter hwaiter hasleep
    · simp at hasleep
  | stepWaiter number =>
    rcases apply_stepWaiter list number with hsame | hstep
    · rwa [hsame]
    · exact h.stepWaiter hstep

/-- Along a run that strands nobody. By induction on the run, from its end. -/
theorem sleepersPend_after (ops : List EventOp)
    (hsafe : ∀ before event, before ++ [.remove event] <+: ops → ¬ (after before).Strands event) :
    (after ops).SleepersPend := by
  induction ops using List.reverseRecOn with
  | nil => simp [after, applyAll, SleepersPend]
  | append_singleton ops op ih =>
    rw [after_concat]
    refine (ih fun before event hbefore => ?_).apply op ?_
    · exact hsafe before event (hbefore.trans (List.prefix_append ops [op]))
    · rintro event rfl
      exact hsafe ops event (List.prefix_refl _)

theorem SleepersPend.applyAll (h : list.SleepersPend) (turns : List Nat) :
    (list.applyAll (turns.map EventOp.stepWaiter)).SleepersPend := by
  induction turns generalizing list with
  | nil => exact h
  | cons number turns ih => exact ih (h.apply (.stepWaiter number) fun _ heq => nomatch heq)

/-! ## Sleepers that are -/

/-- Some thread sleeps on a handle that names nothing. -/
def HasStranded (list : WaitList) : Prop :=
  ∃ waiter ∈ list.waiters, waiter.asleep = true ∧
    ∃ event outer, waiter.calls = event :: outer ∧ list.table.lookup? event = none

theorem Strands.hasStranded (h : list.Strands event) : (list.remove event).HasStranded := by
  obtain ⟨waiter, hwaiter, hasleep, sleptOn, outer, hcalls, -, hgone⟩ := h
  exact ⟨waiter, hwaiter, hasleep, sleptOn, outer, hcalls, EventTable.lookup?_eq_none hgone⟩

theorem lookup?_eq_none_move {table table' : EventTable} {waiter waiter' : Waiter}
    (hmove : waiter.Move table table' waiter') (h : table.lookup? event = none) :
    table'.lookup? event = none := by
  cases hmove with
  | leave other outer calls unknown table_eq waiter_eq => exact table_eq ▸ h
  | fallAsleep other outer calls found table_eq waiter_eq => exact table_eq ▸ h
  | reap other outer calls found table_eq waiter_eq =>
    rw [table_eq, EventTable.lookup?_remove, h]
    exact ite_self none
  | descend other outer calls completed child rest found table_eq waiter_eq =>
    have hne : event ≠ other := by
      rintro rfl
      simp [found] at h
    rw [table_eq, EventTable.lookup?_setEntry found, if_neg hne, h]

/-- No waiter wakes a thread that was left behind. -/
theorem HasStranded.stepWaiter (h : list.HasStranded)
    (hstep : list.stepWaiter? number = some list') : list'.HasStranded := by
  obtain ⟨stranded, hmem, hasleep, event, outer, hcalls, hgone⟩ := h
  obtain ⟨waiter, waiter', hnumber, hmoved, hwaiters⟩ := stepWaiter?_eq_some hstep
  obtain ⟨hawake, hmove⟩ := Waiter.move hmoved
  refine ⟨stranded, ?_, hasleep, event, outer, hcalls, lookup?_eq_none_move hmove hgone⟩
  obtain ⟨place, hplace⟩ := Array.mem_iff_getElem?.1 hmem
  -- The thread that moves was awake, so it is another one.
  have hne : number ≠ place := by
    rintro rfl
    obtain rfl : stranded = waiter := by simpa [hplace] using hnumber
    simp [hawake] at hasleep
  refine Array.mem_iff_getElem?.2 ⟨place, ?_⟩
  rw [getElem?_stepWaiter hnumber hwaiters, if_neg hne, hplace]

theorem HasStranded.applyAll (h : list.HasStranded) (turns : List Nat) :
    (list.applyAll (turns.map EventOp.stepWaiter)).HasStranded := by
  induction turns generalizing list with
  | nil => exact h
  | cons number turns ih =>
    have hfirst : (list.apply (.stepWaiter number)).HasStranded := by
      rcases apply_stepWaiter list number with hsame | hstep
      · rwa [hsame]
      · exact h.stepWaiter hstep
    exact ih hfirst

theorem HasStranded.not_attended (h : list.HasStranded) : ¬ list.Attended := by
  intro hattended
  obtain ⟨waiter, hwaiter, -, event, outer, hcalls, hgone⟩ := h
  obtain ⟨entry, hentry, -⟩ := hattended waiter hwaiter event outer hcalls
  simp [hgone] at hentry

end Sleepers

/-! ## Nobody is left behind -/

/-- Whenever the waiters have come to rest during a run, each thread still inside `wait` is there for
an event that is live and not completed, exactly if no removal in the run takes out an event on which
a thread sleeps. -/
theorem attended_iff_not_stranded (ops : List EventOp) :
    (∀ before (turns : List Nat), before <+: ops →
      (after (before ++ turns.map EventOp.stepWaiter)).AtRest →
        (after (before ++ turns.map EventOp.stepWaiter)).Attended) ↔
    ∀ before event, before ++ [.remove event] <+: ops → ¬ (after before).Strands event := by
  constructor
  · -- A stranding removal, once the waiters have come to rest after it, is not attended.
    intro hattended before event hbefore hstrands
    obtain ⟨turns, hrest⟩ := exists_rest (after (before ++ [.remove event]))
    have hstranded : (after (before ++ [.remove event])).HasStranded := by
      rw [after_concat]
      exact hstrands.hasStranded
    refine (hstranded.applyAll turns).not_attended ?_
    rw [← after_append] at hrest ⊢
    exact hattended _ turns hbefore hrest
  · intro hsafe before turns hbefore hrest
    refine SleepersPend.attended ?_ hrest
    rw [after_append]
    refine (sleepersPend_after before fun start event hstart => ?_).applyAll turns
    exact hsafe start event (hstart.trans hbefore)

/-- A thread waits for an event, falls asleep, and the event is removed. -/
def strandingRun : List EventOp :=
  [.newEvent, .enterWait ⟨0, 0⟩, .stepWaiter 0, .remove ⟨0, 0⟩]

/-- Not every wait list at rest is attended: after `strandingRun` nobody can take a step, and the
thread is inside a wait for a handle that names nothing. -/
theorem stranded_by_removal : ¬ ∀ ops, (after ops).AtRest → (after ops).Attended := by
  intro hall
  have hrest : (after strandingRun).AtRest
    | 0 => by decide
    | _ + 1 => rfl
  have hmem : { calls := [⟨0, 0⟩], asleep := true } ∈ (after strandingRun).waiters :=
    Array.mem_iff_getElem?.2 ⟨0, rfl⟩
  have hgone : EventTable.lookup? (after strandingRun).table ⟨0, 0⟩ = none := by decide
  obtain ⟨entry, hentry, -⟩ := hall strandingRun hrest _ hmem ⟨0, 0⟩ [] rfl
  simp [hgone] at hentry

end WaitList

end ComputeCore
