import ComputeCore.Proofs.Event.Chronicle
/-!
# What has happened when a wait returns

A thread that waits for an event takes the events linked under it out, one after the other, and waits
for each of them; other threads that wait for the same event meanwhile do not see those links any
more. `under_completed_iff` says what a call of `wait` that has returned can rely on: everything that
was linked under its event was set completed, unless another thread has taken a branch out from under
it and is still waiting there. Without such a thread the call has waited for everything.
-/

namespace ComputeCore

namespace Chronicle

/-- Some thread is inside a wait for this event. -/
def Awaited (chronicle : Chronicle) (number : Nat) : Prop :=
  ∃ event, chronicle.Names event number ∧ chronicle.Held event

/-- The event is not there any more. -/
def Gone (chronicle : Chronicle) (number : Nat) : Prop :=
  ∀ event, ¬ chronicle.Names event number

/-- The outermost call of a thread is for this event. -/
def Outermost (chronicle : Chronicle) (thread : Nat) (event : Event) : Prop :=
  ∃ waiter, chronicle.list.waiters[thread]? = some waiter ∧ waiter.calls.getLast? = some event

section Waiting
variable {chronicle : Chronicle} {thread : Nat} {event : Event} {number : Nat}

/-! ## While a call lasts -/

/-- A call for another event than the outermost one may end. -/
theorem getLast?_outer {event inner : Event} {outer : List Event}
    (h : (inner :: outer).getLast? = some event) (hne : event ≠ inner) : outer.getLast? = some event := by
  cases outer with
  | nil => exact absurd (by simpa using h.symm) hne
  | cons => simpa using h

/-- The call for an event ends only when the event is gone before the step or after it. -/
theorem getLast?_move {table table' : EventTable} {waiter waiter' : Waiter}
    (hmove : waiter.Move table table' waiter') (hlast : waiter.calls.getLast? = some event)
    (hbefore : table.knows event = true) (hafter : table'.knows event = true) :
    waiter'.calls.getLast? = some event := by
  cases hmove with
  | leave inner outer calls unknown table_eq waiter_eq =>
    have hne : event ≠ inner := by
      rintro rfl
      simp [EventTable.knows, unknown] at hbefore
    simpa [waiter_eq] using getLast?_outer (calls ▸ hlast) hne
  | reap inner outer calls found table_eq waiter_eq =>
    have hne : event ≠ inner := by
      rintro rfl
      simp [EventTable.knows, table_eq, EventTable.lookup?_remove] at hafter
    simpa [waiter_eq] using getLast?_outer (calls ▸ hlast) hne
  | fallAsleep inner outer calls found table_eq waiter_eq => simpa [waiter_eq] using hlast
  | descend inner outer calls completed child rest found table_eq waiter_eq =>
    simpa [waiter_eq, calls] using hlast

/-- A thread stays inside its outermost call as long as the event of the call is there. -/
theorem Outermost.record (h : chronicle.Outermost thread event) (op : EventOp)
    (hbefore : chronicle.list.table.knows event = true)
    (hafter : (chronicle.record op).list.table.knows event = true) :
    (chronicle.record op).Outermost thread event := by
  obtain ⟨waiter, hwaiter, hlast⟩ := h
  unfold Outermost
  rw [list_record] at hafter ⊢
  by_cases hothers : ∀ turn, op ≠ .stepWaiter turn
  · obtain ⟨waiter', hwaiter', hcalls, -⟩ := WaitList.waiter_apply (hothers _) hwaiter
    exact ⟨waiter', hwaiter', hcalls ▸ hlast⟩
  · obtain ⟨turn, rfl⟩ : ∃ turn, op = .stepWaiter turn := by simpa using hothers
    rcases WaitList.apply_stepWaiter chronicle.list turn with hsame | hstep
    · exact ⟨waiter, by rw [hsame, hwaiter], hlast⟩
    · obtain ⟨mover, mover', hmover, hmoved, hwaiters⟩ := WaitList.stepWaiter?_eq_some hstep
      rw [WaitList.getElem?_stepWaiter hmover hwaiters]
      by_cases hturn : turn = thread
      · subst hturn
        obtain rfl : waiter = mover := by simpa [hwaiter] using hmover
        obtain ⟨-, hmove⟩ := Waiter.move hmoved
        exact ⟨mover', if_pos rfl, getLast?_move hmove hlast hbefore hafter⟩
      · exact ⟨waiter, by rw [if_neg hturn, hwaiter], hlast⟩

/-- So a run without removals leaves it there, or the event is gone. -/
theorem outermost_or_gone (ops : List EventOp) (h : chronicle.Sound)
    (hops : ∀ event, .remove event ∉ ops)
    (hroom : (chronicle.recordAll ops).list.table.Numbered)
    (hnumber : number < chronicle.parents.length)
    (hthread : (chronicle.Names event number ∧ chronicle.Outermost thread event) ∨
      chronicle.Gone number) :
    ((chronicle.recordAll ops).Names event number ∧
      (chronicle.recordAll ops).Outermost thread event) ∨ (chronicle.recordAll ops).Gone number := by
  induction ops generalizing chronicle with
  | nil => exact hthread
  | cons op ops ih =>
    -- No operation gives the number to another handle, so once gone it stays gone.
    have hfirst := room_apply hroom
    have hop : ∀ event, op ≠ .remove event := fun event heq => hops event (by simp [heq])
    have hback : ∀ event, (chronicle.record op).Names event number → chronicle.Names event number :=
      fun event => h.names_of_record hop hfirst hnumber
    refine ih (h.record hop hfirst) (fun event hmem => hops event (List.mem_cons_of_mem _ hmem)) hroom
      (Nat.lt_of_lt_of_le hnumber (parents_record chronicle op).length_le) ?_
    rcases hthread with ⟨hnames, houtermost⟩ | hgone
    · by_cases hstill : (chronicle.record op).Names event number
      · exact .inl ⟨hstill, houtermost.record op hnames.1 hstill.1⟩
      · refine .inr fun other hother => hstill ?_
        rwa [h.unique event other number hnames (hback other hother)]
    · exact .inr fun other hother => hgone other (hback other hother)

/-! ## When it has ended -/

/-- An event that was linked under one that is gone and is still there itself hangs below an event
that some thread waits for. By induction on the links that lead to it. -/
theorem Sound.awaited_above (h : chronicle.Sound) (hgone : chronicle.Gone number)
    {parents : List (Option Nat)} (hparents : parents <+: chronicle.parents) {low : Nat}
    (hunder : Under parents number low) (hlive : ∃ event, chronicle.Names event low) :
    ∃ top, Under parents number top ∧ chronicle.Awaited top ∧ (low = top ∨ Under parents top low) := by
  have hkept : ∀ {low : Nat} {parent}, parents[low]? = some parent → chronicle.parents[low]? = some parent := by
    intro low parent hparent
    obtain ⟨hlt, -⟩ := List.getElem?_eq_some_iff.1 hparent
    obtain ⟨more, hmore⟩ := hparents
    rw [← hmore, List.getElem?_append_left hlt, hparent]
  induction hunder with
  | @direct low hparent =>
    obtain ⟨event, hnames⟩ := hlive
    rcases h.linked event low number hnames (hkept hparent) with
      ⟨above, entry, habove, -, -⟩ | hheld
    · exact absurd habove (hgone above)
    · exact ⟨low, .direct hparent, ⟨event, hnames, hheld⟩, .inl rfl⟩
  | @through middle low hmiddle hparent ih =>
    obtain ⟨event, hnames⟩ := hlive
    rcases h.linked event low middle hnames (hkept hparent) with
      ⟨above, entry, habove, -, -⟩ | hheld
    · obtain ⟨top, htop, hawaited, rfl | hbelow⟩ := ih ⟨above, habove⟩
      · exact ⟨middle, htop, hawaited, .inr (.direct hparent)⟩
      · exact ⟨top, htop, hawaited, .inr (.through hbelow hparent)⟩
    · exact ⟨low, .through hmiddle hparent, ⟨event, hnames, hheld⟩, .inl rfl⟩

end Waiting

/-! ## When it has returned -/

/-- A call of `wait`: at the first moment, after `before`, its thread looks at the event and finds it
there; at the second one, after `later` as well, the thread has returned. -/
structure Returned (before later : List EventOp) (thread : Nat) (event : Event) (number : Nat) :
    Prop where
  /-- Nobody removes an event. -/
  kept : ∀ removed, .remove removed ∉ before ++ later
  /-- There are no more slots than numbers for them. -/
  room : (WaitList.after (before ++ later)).table.Numbered
  inside : ∃ waiter, (WaitList.after before).waiters[thread]? = some waiter ∧ waiter.calls = [event]
  found : (of before).Names event number
  returned : (WaitList.after (before ++ later)).isBlocked thread = false

section Returns
variable {before later : List EventOp} {thread : Nat} {event : Event} {number : Nat}

/-- The thread has left its event behind, and only because the event was gone. -/
theorem Returned.gone (h : Returned before later thread event number) (hbefore : (of before).Sound) :
    (of (before ++ later)).Gone number := by
  obtain ⟨waiter, hwaiter, hcalls⟩ := h.inside
  have hinside : (of before).Outermost thread event := ⟨waiter, by rwa [list_of], by simp [hcalls]⟩
  have hrun := outermost_or_gone later hbefore
    (fun event hmem => h.kept event (List.mem_append_right before hmem))
    (by rw [← of_append, list_of]; exact h.room) (hbefore.known event number h.found)
    (.inl ⟨h.found, hinside⟩)
  rw [← of_append] at hrun
  rcases hrun with ⟨-, waiter', hwaiter', hlast⟩ | hgone
  · rw [list_of] at hwaiter'
    have hempty : waiter'.calls = [] := by
      simpa [WaitList.isBlocked, hwaiter', Waiter.isBlocked] using h.returned
    simp [hempty] at hlast
  · exact hgone

/-- Everything that was linked under the event was set completed, or hangs below an event that some
thread waits for. -/
theorem Returned.completed_or_awaited (h : Returned before later thread event number) {low : Nat}
    (hlow : Under (of before).parents number low) : low ∈ (of (before ++ later)).completed ∨
      ∃ top, Under (of before).parents number top ∧ (of (before ++ later)).Awaited top ∧
        (low = top ∨ Under (of before).parents top low) := by
  have hbefore : (of before).Sound := by
    refine sound_of (fun event hmem => h.kept event (List.mem_append_left later hmem)) ?_
    have hroom := h.room
    rw [WaitList.after_append] at hroom
    exact Nat.le_trans (WaitList.size_applyAll _ later) hroom
  have hlater : (of (before ++ later)).Sound := sound_of h.kept h.room
  have hparents : (of before).parents <+: (of (before ++ later)).parents :=
    of_append before later ▸ parents_recordAll (of before) later
  by_cases hdone : low ∈ (of (before ++ later)).completed
  · exact .inl hdone
  · have hlive := hlater.live low (Nat.lt_of_lt_of_le hlow.lt_length hparents.length_le) hdone
    exact .inr (hlater.awaited_above (h.gone hbefore) hparents hlow hlive)

/-- Once nobody is inside `wait` any more, everything that was linked under an event whose wait has
returned was set completed. -/
theorem Returned.completed_of_none_waiting (h : Returned before later thread event number)
    (hnone : ∀ waiter ∈ (WaitList.after (before ++ later)).waiters, waiter.calls = []) {low : Nat}
    (hlow : Under (of before).parents number low) : low ∈ (of (before ++ later)).completed := by
  rcases h.completed_or_awaited hlow with hdone | ⟨top, -, ⟨event', -, waiter, hwaiter, hmem⟩, -⟩
  · exact hdone
  · rw [list_of] at hwaiter
    simp [hnone waiter hwaiter] at hmem

/-- When a wait has returned, everything that was linked under its event, directly or through other
events, was set completed, exactly if no other thread waits for one of these events while it, or
something linked under it, was never set completed. -/
theorem under_completed_iff (h : Returned before later thread event number) :
    (∀ low, Under (of before).parents number low → low ∈ (of (before ++ later)).completed) ↔
      ¬ ∃ top low, Under (of before).parents number top ∧ (of (before ++ later)).Awaited top ∧
        (low = top ∨ Under (of before).parents top low) ∧
        low ∉ (of (before ++ later)).completed := by
  constructor
  · rintro hall ⟨top, low, htop, -, rfl | hbelow, hopen⟩
    · exact hopen (hall low htop)
    · exact hopen (hall low (htop.trans hbelow))
  · intro hnone low hlow
    rcases h.completed_or_awaited hlow with hdone | ⟨top, htop, hawaited, hbelow⟩
    · exact hdone
    · by_contra hopen
      exact hnone ⟨top, low, htop, hawaited, hbelow, hopen⟩

end Returns

/-! ### Two calls -/

/-- A thread waits for an event with another one linked under it, both completed. -/
def loneWait : List EventOp :=
  [.newEvent, .newChild ⟨0, 0⟩, .setCompleted ⟨1, 0⟩ true, .setCompleted ⟨0, 0⟩ true,
    .enterWait ⟨0, 0⟩]

theorem under_completed_alone : ∃ later, Returned loneWait later 0 ⟨0, 0⟩ 0 ∧
    Under (of loneWait).parents 0 1 ∧ 1 ∈ (of (loneWait ++ later)).completed := by
  have hreturned : Returned loneWait [.stepWaiter 0, .stepWaiter 0, .stepWaiter 0] 0 ⟨0, 0⟩ 0 :=
    ⟨by simp [loneWait], by decide +kernel, ⟨{ calls := [⟨0, 0⟩] }, by decide +kernel, rfl⟩,
      ⟨by decide +kernel, by decide +kernel⟩, by decide +kernel⟩
  have hunder : Under (of loneWait).parents 0 1 := .direct (by decide +kernel)
  have hwaiters : (WaitList.after (loneWait ++ [.stepWaiter 0, .stepWaiter 0, .stepWaiter 0])).waiters =
      #[{ calls := [] }] := by decide +kernel
  refine ⟨_, hreturned, hunder, (under_completed_iff hreturned).2 ?_ 1 hunder⟩
  rintro ⟨top, low, -, ⟨event, -, waiter, hwaiter, hmem⟩, -⟩
  rw [list_of, hwaiters] at hwaiter
  obtain rfl : waiter = { calls := [] } := by simpa using hwaiter
  simp at hmem

/-- One thread takes the link out and sleeps on the event linked there, while a second one finds the
event above completed and without links. -/
def overlappingWaits : List EventOp :=
  [.newEvent, .newChild ⟨0, 0⟩, .enterWait ⟨0, 0⟩, .stepWaiter 0, .stepWaiter 0,
    .setCompleted ⟨0, 0⟩ true, .stepWaiter 0, .enterWait ⟨0, 0⟩]

/-- So a wait can return too early. -/
theorem returned_early : ¬ ∀ before later thread event number,
    Returned before later thread event number →
    ∀ low, Under (of before).parents number low → low ∈ (of (before ++ later)).completed := by
  intro hall
  have hreturned : Returned overlappingWaits [.stepWaiter 1] 1 ⟨0, 0⟩ 0 :=
    ⟨by simp [overlappingWaits], by decide +kernel, ⟨{ calls := [⟨0, 0⟩] }, by decide +kernel, rfl⟩,
      ⟨by decide +kernel, by decide +kernel⟩, by decide +kernel⟩
  have hunder : Under (of overlappingWaits).parents 0 1 := .direct (by decide +kernel)
  have hopen : 1 ∉ (of (overlappingWaits ++ [.stepWaiter 1])).completed := by decide +kernel
  exact hopen (hall _ _ _ _ _ hreturned 1 hunder)

end Chronicle

end ComputeCore
