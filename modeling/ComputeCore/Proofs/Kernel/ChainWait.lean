import ComputeCore.Proofs.Kernel.CopyChain
/-!
# The events of chained copies

All events of a chain but the first are linked under the first. The wait for it takes one link after the
other out, waits for that event and reaps it, and the first event at last (`CopyChain.Waiting.step`). What
others do to the wait list changes none of this (`CopyChain.Undisturbed`).
-/

namespace ComputeCore

namespace CopyChain

/-! ## The events of a chain -/

/-- The first event is there, and those `linked` under it; the `inner` one is waited for before them, and
those `gone` are not there any more. -/
structure Lined (chain : CopyChain) (live : Nat) (top : Event) (gone : List Event)
    (inner : Option Event) (linked : List Event) : Prop where
  events : chain.events = top :: (gone ++ inner.toList ++ linked)
  links : chain.table.links? top = some linked
  there : ∀ event ∈ inner.toList ++ linked, chain.table.links? event = some []
  gone : ∀ event ∈ gone, chain.table.links? event = none
  live : chain.alone = true → chain.table.live = live + (inner.toList.length + linked.length + 1)

/-- All events are gone. -/
structure Over (chain : CopyChain) (live : Nat) : Prop where
  gone : ∀ event ∈ chain.events, chain.table.links? event = none
  live : chain.alone = true → chain.table.live = live

/-- The thread `number` waits for the first event, and before that for the inner one. It sleeps only while
the event it waits for is pending. -/
structure Waiting (chain : CopyChain) (live number : Nat) (top : Event) (gone : List Event)
    (inner : Option Event) (linked : List Event) : Prop extends Lined chain live top gone inner linked where
  waiter : ∃ waiter, chain.shared.events.waiters[number]? = some waiter ∧ waiter.calls = inner.toList ++ [top] ∧
    (waiter.asleep = true → ∃ event outer, waiter.calls = event :: outer ∧ chain.table.Pending event)

/-- The work-item's events are as they were, apart from their flags. -/
structure SameLinks (chain chain' : CopyChain) : Prop where
  events : chain'.events = chain.events
  links : ∀ event ∈ chain.events, chain'.table.links? event = chain.table.links? event
  live : chain'.alone = true → chain.alone = true ∧ chain'.table.live = chain.table.live

/-- The work-item is where it was, and so is its wait. Its waiter may have been woken. -/
structure Undisturbed (chain chain' : CopyChain) : Prop extends SameLinks chain chain' where
  process : chain'.process = chain.process
  copies : chain'.copies = chain.copies
  waiter : ∀ number, chain.Waits number → ∀ waiter, chain.shared.events.waiters[number]? = some waiter →
    ∃ waiter', chain'.shared.events.waiters[number]? = some waiter' ∧ waiter'.calls = waiter.calls ∧
      (waiter'.asleep = true → waiter.asleep = true ∧
        ∀ event ∈ chain.events, chain.table.Pending event → chain'.table.Pending event)

section Events
variable {chain chain' : CopyChain} {live number : Nat} {top child signal : Event} {gone linked : List Event}
  {inner : Option Event} {list : WaitList}

theorem Lined.same (h : chain.Lined live top gone inner linked) (hsame : chain.SameLinks chain') :
    chain'.Lined live top gone inner linked where
  events := hsame.events.trans h.events
  links := (hsame.links top (by simp [h.events])).trans h.links
  there event hevent := by
    rw [hsame.links event, h.there event hevent]
    rw [h.events, List.append_assoc]
    exact List.mem_cons_of_mem _ (List.mem_append_right _ hevent)
  gone event hevent := by
    rw [hsame.links event, h.gone event hevent]
    simp [h.events, hevent]
  live halone := by
    obtain ⟨halone, hlive⟩ := hsame.live halone
    rw [hlive, h.live halone]

theorem Over.same (h : chain.Over live) (hsame : chain.SameLinks chain') : chain'.Over live where
  gone event hevent := by
    rw [hsame.events] at hevent
    rw [hsame.links event hevent, h.gone event hevent]
  live halone := by
    obtain ⟨halone, hlive⟩ := hsame.live halone
    rw [hlive, h.live halone]

/-- What is waited for is one of the events. -/
theorem Lined.mem_of_calls {event : Event} {outer : List Event} (h : chain.Lined live top gone inner linked)
    (hcalls : inner.toList ++ [top] = event :: outer) : event ∈ chain.events := by
  have hmem : event ∈ inner.toList ++ [top] := by
    rw [hcalls]
    exact List.mem_cons_self
  rw [h.events]
  simp only [List.mem_append, List.mem_cons, List.not_mem_nil, or_false] at hmem ⊢
  tauto

theorem Waiting.undisturbed (h : chain.Waiting live number top gone inner linked)
    (hsame : chain.Undisturbed chain') (hmine : chain.Waits number) :
    chain'.Waiting live number top gone inner linked where
  toLined := h.toLined.same hsame.toSameLinks
  waiter := by
    obtain ⟨waiter, hwaiter, hcalls, hasleep⟩ := h.waiter
    obtain ⟨waiter', hwaiter', hcalls', hsleeps⟩ := hsame.waiter number hmine waiter hwaiter
    refine ⟨waiter', hwaiter', hcalls'.trans hcalls, fun hasleep' => ?_⟩
    obtain ⟨hbefore, hpending⟩ := hsleeps hasleep'
    obtain ⟨event, outer, htop, hevent⟩ := hasleep hbefore
    exact ⟨event, outer, hcalls'.trans htop, hpending event (h.mem_of_calls (hcalls.symm.trans htop)) hevent⟩

/-- The first event is made. -/
theorem Lined.first (hnone : chain.events = []) (hlive : chain.alone = true → chain.table.live = live)
    (hmade : chain.shared.events.Made list top none) (hevents : chain'.shared.events = list)
    (hmore : chain'.events = chain.events ++ [top]) (halone : chain'.alone = chain.alone) :
    chain'.Lined live top [] none [] where
  events := by
    rw [hmore, hnone]
    rfl
  links := by
    rw [table, hevents, hmade.links, if_pos rfl]
  there _ hevent := nomatch hevent
  gone _ hevent := nomatch hevent
  live hmine := by
    rw [table, hevents, hmade.live]
    exact congrArg (· + 1) (hlive (halone ▸ hmine))

/-- While copies are issued all events are there. -/
theorem Lined.not_mem_of_fresh (h : chain.Lined live top [] none linked)
    (hfresh : chain.table.lookup? signal = none) : signal ∉ chain.events := by
  have hnone := EventTable.links?_eq_none.2 hfresh
  rw [h.events]
  rintro (_ | ⟨_, hmem⟩)
  · simp [h.links] at hnone
  · simp [h.there signal hmem] at hnone

/-- A further event is linked under the first. -/
theorem Lined.made (h : chain.Lined live top [] none linked) (hnodup : chain.events.Nodup)
    (hmade : chain.shared.events.Made list signal (some top)) (hevents : chain'.shared.events = list)
    (hmore : chain'.events = chain.events ++ [signal]) (halone : chain'.alone = chain.alone) :
    chain'.Lined live top [] none (linked ++ [signal]) := by
  have hnew := h.not_mem_of_fresh hmade.fresh
  rw [h.events] at hnew hnodup
  simp only [List.nil_append, List.mem_cons, not_or] at hnew
  have hchild := (List.nodup_cons.1 hnodup).1
  have htable : chain'.table = list.table := congrArg WaitList.table hevents
  refine ⟨by simp [hmore, h.events], ?_, fun event hevent => ?_, by simp, fun hmine => ?_⟩
  · rw [htable, hmade.links, if_neg (Ne.symm hnew.1), if_pos rfl]
    exact congrArg (Option.map _) h.links
  · rw [htable, hmade.links]
    rcases List.mem_append.1 (show event ∈ linked ++ [signal] from hevent) with hevent | hevent
    · have hneTop : some top ≠ some event := fun heq => hchild (Option.some.inj heq ▸ hevent)
      have hneNew : event ≠ signal := fun heq => hnew.2 (heq ▸ hevent)
      rw [if_neg hneNew, if_neg hneTop]
      exact h.there event hevent
    · rw [if_pos (List.mem_singleton.1 hevent)]
  · have hlive := h.live (halone ▸ hmine)
    rw [htable, hmade.live]
    simp only [table, Option.toList_none, List.length_nil, List.length_append, List.length_cons] at hlive ⊢
    omega

/-! ## The wait -/

/-- The next link is taken out. -/
theorem Lined.descend (h : chain.Lined live top gone none (child :: linked)) (hnodup : chain.events.Nodup)
    {completed : Bool} (hfound : chain.table.lookup? top = some { completed, linked := child :: linked })
    (htable : chain'.table = chain.table.setEntry top { completed, linked })
    (hevents : chain'.events = chain.events) (halone : chain'.alone = chain.alone) :
    chain'.Lined live top gone (some child) linked := by
  have hlive : chain'.table.live = chain.table.live := by
    rw [htable]
    rfl
  have hlinks : ∀ event, event ≠ top → chain'.table.links? event = chain.table.links? event := by
    intro event hne
    rw [htable, EventTable.links?_setEntry hfound, if_neg hne]
  have hchild := (List.nodup_cons.1 (h.events ▸ hnodup)).1
  refine ⟨by simp [hevents, h.events], ?_, fun event hevent => ?_, fun event hevent => ?_, fun hmine => ?_⟩
  · rw [htable, EventTable.links?_setEntry hfound, if_pos rfl]
  · rw [hlinks event, h.there event hevent]
    rintro rfl
    exact hchild (List.mem_append_right _ hevent)
  · rw [hlinks event, h.gone event hevent]
    rintro rfl
    exact hchild (by simp [hevent])
  · rw [hlive, h.live (halone ▸ hmine)]
    simp only [Option.toList_none, Option.toList_some, List.length_nil, List.length_cons]
    omega

/-- The inner event is reaped. -/
theorem Lined.reap (h : chain.Lined live top gone (some child) linked) (hnodup : chain.events.Nodup)
    (htable : chain'.table = chain.table.remove child)
    (hevents : chain'.events = chain.events) (halone : chain'.alone = chain.alone) :
    chain'.Lined live top (gone ++ [child]) none linked := by
  have hknows : chain.table.knows child = true := by
    rw [← EventTable.isSome_links?, h.there child (by simp)]
    rfl
  have hlinks : ∀ event, chain'.table.links? event = if event = child then none else chain.table.links? event :=
    fun event => by rw [htable, EventTable.links?_remove]
  rw [h.events] at hnodup
  obtain ⟨hchild, hrest⟩ := List.nodup_cons.1 hnodup
  have hlinked := (List.nodup_append.1 hrest).2.2 child (by simp)
  refine ⟨by simp [hevents, h.events], ?_, fun event hevent => ?_, fun event hevent => ?_, fun hmine => ?_⟩
  · rw [hlinks, if_neg, h.links]
    rintro rfl
    exact hchild (by simp)
  · rw [hlinks, if_neg (Ne.symm (hlinked event hevent)), h.there event (by simpa using .inr hevent)]
  · rw [hlinks]
    split
    · rfl
    · next hne => exact h.gone event (by simpa [hne] using hevent)
  · rw [htable, EventTable.live_remove hknows, h.live (halone ▸ hmine)]
    simp only [Option.toList_none, Option.toList_some, List.length_nil, List.length_cons]
    omega

/-- The first event is reaped, the last of all. -/
theorem Lined.last (h : chain.Lined live top gone none []) (htable : chain'.table = chain.table.remove top)
    (hevents : chain'.events = chain.events) (halone : chain'.alone = chain.alone) : chain'.Over live := by
  have hknows : chain.table.knows top = true := by
    rw [← EventTable.isSome_links?, h.links]
    rfl
  refine ⟨fun event hevent => ?_, fun hmine => ?_⟩
  · rw [htable, EventTable.links?_remove]
    split
    · rfl
    · next hne => exact h.gone event (by simpa [hevents, h.events, hne] using hevent)
  · rw [htable, EventTable.live_remove hknows, h.live (halone ▸ hmine)]
    rfl

theorem Lined.links_of_calls {event : Event} {outer : List Event} (h : chain.Lined live top gone inner linked)
    (hcalls : inner.toList ++ [top] = event :: outer) : ∃ linked', chain.table.links? event = some linked' := by
  cases inner with
  | none =>
    obtain ⟨rfl, -⟩ : top = event ∧ _ := by simpa using hcalls
    exact ⟨linked, h.links⟩
  | some child =>
    obtain ⟨rfl, -⟩ : child = event ∧ _ := by simpa using hcalls
    exact ⟨[], h.there child (by simp)⟩

/-- A step of the waiter leads on in its wait, or ends it. -/
theorem Waiting.step (h : chain.Waiting live number top gone inner linked) (hnodup : chain.events.Nodup)
    (hstep : chain.shared.events.stepWaiter? number = some list) :
    (∃ gone' inner' linked', Waiting { chain with shared := { chain.shared with events := list } }
        live number top gone' inner' linked') ∨
      Over { chain with shared := { chain.shared with events := list } } live ∧
        ∃ waiter, list.waiters[number]? = some waiter ∧ waiter.calls = [] := by
  obtain ⟨waiter, waiter', hwaiter, hmoved, hwaiters⟩ := WaitList.stepWaiter?_eq_some hstep
  obtain ⟨mine, hmine, hcalls, -⟩ := h.waiter
  obtain rfl := Option.some.inj (hwaiter.symm.trans hmine)
  have hafter := WaitList.getElem?_stepWaiter hwaiter hwaiters number
  rw [if_pos rfl] at hafter
  cases (Waiter.move hmoved).2 with
  | leave event outer calls unknown =>
    obtain ⟨linked', hlinks⟩ := h.links_of_calls (hcalls.symm.trans calls)
    exact absurd ((EventTable.links?_eq_none.2 unknown).symm.trans hlinks) (by simp)
  | fallAsleep event outer calls found table_eq waiter_eq =>
    have hlined : Lined { chain with shared := { chain.shared with events := list } } live top gone inner linked :=
      h.toLined.same ⟨rfl, fun event _ => congrArg (EventTable.links? · event) table_eq,
        fun hmine => ⟨hmine, congrArg EventTable.live table_eq⟩⟩
    refine .inl ⟨_, _, _, hlined, waiter', hafter, by rw [waiter_eq, hcalls], fun _ => ?_⟩
    exact ⟨event, outer, by rw [waiter_eq, calls], EventTable.pending_iff.2 ⟨[], by rw [table, table_eq, found]⟩⟩
  -- The waiter is in a call for the first event, or in one for the inner event inside that.
  | reap event outer calls found table_eq waiter_eq =>
    cases inner with
    | none =>
      obtain ⟨rfl, rfl⟩ : event = top ∧ outer = [] := by simpa [calls] using hcalls
      obtain rfl := EventTable.linked_eq h.links found
      exact .inr ⟨h.toLined.last table_eq rfl rfl, waiter', hafter, by rw [waiter_eq]⟩
    | some inside =>
      obtain ⟨rfl, rfl⟩ : event = inside ∧ outer = [top] := by simpa [calls] using hcalls
      exact .inl ⟨_, _, _, h.toLined.reap hnodup table_eq rfl rfl,
        waiter', hafter, by simp [waiter_eq], by simp [waiter_eq]⟩
  | descend event outer calls completed child rest found table_eq waiter_eq =>
    cases inner with
    | none =>
      obtain ⟨rfl, rfl⟩ : event = top ∧ outer = [] := by simpa [calls] using hcalls
      obtain rfl := EventTable.linked_eq h.links found
      exact .inl ⟨_, _, _, h.toLined.descend hnodup found table_eq rfl rfl,
        waiter', hafter, by simp [waiter_eq], by simp [waiter_eq]⟩
    | some inside =>
      -- Nothing is linked under the inner event.
      obtain ⟨rfl, rfl⟩ : event = inside ∧ outer = [top] := by simpa [calls] using hcalls
      exact absurd (EventTable.linked_eq (h.there event (by simp)) found) (by simp)

/-- While no event is pending, the wait goes on. -/
theorem Waiting.awake (h : chain.Waiting live number top gone inner linked)
    (hnone : ∀ event ∈ chain.events, ¬ chain.table.Pending event) :
    ∃ waiter, chain.shared.events.waiters[number]? = some waiter ∧ waiter.asleep = false ∧
      ∃ list, chain.shared.events.stepWaiter? number = some list := by
  obtain ⟨waiter, hwaiter, hcalls, hasleep⟩ := h.waiter
  have hawake : waiter.asleep ≠ true := fun hsleeps => by
    obtain ⟨event, outer, htop, hpending⟩ := hasleep hsleeps
    exact hnone event (h.mem_of_calls (hcalls.symm.trans htop)) hpending
  refine ⟨waiter, hwaiter, by simpa using hawake, ?_⟩
  cases hmoved : waiter.step chain.shared.events.table with
  | none =>
    rcases Waiter.asleep_of_step hmoved with hsleeps | hended
    · exact absurd hsleeps hawake
    · simp [hended] at hcalls
  | some moved =>
    simp only [WaitList.stepWaiter?, hwaiter, Option.bind_eq_bind, Option.bind_some, hmoved]
    exact ⟨_, rfl⟩

end Events

end CopyChain

end ComputeCore
