import Mathlib.Data.List.Chain
import Mathlib.Logic.Relation
import ComputeCore.Proofs.Event.Pending
import ComputeCore.Proofs.Event.PostOrder
/-!
# What one wait reaps

A thread that waits for an event while nobody else acts goes through what is linked under the event in
post-order. It reaps one event after the other until it comes to one that is not completed, and falls asleep
there, inside the calls that lead to it; if there is none, it returns.

The state in between is what later operations find, so it is described exactly: `Cleared` says which events are
gone and which links are out of the others. `PostOrder.lineEnds` is the induction along the order, over the
links that are still to be waited for. A call on one of them is `CallEnds`, and `Waited` is what a whole wait
comes to.
-/

namespace ComputeCore

/-- Steps of one waiter on its own. -/
def Waiter.Steps : EventTable × Waiter → EventTable × Waiter → Prop :=
  Relation.ReflTransGen fun now next => Waiter.step now.1 now.2 = some next

/-- An event with some of its links taken out. -/
def EventEntry.without (entry : EventEntry) (cut : List Event) : EventEntry :=
  { entry with linked := entry.linked.filter (· ∉ cut) }

/-! ## Tables with events and links taken out -/

/-- The events `gone` are out, and so are the links `cut` of all others. -/
def EventTable.Cleared (table table' : EventTable) (gone cut : List Event) : Prop :=
  ∀ other, table'.lookup? other = if other ∈ gone then none else (table.lookup? other).map (·.without cut)

namespace EventEntry
variable {entry : EventEntry} {cut more : List Event}

theorem without_without : (entry.without cut).without more = entry.without (cut ++ more) := by
  unfold without
  simp [List.filter_filter, Bool.and_comm]

theorem without_eq_self (h : ∀ child ∈ entry.linked, child ∉ cut) : entry.without cut = entry := by
  unfold without
  rw [List.filter_eq_self.2 fun child hchild => decide_eq_true (h child hchild)]

theorem without_eq_nil (h : ∀ child ∈ entry.linked, child ∈ cut) :
    entry.without cut = { entry with linked := [] } := by
  unfold without
  rw [List.filter_eq_nil_iff.2 fun child hchild => by simp [h child hchild]]

end EventEntry

namespace EventTable

section Cleared
variable {table table' table'' : EventTable} {event parent child : Event} {gone gone' cut cut' rest : List Event}
  {completed : Bool} {given : List Event}

theorem cleared_refl (table : EventTable) : table.Cleared table [] [] := by
  intro other
  rw [if_neg List.not_mem_nil]
  cases table.lookup? other with
  | none => rfl
  | some entry => exact congrArg some (EventEntry.without_eq_self fun _ _ => List.not_mem_nil).symm

theorem Cleared.trans (h : table.Cleared table' gone cut) (h' : table'.Cleared table'' gone' cut') :
    table.Cleared table'' (gone ++ gone') (cut ++ cut') := by
  intro other
  rw [h' other, h other]
  by_cases hgone : other ∈ gone
  · simp [hgone]
  · by_cases hgone' : other ∈ gone'
    · simp [hgone']
    · simp [hgone, hgone', Function.comp_def, EventEntry.without_without]

/-- What is out is a matter of membership. -/
theorem Cleared.of_mem (h : table.Cleared table' gone cut) (hgone : ∀ other, other ∈ gone' ↔ other ∈ gone)
    (hcut : ∀ other, other ∈ cut' ↔ other ∈ cut) : table.Cleared table' gone' cut' := by
  intro other
  have hwithout : ∀ entry : EventEntry, entry.without cut' = entry.without cut := by
    intro entry
    unfold EventEntry.without
    rw [List.filter_congr fun child _ => decide_eq_decide.2 (not_congr (hcut child))]
  rw [h other, funext hwithout]
  by_cases hmem : other ∈ gone
  · rw [if_pos hmem, if_pos ((hgone other).2 hmem)]
  · rw [if_neg hmem, if_neg fun hmem' => hmem ((hgone other).1 hmem')]

/-- A handle that names no event is out already. -/
theorem Cleared.gone_of_unknown (h : table.Cleared table' gone cut) (hunknown : table.lookup? event = none) :
    table.Cleared table' (gone ++ [event]) cut := by
  intro other
  rw [h other]
  by_cases heq : other = event
  · simp [heq, hunknown]
  · simp [heq]

theorem cleared_remove (table : EventTable) (event : Event) : table.Cleared (table.remove event) [event] [] := by
  intro other
  rw [lookup?_remove]
  by_cases heq : other = event
  · simp [heq]
  · have hsame := cleared_refl table other
    rw [if_neg List.not_mem_nil] at hsame
    rw [if_neg heq, if_neg (by simpa using heq), ← hsame]

/-- No other event has the link that is taken out of one. -/
theorem cleared_setEntry (hforest : Forest table.lookup? given)
    (h : table.lookup? parent = some { completed, linked := child :: rest }) :
    table.Cleared (table.setEntry parent { completed, linked := rest }) [] [child] := by
  intro other
  rw [lookup?_setEntry h, if_neg List.not_mem_nil]
  have hparent : linksOf table.lookup? parent = child :: rest := linksOf_of_found h
  by_cases heq : other = parent
  · have hnodup := hforest.nodup parent
    rw [hparent] at hnodup
    have hrest : rest.filter (· ∉ [child]) = rest := by
      refine List.filter_eq_self.2 fun low hlow => decide_eq_true ?_
      rw [List.mem_singleton]
      rintro rfl
      exact (List.nodup_cons.1 hnodup).1 hlow
    have hfirst : (child :: rest).filter (· ∉ [child]) = rest :=
      (List.filter_cons_of_neg (by simp)).trans hrest
    rw [heq, if_pos rfl, h, Option.map_some, EventEntry.without, hfirst]
  · rw [if_neg heq]
    cases hentry : table.lookup? other with
    | none => rfl
    | some entry =>
      refine congrArg some (EventEntry.without_eq_self fun low hlow hcut => heq ?_).symm
      apply hforest.once other parent low
      · rwa [linksOf_of_found hentry]
      · rw [hparent, List.mem_singleton.1 hcut]
        exact List.mem_cons_self

theorem Cleared.lookup?_eq (h : table.Cleared table' gone cut) (hgone : event ∉ gone)
    (hcut : ∀ child ∈ linksOf table.lookup? event, child ∉ cut) : table'.lookup? event = table.lookup? event := by
  rw [h event, if_neg hgone]
  cases hentry : table.lookup? event with
  | none => rfl
  | some entry =>
    rw [linksOf_of_found hentry] at hcut
    exact congrArg some (EventEntry.without_eq_self hcut)

theorem Cleared.linksOf_sublist (h : table.Cleared table' gone cut) (event : Event) :
    (linksOf table'.lookup? event).Sublist (linksOf table.lookup? event) := by
  by_cases hgone : event ∈ gone
  · rw [linksOf_of_unknown ((h event).trans (if_pos hgone))]
    exact List.nil_sublist _
  · cases hentry : table.lookup? event with
    | none =>
      rw [linksOf_of_unknown (by rw [h event, hentry, if_neg hgone, Option.map_none])]
      exact List.nil_sublist _
    | some entry =>
      have hkept : table'.lookup? event = some (entry.without cut) := by
        rw [h event, hentry, if_neg hgone, Option.map_some]
      rw [linksOf_of_found hkept, linksOf_of_found hentry]
      exact List.filter_sublist

theorem Cleared.forest (h : table.Cleared table' gone cut) (hforest : Forest table.lookup? given) :
    Forest table'.lookup? given :=
  hforest.of_sublist h.linksOf_sublist

theorem Cleared.pending_iff (h : table.Cleared table' gone cut) (hgone : event ∉ gone) :
    table'.Pending event ↔ table.Pending event := by
  unfold Pending
  rw [h event, if_neg hgone]
  cases table.lookup? event with
  | none => simp
  | some entry => simp [EventEntry.without]

end Cleared

/-! ## How a call ends -/

/-- A thread in a call for `event` falls asleep on `first`, the first of `order` that is pending. What comes
before it is gone, and so are the links to these and those on the path of calls that leads to it. -/
structure Rests (table table' : EventTable) (event : Event) (outer order before path : List Event)
    (first : Event) : Prop where
  order_eq : ∃ after, order = before ++ first :: after
  clear : ∀ other ∈ before, ¬ table.Pending other
  pending : table.Pending first
  steps : Waiter.Steps (table, { calls := event :: outer })
    (table', { calls := path ++ event :: outer, asleep := true })
  cleared : table.Cleared table' before (before ++ path)
  innermost : (path ++ [event]).head? = some first
  /-- Each call on the path is for a link of the one around it. -/
  chain : (path ++ [event]).IsChain fun low high => low ∈ linksOf table.lookup? high
  inside : ∀ other ∈ before ++ path, other ∈ order ∧ other ≠ event

/-- How the calls for a line of links end, inside the call for the event that had them. -/
inductive LineEnds (table : EventTable) (event : Event) (outer order : List Event) : Prop
  | clear (table' : EventTable) (clear : ∀ other ∈ order, ¬ table.Pending other)
      (steps : Waiter.Steps (table, { calls := event :: outer }) (table', { calls := event :: outer }))
      (cleared : table.Cleared table' order order)
  | rests (table' : EventTable) (before path : List Event) (first : Event)
      (rests : table.Rests table' event outer order before path first)

/-- How the call for an event ends, with `under` below the event. -/
inductive CallEnds (table : EventTable) (event : Event) (outer under : List Event) : Prop
  | returns (table' : EventTable) (clear : ∀ other ∈ under ++ [event], ¬ table.Pending other)
      (steps : Waiter.Steps (table, { calls := event :: outer }) (table', { calls := outer }))
      (cleared : table.Cleared table' (under ++ [event]) under)
  | rests (table' : EventTable) (before path : List Event) (first : Event)
      (rests : table.Rests table' event outer (under ++ [event]) before path first)

section Calls
variable {lookup? : Event → Option EventEntry} {table table' : EventTable} {event parent first : Event}
  {outer under links order passed more before path : List Event} {entry : EventEntry} {completed : Bool}
  {given : List Event}

theorem callEnds_of_unknown (h : table.lookup? event = none) : table.CallEnds event outer [] := by
  apply CallEnds.returns table
  · rintro other hother ⟨entry, hentry, -⟩
    obtain rfl := List.mem_singleton.1 hother
    rw [h] at hentry
    cases hentry
  · refine .single ?_
    simp [Waiter.step, h]
  · exact (cleared_refl table).gone_of_unknown h

/-- Once nothing is linked under its event any more, the call reaps it or sleeps on it. -/
theorem callEnds_of_lineEnds (hfound : table.lookup? event = some entry)
    (hsub : ∀ child ∈ entry.linked, child ∈ under)
    (hfresh : event ∉ under) (h : table.LineEnds event outer under) : table.CallEnds event outer under := by
  cases h with
  | clear table' clear steps cleared =>
    have hleft : table'.lookup? event = some { entry with linked := [] } := by
      rw [cleared event, if_neg hfresh, hfound, Option.map_some, EventEntry.without_eq_nil hsub]
    cases hcompleted : entry.completed with
    | true =>
      apply CallEnds.returns (table'.remove event)
      · intro other hother
        rcases List.mem_append.1 hother with hunder | hevent
        · exact clear other hunder
        · obtain rfl := List.mem_singleton.1 hevent
          rintro ⟨found, hentry, hpending⟩
          obtain rfl := Option.some.inj (hfound.symm.trans hentry)
          rw [hcompleted] at hpending
          cases hpending
      · refine steps.tail ?_
        simp [Waiter.step, hleft, hcompleted]
      · exact (cleared.trans (cleared_remove table' event)).of_mem (fun _ => Iff.rfl) (by simp)
    | false =>
      refine .rests table' under [] event ?_
      constructor
      · exact ⟨[], rfl⟩
      · exact clear
      · exact ⟨entry, hfound, hcompleted⟩
      · refine steps.tail ?_
        simp [Waiter.step, hleft, hcompleted]
      · exact cleared.of_mem (fun _ => Iff.rfl) (by simp)
      · rfl
      · exact List.IsChain.singleton event
      · intro other hother
        rw [List.append_nil] at hother
        exact ⟨List.mem_append_left _ hother, fun heq => hfresh (heq ▸ hother)⟩
  | rests table' before path first rests =>
    refine .rests table' before path first { rests with order_eq := ?_, inside := ?_ }
    · obtain ⟨after, rfl⟩ := rests.order_eq
      exact ⟨after ++ [event], by simp⟩
    · intro other hother
      obtain ⟨hmem, hne⟩ := rests.inside other hother
      exact ⟨List.mem_append_left _ hmem, hne⟩

/-- The links that are still in line are waited for after those that have been passed. -/
theorem LineEnds.after (hsteps : Waiter.Steps (table, { calls := event :: outer }) (table', { calls := event :: outer }))
    (hcleared : table.Cleared table' passed passed) (hclear : ∀ other ∈ passed, ¬ table.Pending other)
    (hevent : event ∉ passed) (hmore : ∀ other ∈ more, other ∉ passed) (h : table'.LineEnds event outer more) :
    table.LineEnds event outer (passed ++ more) := by
  cases h with
  | clear table'' clear steps cleared =>
    refine .clear table'' ?_ (hsteps.trans steps) (hcleared.trans cleared)
    intro other hother
    rcases List.mem_append.1 hother with hpassed | hlater
    · exact hclear other hpassed
    · rw [← hcleared.pending_iff (hmore other hlater)]
      exact clear other hlater
  | rests table'' before path first rests =>
    obtain ⟨after, rfl⟩ := rests.order_eq
    refine .rests table'' (passed ++ before) path first ?_
    constructor
    · exact ⟨after, by simp⟩
    · intro other hother
      rcases List.mem_append.1 hother with hpassed | hlater
      · exact hclear other hpassed
      · rw [← hcleared.pending_iff (hmore other (by simp [hlater]))]
        exact rests.clear other hlater
    · rw [← hcleared.pending_iff (hmore first (by simp))]
      exact rests.pending
    · exact hsteps.trans rests.steps
    · exact List.append_assoc passed before path ▸ hcleared.trans rests.cleared
    · exact rests.innermost
    · exact rests.chain.imp fun low high hlink => (hcleared.linksOf_sublist high).subset hlink
    · intro other hother
      rw [List.append_assoc] at hother
      rcases List.mem_append.1 hother with hpassed | hlater
      · exact ⟨List.mem_append_left _ hpassed, fun heq => hevent (heq ▸ hpassed)⟩
      · obtain ⟨hmem, hne⟩ := rests.inside other hlater
        exact ⟨List.mem_append_right _ hmem, hne⟩

/-- A thread that sleeps in the call for the first link sleeps in the call for the event that has it. -/
theorem Rests.outside (hdescend : Waiter.step table { calls := parent :: outer } =
      some (table', { calls := event :: parent :: outer }))
    (hcleared : table.Cleared table' [] [event]) (hlink : event ∈ linksOf table.lookup? parent)
    (hparent : parent ∉ order) (hevent : event ∈ order) {table'' : EventTable}
    (h : table'.Rests table'' event (parent :: outer) order before path first) :
    table.Rests table'' parent outer (order ++ more) before (path ++ [event]) first := by
  obtain ⟨after, horder⟩ := h.order_eq
  constructor
  · exact ⟨after ++ more, by simp [horder]⟩
  · intro other hother
    rw [← hcleared.pending_iff List.not_mem_nil]
    exact h.clear other hother
  · rw [← hcleared.pending_iff List.not_mem_nil]
    exact h.pending
  · rw [List.append_assoc]
    exact .head hdescend h.steps
  · refine (hcleared.trans h.cleared).of_mem (fun _ => Iff.rfl) fun other => ?_
    simp only [List.mem_append, List.mem_singleton]
    tauto
  · rw [List.head?_append, h.innermost]
    rfl
  · refine List.isChain_append.2 ⟨h.chain.imp fun low high hlow => ?_, .singleton parent, ?_⟩
    · exact (hcleared.linksOf_sublist high).subset hlow
    · simp [hlink]
  · intro other hother
    have hmem : other ∈ order := by
      rw [← List.append_assoc] at hother
      rcases List.mem_append.1 hother with hinside | hlast
      · exact (h.inside other hinside).1
      · exact List.mem_singleton.1 hlast ▸ hevent
    exact ⟨List.mem_append_left _ hmem, fun heq => hparent (heq ▸ hmem)⟩

theorem callEnds_of_postOrder (h : PostOrder lookup? (linksOf lookup? event) under)
    (hsame : table.lookup? event = lookup? event) (hfresh : event ∉ under)
    (hline : ∀ entry, table.lookup? event = some entry → table.LineEnds event outer under) :
    table.CallEnds event outer under := by
  cases hfound : table.lookup? event with
  | none =>
    rw [linksOf_of_unknown (hsame ▸ hfound)] at h
    cases h
    exact callEnds_of_unknown hfound
  | some entry =>
    refine callEnds_of_lineEnds hfound (fun child hchild => h.mem_of_link ?_) hfresh (hline entry hfound)
    rwa [linksOf_of_found (hsame ▸ hfound)]

/-! ## Along the order -/

/-- The call for `parent` has these links still to wait for, and the table still has what they lead to, as it
was when the order was taken. -/
structure InLine (lookup? : Event → Option EventEntry) (given : List Event) (table : EventTable) (parent : Event)
    (links order : List Event) : Prop where
  forest : Forest table.lookup? given
  same : ∀ other ∈ order, table.lookup? other = lookup? other
  found : ∃ completed, table.lookup? parent = some { completed, linked := links }
  nodup : order.Nodup
  outside : parent ∉ order

/-- The first link is taken out, and everything below it is as it was. -/
theorem InLine.take (h : InLine lookup? given table parent (event :: links) order) :
    ∃ taken, (∀ outer, Waiter.step table { calls := parent :: outer } =
        some (taken, { calls := event :: parent :: outer })) ∧
      table.Cleared taken [] [event] ∧ InLine lookup? given taken parent links order := by
  obtain ⟨completed, hparent⟩ := h.found
  have hcleared := cleared_setEntry h.forest hparent
  refine ⟨table.setEntry parent { completed, linked := links }, fun outer => ?_, hcleared, ?_⟩
  · simp [Waiter.step, hparent]
  · constructor
    · exact hcleared.forest h.forest
    · intro other hother
      have hne : other ≠ parent := fun heq => h.outside (heq ▸ hother)
      rw [lookup?_setEntry hparent, if_neg hne]
      exact h.same other hother
    · exact ⟨completed, by rw [lookup?_setEntry hparent, if_pos rfl]⟩
    · exact h.nodup
    · exact h.outside

/-- The call for a link has the links under it to wait for. -/
theorem InLine.down (h : InLine lookup? given table parent links (under ++ event :: more))
    (hfound : table.lookup? event = some entry) : InLine lookup? given table event entry.linked under := by
  obtain ⟨hunder, -, hdisjoint⟩ := List.nodup_append.1 h.nodup
  constructor
  · exact h.forest
  · intro other hother
    exact h.same other (List.mem_append_left _ hother)
  · exact ⟨entry.completed, hfound⟩
  · exact hunder
  · intro hmem
    exact hdisjoint event hmem event List.mem_cons_self rfl

/-- Once it has returned, the other links are in line. Nothing that comes later is linked to what went, because
what went hung under events that went as well. -/
theorem InLine.pass (h : InLine lookup? given table parent links (under ++ event :: more))
    (hall : Forest lookup? given) (hbelow : PostOrder lookup? (linksOf lookup? event) under)
    (hrest : PostOrder lookup? links more) (hcleared : table.Cleared table' (under ++ [event]) under) :
    InLine lookup? given table' parent links more := by
  obtain ⟨-, hlast, hdisjoint⟩ := List.nodup_append.1 h.nodup
  obtain ⟨hevent, hmore⟩ := List.nodup_cons.1 hlast
  have hapart : ∀ other ∈ more, other ∉ under := fun other hother hmem =>
    hdisjoint other hmem other (List.mem_cons_of_mem _ hother) rfl
  have hout := h.outside
  simp only [List.mem_append, List.mem_cons, not_or] at hout
  constructor
  · exact hcleared.forest h.forest
  · intro other hother
    have hne : other ≠ event := fun heq => hevent (heq ▸ hother)
    have hsame := h.same other (by simp [hother])
    rw [hcleared.lookup?_eq (by simp [hapart other hother, hne]), hsame]
    intro child hchild hmem
    rw [linksOf_eq hsame] at hchild
    have hlink := hbelow.link_of_outside hall hmem hchild (hapart other hother)
    exact hne (hall.once other event child hchild hlink)
  · obtain ⟨completed, hparent⟩ := h.found
    refine ⟨completed, ?_⟩
    rw [hcleared.lookup?_eq (by simp [hout]), hparent]
    intro child hchild
    rw [linksOf_of_found hparent] at hchild
    exact hapart child (hrest.mem_of_link hchild)
  · exact hmore
  · exact hout.2.2

/-- By induction on the post-order of the links in line. The call for the first one ends the thread's way there,
or returns and leaves the others in line. -/
theorem lineEnds_of_postOrder (hall : Forest lookup? given) (h : PostOrder lookup? links order) :
    ∀ {table : EventTable} {parent : Event} {outer : List Event},
      InLine lookup? given table parent links order → table.LineEnds parent outer order := by
  induction h with
  | nil =>
    intro table parent outer _
    exact .clear table (by simp) .refl (cleared_refl table)
  | @cons event links under more below rest ihBelow ihRest =>
    intro table parent outer hline
    have hmem : event ∈ under ++ event :: more := List.mem_append_right _ List.mem_cons_self
    obtain ⟨taken, hdescend, htaken, hnext⟩ := hline.take
    have hcall : taken.CallEnds event (parent :: outer) under := by
      apply callEnds_of_postOrder below (hnext.same event hmem)
      · intro hunder
        exact (List.nodup_append.1 hnext.nodup).2.2 event hunder event List.mem_cons_self rfl
      · intro entry hentry
        apply ihBelow
        rw [linksOf_of_found (hnext.same event hmem ▸ hentry)]
        exact hnext.down hentry
    have hout := hline.outside
    simp only [List.mem_append, List.mem_cons, not_or] at hout
    cases hcall with
    | returns passed clear steps cleared =>
      have hlater := hnext.pass hall below rest cleared
      have hboth : table.Cleared passed (under ++ [event]) (under ++ [event]) :=
        (htaken.trans cleared).of_mem (fun _ => Iff.rfl) (by simp [or_comm])
      have hclear : ∀ other ∈ under ++ [event], ¬ table.Pending other := by
        intro other hother
        rw [← htaken.pending_iff List.not_mem_nil]
        exact clear other hother
      rw [List.append_cons]
      refine (ihRest hlater).after (.head (hdescend outer) steps) hboth hclear (by simp [hout]) ?_
      intro other hother hpassed
      have hnodup := List.append_cons under event more ▸ hline.nodup
      exact (List.nodup_append.1 hnodup).2.2 other hpassed other hother rfl
    | rests asleep before path first rests =>
      obtain ⟨completed, hparent⟩ := hline.found
      have hlink : event ∈ linksOf table.lookup? parent := by
        rw [linksOf_of_found hparent]
        exact List.mem_cons_self
      rw [List.append_cons]
      refine .rests asleep before (path ++ [event]) first ?_
      exact rests.outside (hdescend outer) htaken hlink (by simp [hout]) (by simp)

end Calls

end EventTable

/-! ## The whole wait -/

namespace WaitList

/-- How a thread that waits for `event` comes to rest when nobody else acts, where `order` is the post-order of
what the event leads to. -/
inductive Waited (list : WaitList) (event : Event) (order : List Event) (list' : WaitList) : Prop
  /-- Nothing is pending. All of it is gone, and everything else is as it was. -/
  | returns (clear : ∀ other ∈ order, ¬ list.table.Pending other)
      (reaped : ∀ other ∈ order, list'.table.lookup? other = none)
      (kept : ∀ other, other ∉ order → list'.table.lookup? other = list.table.lookup? other)
      (waiters_eq : list'.waiters = list.waiters.push { calls := [] })
  /-- The first event that is pending puts the thread to sleep, in a call for it inside the calls for the events
  above it. What comes before is gone; the links to that and along the calls are out. -/
  | rests (before after path : List Event) (first : Event) (order_eq : order = before ++ first :: after)
      (clear : ∀ other ∈ before, ¬ list.table.Pending other) (pending : list.table.Pending first)
      (reaped : ∀ other ∈ before, list'.table.lookup? other = none)
      (detached : ∀ other, other ∉ before →
        list'.table.lookup? other = (list.table.lookup? other).map (·.without (before ++ path)))
      (kept : ∀ other, other ∉ order → list'.table.lookup? other = list.table.lookup? other)
      (innermost : (path ++ [event]).head? = some first)
      (chain : (path ++ [event]).IsChain fun low high => low ∈ linksOf list.table.lookup? high)
      (waiters_eq : list'.waiters = list.waiters.push { calls := path ++ [event], asleep := true })

section Waiting
variable {list : WaitList} {table' : EventTable} {waiter waiter' : Waiter} {now next : EventTable × Waiter}
  {number : Nat} {event : Event} {order : List Event}

theorem applyAll_of_steps (h : Waiter.Steps now next) : ∀ {list : WaitList}, list.table = now.1 →
    list.waiters[number]? = some now.2 → ∃ steps, list.applyAll (List.replicate steps (.stepWaiter number)) =
      { table := next.1, waiters := list.waiters.setIfInBounds number next.2 } := by
  induction h using Relation.ReflTransGen.head_induction_on with
  | refl =>
    intro list htable hwaiter
    refine ⟨0, ?_⟩
    obtain ⟨hlt, hget⟩ := Array.getElem?_eq_some_iff.1 hwaiter
    rw [← htable, ← hget, Array.setIfInBounds_def, dif_pos hlt, Array.set_getElem_self]
    rfl
  | @head now mid hstep _ ih =>
    intro list htable hwaiter
    have happly : list.apply (.stepWaiter number) =
        { table := mid.1, waiters := list.waiters.setIfInBounds number mid.2 } := by
      simp [apply, stepWaiter?, hwaiter, htable, hstep]
    have hlt := (Array.getElem?_eq_some_iff.1 hwaiter).1
    obtain ⟨steps, hsteps⟩ := ih (congrArg WaitList.table happly) (by rw [happly]; simp [hlt])
    refine ⟨steps + 1, ?_⟩
    rw [List.replicate_succ]
    change (list.apply (.stepWaiter number)).applyAll _ = _
    rw [hsteps, happly]
    simp

theorem applyAll_of_still (h : list.stepWaiter? number = none) (steps : Nat) :
    list.applyAll (List.replicate steps (.stepWaiter number)) = list := by
  induction steps with
  | zero => rfl
  | succ steps ih =>
    rw [List.replicate_succ]
    change (list.apply (.stepWaiter number)).applyAll _ = _
    have hsame : list.apply (.stepWaiter number) = list := by simp [apply, h]
    rw [hsame, ih]

/-- A thread that has just begun to wait goes its steps, and then none. -/
theorem applyAll_enterWait (hsteps : Waiter.Steps (list.table, { calls := [event] }) (table', waiter'))
    (hrest : waiter'.step table' = none) : ∃ steps, ∀ more, steps ≤ more →
      list.applyAll (.enterWait event :: List.replicate more (.stepWaiter list.waiters.size)) =
        { table := table', waiters := list.waiters.push waiter' } := by
  have htable : (list.apply (.enterWait event)).table = list.table := rfl
  have hlast : (list.apply (.enterWait event)).waiters[list.waiters.size]? = some { calls := [event] } :=
    Array.getElem?_push_size
  obtain ⟨steps, happly⟩ := applyAll_of_steps hsteps htable hlast
  have hwaiters : (list.apply (.enterWait event)).waiters.setIfInBounds list.waiters.size waiter' =
      list.waiters.push waiter' := by
    apply Array.ext'
    simp [apply, enterWait, List.set_append_right]
  rw [hwaiters] at happly
  refine ⟨steps, fun more hmore => ?_⟩
  change (list.apply (.enterWait event)).applyAll _ = _
  rw [← Nat.add_sub_cancel' hmore, List.replicate_add, applyAll_append, happly]
  apply applyAll_of_still
  simp [stepWaiter?, hrest]

end Waiting

theorem wait_reaps_in_post_order (ops : List EventOp) (h : InRange ops) (event : Event) :
    (∃ order, PostOrder (after ops).table.lookup? [event] order) ∧
      ∀ order, PostOrder (after ops).table.lookup? [event] order →
        order.Nodup ∧ (∀ other, other ∈ order ↔ Linked (after ops).table.lookup? event other) ∧
        ∃ steps, ∀ more, steps ≤ more → (after ops).Waited event order
          (after (ops ++ .enterWait event :: List.replicate more (.stepWaiter (after ops).waiters.size))) := by
  have hforest := forest_after h
  refine ⟨exists_postOrder hforest [event], fun order horder => ?_⟩
  have hnodup := horder.nodup hforest (List.pairwise_singleton _ event)
  refine ⟨hnodup, fun other => by simpa using horder.mem_iff, ?_⟩
  obtain ⟨under, hunder, rfl⟩ := horder.singleton
  have hfresh : event ∉ under := fun hmem =>
    (List.nodup_append.1 hnodup).2.2 event hmem event (List.mem_singleton_self _) rfl
  -- Only the event itself may be linked from outside.
  have houtside : ∀ other, other ∉ under ++ [event] → ∀ child ∈ linksOf (after ops).table.lookup? other,
      child ∈ under ++ [event] → child = event := by
    intro other hother child hchild hmem
    exact List.mem_singleton.1 (horder.link_of_outside hforest hmem hchild hother)
  have hcall : (after ops).table.CallEnds event [] under := by
    apply EventTable.callEnds_of_postOrder hunder rfl hfresh
    intro entry hentry
    apply EventTable.lineEnds_of_postOrder hforest hunder
    refine ⟨hforest, fun _ _ => rfl, ⟨entry.completed, ?_⟩, (List.nodup_append.1 hnodup).1, hfresh⟩
    rw [linksOf_of_found hentry]
    exact hentry
  cases hcall with
  | returns table' clear steps cleared =>
    obtain ⟨count, hcount⟩ := applyAll_enterWait steps rfl
    refine ⟨count, fun more hmore => ?_⟩
    rw [after_append, hcount more hmore]
    refine .returns clear (fun other hother => (cleared other).trans (if_pos hother)) (fun other hother => ?_) rfl
    apply cleared.lookup?_eq hother
    intro child hchild hmem
    obtain rfl := houtside other hother child hchild (List.mem_append_left _ hmem)
    exact hfresh hmem
  | rests table' before path first rests =>
    obtain ⟨count, hcount⟩ := applyAll_enterWait rests.steps rfl
    obtain ⟨later, horder_eq⟩ := rests.order_eq
    refine ⟨count, fun more hmore => ?_⟩
    rw [after_append, hcount more hmore]
    refine .rests before later path first horder_eq rests.clear rests.pending
      (fun other hother => (rests.cleared other).trans (if_pos hother))
      (fun other hother => (rests.cleared other).trans (if_neg hother))
      (fun other hother => ?_) rests.innermost rests.chain rfl
    apply rests.cleared.lookup?_eq
    · intro hmem
      exact hother (rests.inside other (List.mem_append_left _ hmem)).1
    · intro child hchild hmem
      obtain ⟨hinside, hne⟩ := rests.inside child hmem
      exact hne (houtside other hother child hchild hinside)

/-- An event with two others under it. The first is completed; the second has one under it that was removed and
one that is pending. -/
def pendingBelow : List EventOp :=
  [.newEvent, .newChild ⟨0, 0⟩, .newChild ⟨0, 0⟩, .newChild ⟨2, 0⟩, .newChild ⟨2, 0⟩, .setCompleted ⟨1, 0⟩ true,
    .remove ⟨3, 0⟩]

/-- The wait reaps the completed one, passes the removed one and falls asleep two calls further in. -/
theorem wait_sleeps_inside : InRange pendingBelow ∧
    (∃ steps, ∀ more, steps ≤ more → (after pendingBelow).Waited ⟨0, 0⟩ [⟨1, 0⟩, ⟨3, 0⟩, ⟨4, 0⟩, ⟨2, 0⟩, ⟨0, 0⟩]
      (after (pendingBelow ++ .enterWait ⟨0, 0⟩ :: List.replicate more (.stepWaiter 0)))) ∧
    (after (pendingBelow ++ .enterWait ⟨0, 0⟩ :: List.replicate 7 (.stepWaiter 0))).waiters =
      #[{ calls := [⟨4, 0⟩, ⟨2, 0⟩, ⟨0, 0⟩], asleep := true }] := by
  have hrange : InRange pendingBelow :=
    ⟨by decide +kernel, fun index => Nat.lt_of_le_of_lt (reapsFrom_le_length {} pendingBelow index) (by decide)⟩
  have hsecond : linksOf (after pendingBelow).table.lookup? ⟨2, 0⟩ = [⟨3, 0⟩, ⟨4, 0⟩] := by decide +kernel
  have hfirst : linksOf (after pendingBelow).table.lookup? ⟨0, 0⟩ = [⟨1, 0⟩, ⟨2, 0⟩] := by decide +kernel
  have hleaf : ∀ event, event = ⟨1, 0⟩ ∨ event = ⟨3, 0⟩ ∨ event = ⟨4, 0⟩ →
      linksOf (after pendingBelow).table.lookup? event = [] := by
    rintro event (rfl | rfl | rfl) <;> decide +kernel
  have hbelow := PostOrder.cons_of_links hsecond
    (.cons_of_links (hleaf ⟨3, 0⟩ (by simp)) .nil (.cons_of_links (hleaf ⟨4, 0⟩ (by simp)) .nil .nil)) .nil
  have horder := PostOrder.cons_of_links hfirst (.cons_of_links (hleaf ⟨1, 0⟩ (by simp)) .nil hbelow) .nil
  obtain ⟨-, -, hwaited⟩ := (wait_reaps_in_post_order pendingBelow hrange ⟨0, 0⟩).2 _ horder
  have hnumber : (after pendingBelow).waiters.size = 0 := by decide +kernel
  rw [hnumber] at hwaited
  exact ⟨hrange, hwaited, by decide +kernel⟩

end WaitList

end ComputeCore
