import Mathlib.Data.List.Nodup
import ComputeCore.Proofs.Event.Forest
import ComputeCore.Proofs.Event.Removal
/-!
# Slots, free list, counter and links

The table keeps the same facts in several places: which slots are empty is also in the free list, how many are
not is also in the counter, and how events hang together is spread over their lists of links. `Housed` says that
the places agree after every run, and `Branching` that the links of all slots together form a forest.

The first does not depend on handles, so it holds even where generations have started over: all that is asked of
an operation is that it replaces one slot at a time (`Kept.replace`). The second is `Forest` read slot by slot. It
speaks of events by their handles, so it asks that no two have been given the same one (`InRange`).
-/

namespace ComputeCore

/-- The links under the event of a slot. -/
def EventSlot.links (slot : EventSlot) : List Event :=
  match slot.entry with
  | some entry => entry.linked
  | none => []

namespace EventTable

/-- The numbers of the empty slots, in order. -/
def vacancies (table : EventTable) : List Nat :=
  (List.range table.slots.size).filter fun index => !table.occupied index

/-- The number of slots in which an event lives. -/
def population (table : EventTable) : Nat :=
  table.slots.countP fun slot => slot.entry.isSome

/-- The links of the table, slot by slot. -/
def allLinks (table : EventTable) : List Event :=
  table.slots.toList.flatMap EventSlot.links

/-- What every operation keeps, whatever becomes of the generations. -/
structure Kept (table : EventTable) (given : List Event) : Prop where
  wellFormed : table.WellFormed
  /-- A slot whose number is too large for a handle is never left again. -/
  beyond : ∀ index slot, UInt32.size ≤ index → table.slots[index]? = some slot → slot.entry.isSome = true
  live : table.live = table.population
  named : ∀ child ∈ table.allLinks, child ∈ given

section Slots
variable {table table' : EventTable} {given : List Event} {event child : Event} {entry old : EventEntry}
  {slot new : EventSlot} {index : Nat}

theorem mem_vacancies : index ∈ table.vacancies ↔ ∃ slot, table.slots[index]? = some slot ∧ slot.entry = none := by
  unfold vacancies occupied
  rw [List.mem_filter, List.mem_range]
  constructor
  · rintro ⟨hlt, hempty⟩
    exact ⟨table.slots[index], Array.getElem?_eq_getElem hlt, by simpa [hlt] using hempty⟩
  · rintro ⟨slot, hslot, hempty⟩
    exact ⟨(Array.getElem?_eq_some_iff.1 hslot).1, by simp [hslot, hempty]⟩

theorem mem_allLinks : child ∈ table.allLinks ↔
    ∃ (index : Nat) (slot : EventSlot), table.slots[index]? = some slot ∧ child ∈ slot.links := by
  unfold allLinks
  rw [List.mem_flatMap]
  constructor
  · rintro ⟨slot, hslot, hchild⟩
    obtain ⟨index, hindex⟩ := List.mem_iff_getElem?.1 hslot
    exact ⟨index, slot, Array.getElem?_toList ▸ hindex, hchild⟩
  · rintro ⟨index, slot, hindex, hchild⟩
    exact ⟨slot, Array.mem_toList_iff.2 (Array.mem_of_getElem? hindex), hchild⟩

theorem mem_allLinks_of_linked (h : table.lookup? event = some entry) (hchild : child ∈ entry.linked) :
    child ∈ table.allLinks :=
  mem_allLinks.2 ⟨_, _, lookup?_eq_some_iff.1 h, hchild⟩

theorem population_pos (h : table.lookup? event = some entry) : 0 < table.population :=
  Array.countP_pos_iff.2 ⟨_, Array.mem_of_getElem? (lookup?_eq_some_iff.1 h), rfl⟩

/-! ## Replacing a slot -/

theorem population_replace (hslot : table.slots[index]? = some slot)
    (hslots : table'.slots = table.slots.setIfInBounds index new) :
    table'.population + slot.entry.isSome.toNat = table.population + new.entry.isSome.toNat := by
  obtain ⟨hlt, hget⟩ := Array.getElem?_eq_some_iff.1 hslot
  have hpos : slot.entry.isSome = true → 0 < table.population := fun hlives =>
    Array.countP_pos_iff.2 ⟨slot, Array.mem_of_getElem? hslot, hlives⟩
  unfold population at hpos ⊢
  rw [hslots, Array.setIfInBounds, dif_pos hlt, Array.countP_set, hget]
  cases hold : slot.entry.isSome <;> cases hnew : new.entry.isSome <;> simp_all

/-- Only the slot that is replaced has to be looked at. -/
theorem Kept.replace {number : UInt32} (h : table.Kept given) (hslot : table.slots[number.toNat]? = some slot)
    (hslots : table'.slots = table.slots.setIfInBounds number.toNat new) (hwellFormed : table'.WellFormed)
    (hlive : table'.live + slot.entry.isSome.toNat = table.live + new.entry.isSome.toNat)
    (hnamed : ∀ child ∈ new.links, child ∈ given) : table'.Kept given where
  wellFormed := hwellFormed
  beyond index other hbeyond hother := by
    have hne : number.toNat ≠ index := fun heq => absurd number.toNat_lt (heq ▸ Nat.not_lt.2 hbeyond)
    rw [hslots, Array.getElem?_setIfInBounds_ne hne] at hother
    exact h.beyond index other hbeyond hother
  live := by
    have hpopulation := population_replace hslot hslots
    have hbefore := h.live
    omega
  named child hchild := by
    obtain ⟨index, other, hother, hlinked⟩ := mem_allLinks.1 hchild
    rw [hslots] at hother
    by_cases heq : number.toNat = index
    · subst heq
      rw [Array.getElem?_setIfInBounds_self_of_lt (Array.getElem?_eq_some_iff.1 hslot).1] at hother
      exact hnamed child (Option.some.inj hother ▸ hlinked)
    · rw [Array.getElem?_setIfInBounds_ne heq] at hother
      exact h.named child (mem_allLinks.2 ⟨index, other, hother, hlinked⟩)

theorem Kept.setEntry (h : table.Kept given) (hold : table.lookup? event = some old)
    (hlinked : ∀ child ∈ entry.linked, child ∈ given) : (table.setEntry event entry).Kept given :=
  h.replace (lookup?_eq_some_iff.1 hold) rfl (h.wellFormed.setEntry hold) rfl hlinked

theorem Kept.remove (h : table.Kept given) (event : Event) : (table.remove event).Kept given := by
  cases hentry : table.lookup? event with
  | none => rwa [remove_of_unknown hentry]
  | some entry =>
    have hslots : (table.remove event).slots = table.slots.setIfInBounds event.index.toNat
        { generation := event.generation + 1, entry := none } := by
      rw [EventTable.remove, if_pos (knows_iff.2 ⟨entry, hentry⟩)]
    refine h.replace (lookup?_eq_some_iff.1 hentry) hslots (h.wellFormed.remove event) ?_ (fun child hchild => ?_)
    · have hcounted := population_pos hentry
      have hlive := h.live
      rw [EventTable.remove, if_pos (knows_iff.2 ⟨entry, hentry⟩)]
      simp only [Option.isSome_some, Option.isSome_none, Bool.toNat_true, Bool.toNat_false]
      omega
    · exact absurd hchild List.not_mem_nil

theorem Kept.insert (h : table.Kept given) : table.insert.2.Kept given := by
  rcases insert_cases table with ⟨index, free, hfree, hevent, htable⟩ | ⟨-, -, htable⟩
  · obtain ⟨generation, hempty⟩ := (h.wellFormed.vacant index).1 (by simp [hfree])
    have hslots : table.insert.2.slots = table.slots.setIfInBounds index.toNat
        { generation := table.insert.1.generation, entry := some {} } := by
      rw [htable, hevent]
      rfl
    refine h.replace hempty hslots h.wellFormed.insert ?_ fun child hchild => absurd hchild List.not_mem_nil
    rw [htable]
    rfl
  · refine ⟨h.wellFormed.insert, fun index slot hbeyond hslot => ?_, ?_, fun child hchild => ?_⟩
    · rw [htable, Array.getElem?_push] at hslot
      split at hslot
      · exact Option.some.inj hslot ▸ rfl
      · exact h.beyond index slot hbeyond hslot
    · rw [htable, population, Array.countP_push]
      exact congrArg (· + 1) h.live
    · obtain ⟨index, slot, hslot, hlinked⟩ := mem_allLinks.1 hchild
      rw [htable, Array.getElem?_push] at hslot
      split at hslot
      · rw [← Option.some.inj hslot] at hlinked
        exact absurd hlinked List.not_mem_nil
      · exact h.named child (mem_allLinks.2 ⟨index, slot, hslot, hlinked⟩)

/-! ## What follows -/

/-- Empty slots have numbers that fit a handle, and the free list has each of these once. -/
theorem Kept.free_perm (h : table.Kept given) : (table.free.map UInt32.toNat).Perm table.vacancies := by
  have hnodup : (table.free.map UInt32.toNat).Nodup := h.wellFormed.nodup.map fun _ _ => UInt32.toNat_inj.1
  have hnodup' : table.vacancies.Nodup := List.nodup_range.filter _
  refine (List.perm_ext_iff_of_nodup hnodup hnodup').2 fun index => ?_
  rw [List.mem_map, mem_vacancies]
  constructor
  · rintro ⟨number, hfree, rfl⟩
    obtain ⟨generation, hempty⟩ := (h.wellFormed.vacant number).1 hfree
    exact ⟨_, hempty, rfl⟩
  · rintro ⟨⟨generation, entry⟩, hslot, rfl⟩
    have hfits : index < UInt32.size := by
      by_contra hbeyond
      have hlives := h.beyond index _ (Nat.le_of_not_lt hbeyond) hslot
      cases hlives
    have hnumber := UInt32.toNat_ofNat_of_lt' hfits
    exact ⟨UInt32.ofNat index, (h.wellFormed.vacant _).2 ⟨generation, hnumber.symm ▸ hslot⟩, hnumber⟩

theorem Kept.live_pos (h : table.Kept given) (hknows : table.knows event = true) : 0 < table.live := by
  obtain ⟨entry, hentry⟩ := knows_iff.1 hknows
  exact h.live ▸ population_pos hentry

theorem Kept.removal (h : table.Kept given) (event : Event) : Removal table [event] (table.removeTree event) :=
  removal_of_counted (P := fun table => table.Kept given) (fun _ _ hkept hknows => hkept.live_pos hknows)
    (fun _ event hkept => hkept.remove event) h event

/-! ## Links, slot by slot -/

theorem Numbered.lt_size (h : table.Numbered) (hslot : table.slots[index]? = some slot) : index < UInt32.size :=
  Nat.lt_of_lt_of_le (Array.getElem?_eq_some_iff.1 hslot).1 h

/-- As long as every slot has a number of its own, a handle finds what is linked in the slot. -/
theorem linksOf_slot (h : table.Numbered) (hslot : table.slots[index]? = some slot) :
    linksOf table.lookup? { index := UInt32.ofNat index, generation := slot.generation } = slot.links := by
  have hentry : table.lookup? { index := UInt32.ofNat index, generation := slot.generation } = slot.entry := by
    simp [lookup?, UInt32.toNat_ofNat_of_lt' (h.lt_size hslot), hslot]
  rw [linksOf, hentry]
  rfl

theorem allLinks_nodup (h : table.Numbered) (hforest : Forest table.lookup? given) : table.allLinks.Nodup := by
  have hslots : ∀ {index slot}, table.slots.toList[index]? = some slot → table.slots[index]? = some slot :=
    fun hslot => Array.getElem?_toList ▸ hslot
  unfold allLinks
  rw [List.nodup_flatMap, List.pairwise_iff_getElem]
  constructor
  · intro slot hslot
    obtain ⟨index, hindex⟩ := List.mem_iff_getElem?.1 hslot
    exact linksOf_slot h (hslots hindex) ▸ hforest.nodup _
  · intro low high hlow hhigh hlt child hchild hchild'
    -- Both slots hold a link to the same handle, so they would be the same slot.
    have hslot := hslots (List.getElem?_eq_getElem hlow)
    have hslot' := hslots (List.getElem?_eq_getElem hhigh)
    rw [← linksOf_slot h hslot] at hchild
    rw [← linksOf_slot h hslot'] at hchild'
    have hnumber := congrArg (·.index.toNat) (hforest.once _ _ child hchild hchild')
    simp only [UInt32.toNat_ofNat_of_lt' (h.lt_size hslot), UInt32.toNat_ofNat_of_lt' (h.lt_size hslot')] at hnumber
    exact Nat.ne_of_lt hlt hnumber

end Slots

end EventTable

namespace WaitList

/-- Slots, free list, counter and links agree after a run. -/
structure Housed (ops : List EventOp) : Prop where
  /-- The free list has the number of each empty slot once, and nothing else. -/
  free : ((after ops).table.free.map UInt32.toNat).Perm (after ops).table.vacancies
  live : (after ops).size = (after ops).table.population
  /-- A wait that reaps an event has one to count off. -/
  counted : ∀ event, (after ops).table.knows event = true → 0 < (after ops).size
  /-- So has a removal for each event that it comes to. -/
  removes : ∀ event, EventTable.Removal (after ops).table [event] ((after ops).remove event).table
  given : ∀ child ∈ (after ops).table.allLinks, child ∈ given ops

/-- The links of all slots together are those of a forest. -/
structure Branching (ops : List EventOp) : Prop where
  /-- No handle is linked twice, neither under one event nor under two. -/
  once : (after ops).table.allLinks.Nodup
  /-- No links lead from an event back to it. -/
  acyclic : ∀ event,
    ¬ Relation.TransGen (fun parent child => child ∈ linksOf (after ops).table.lookup? parent) event event

theorem kept_apply {list : WaitList} {handed : List Event} (h : list.table.Kept handed) (op : EventOp) :
    (list.apply op).table.Kept (handed ++ (list.answer op).names) := by
  refine apply_keeps (P := fun table => table.Kept (handed ++ (list.answer op).names)) ?_ ?_ ?_ ?_
  · intro table hkept
    exact hkept.insert
  · intro table event old entry hkept hold hlinked
    refine hkept.setEntry hold fun child hchild => ?_
    rcases hlinked child hchild with hbefore | hnew
    · exact hkept.named child (EventTable.mem_allLinks_of_linked hold hbefore)
    · exact List.mem_append_right _ hnew
  · intro table event hkept
    exact hkept.remove event
  · exact { h with named := fun child hchild => List.mem_append_left _ (h.named child hchild) }

theorem kept_after (ops : List EventOp) : (after ops).table.Kept (given ops) := by
  induction ops using List.reverseRecOn with
  | nil =>
    refine ⟨EventTable.wellFormed_empty, fun index slot _ hslot => ?_, rfl, fun child hchild => ?_⟩
    · cases hslot
    · cases hchild
  | append_singleton ops op ih =>
    rw [after_concat, given_concat]
    exact kept_apply ih op

/-- The table is in order after every run, and its links form a forest as long as the numbers suffice. -/
theorem table_in_order (ops : List EventOp) : Housed ops ∧ (InRange ops → Branching ops) := by
  have hkept := kept_after ops
  constructor
  · exact ⟨hkept.free_perm, hkept.live, fun event => hkept.live_pos, hkept.removal, hkept.named⟩
  · intro hrange
    have hforest := forest_after hrange
    exact ⟨EventTable.allLinks_nodup hrange.slots hforest, fun event hcycle =>
      absurd (hforest.idxOf_lt hcycle) (Nat.lt_irrefl _)⟩

/-- A wait has taken the first link out and goes no further, one event is removed and its slot used again, and
another one is removed. -/
def halfwayRun : List EventOp :=
  [.newEvent, .newChild ⟨0, 0⟩, .newChild ⟨0, 0⟩, .newChild ⟨1, 0⟩, .enterWait ⟨0, 0⟩, .stepWaiter 0,
    .remove ⟨2, 0⟩, .newChild ⟨1, 0⟩, .newChild ⟨2, 1⟩, .remove ⟨3, 0⟩]

/-- Two of the links lead to events that are gone, and one of these to a slot with a new tenant. -/
theorem table_in_order_halfway : InRange halfwayRun ∧ Housed halfwayRun ∧ Branching halfwayRun ∧
    (after halfwayRun).table.vacancies = [3] ∧ (after halfwayRun).size = 4 ∧
    (after halfwayRun).table.allLinks = [⟨2, 0⟩, ⟨3, 0⟩, ⟨2, 1⟩, ⟨4, 0⟩] := by
  have hrange : InRange halfwayRun :=
    ⟨by decide +kernel, fun index => Nat.lt_of_le_of_lt (reapsFrom_le_length {} halfwayRun index) (by decide)⟩
  obtain ⟨hhoused, hbranching⟩ := table_in_order halfwayRun
  exact ⟨hrange, hhoused, hbranching hrange, by decide +kernel, by decide +kernel, by decide +kernel⟩

end WaitList

end ComputeCore
