import ComputeCore.Event.Table
import ComputeCore.Proofs.Sums
/-!
# What a handle names

How each operation of the event table changes what handles name. `EventTable.lookup?` is all that the
rest of the runtime sees of the table, so an operation is described by what `lookup?` answers
afterwards: a changed event changes for its own handle only, a removed event becomes unknown, and
removing a tree makes some handles unknown and touches no other.
-/

namespace ComputeCore

namespace EventTable

section Lookup
variable {table : EventTable} {event other : Event} {entry old : EventEntry}

/-! ## Looking up -/

theorem lookup?_eq_some_iff : table.lookup? event = some entry ↔
    table.slots[event.index.toNat]? = some { generation := event.generation, entry := some entry } := by
  unfold lookup?
  cases hslot : table.slots[event.index.toNat]? with
  | none => simp
  | some slot =>
    obtain ⟨generation, content⟩ := slot
    simp

theorem knows_iff : table.knows event = true ↔ ∃ entry, table.lookup? event = some entry :=
  Option.isSome_iff_exists

theorem lookup?_eq_none (h : table.knows event = false) : table.lookup? event = none := by
  simpa [knows] using h

/-- What the handles of one slot name depends on that slot alone. -/
theorem lookup?_congr {table' : EventTable}
    (h : table'.slots[event.index.toNat]? = table.slots[event.index.toNat]?) :
    table'.lookup? event = table.lookup? event := by
  simp only [lookup?, h]

/-- Different handles of one slot do not both name an event. -/
theorem lookup?_eq_none_of_ne (h : table.lookup? event = some entry) (hindex : other.index = event.index)
    (hne : other ≠ event) : table.lookup? other = none := by
  have hslot := lookup?_eq_some_iff.1 h
  have hgeneration : event.generation ≠ other.generation := by
    intro heq
    cases other; cases event
    simp_all
  simp [lookup?, hindex, hslot, hgeneration]

theorem lt_size (h : table.lookup? event = some entry) : event.index.toNat < table.slots.size :=
  (Array.getElem?_eq_some_iff.1 (lookup?_eq_some_iff.1 h)).1

/-! ## Changing an event -/

theorem slots_setEntry_ne {index : UInt32} (h : index ≠ event.index) :
    (table.setEntry event entry).slots[index.toNat]? = table.slots[index.toNat]? := by
  refine Array.getElem?_setIfInBounds_ne fun heq => h ?_
  exact (UInt32.toNat_inj.1 heq).symm

theorem lookup?_setEntry (h : table.lookup? event = some old) :
    lookup? (table.setEntry event entry) other =
      if other = event then some entry else table.lookup? other := by
  by_cases hindex : other.index = event.index
  · have hset : lookup? (table.setEntry event entry) event = some entry :=
      lookup?_eq_some_iff.2 (by simp [setEntry, lt_size h])
    by_cases heq : other = event
    · simp [heq, hset]
    · rw [if_neg heq, lookup?_eq_none_of_ne h hindex heq, lookup?_eq_none_of_ne hset hindex heq]
  · rw [if_neg fun heq => hindex (congrArg Event.index heq)]
    exact lookup?_congr (slots_setEntry_ne hindex)

/-! ## Taking an event out -/

theorem remove_of_unknown (h : table.lookup? event = none) : table.remove event = table := by
  simp [remove, knows, h]

/-- Taking an event out makes its own handle unknown and touches no other. -/
theorem lookup?_remove :
    lookup? (table.remove event) other = if other = event then none else table.lookup? other := by
  cases h : table.lookup? event with
  | none =>
    rw [remove_of_unknown h]
    split
    · next heq => rw [heq, h]
    · rfl
  | some entry =>
    have hknows : table.knows event = true := knows_iff.2 ⟨entry, h⟩
    by_cases hindex : other.index = event.index
    · have hnone : lookup? (table.remove event) other = none := by
        simp [remove, hknows, lookup?, hindex, lt_size h]
      rw [hnone]
      split
      · rfl
      · next hne => rw [lookup?_eq_none_of_ne h hindex hne]
    · rw [if_neg fun heq => hindex (congrArg Event.index heq)]
      refine lookup?_congr ?_
      rw [remove, if_pos hknows]
      refine Array.getElem?_setIfInBounds_ne fun heq => hindex ?_
      exact (UInt32.toNat_inj.1 heq).symm

/-- What holds of a table whichever event is taken out of it holds after a list of trees is. -/
theorem removeAll_keeps {P : EventTable → Prop} (hremove : ∀ table event, P table → P (table.remove event))
    (steps : Nat) (table : EventTable) (pending : List Event) (h : P table) : P (removeAll steps table pending) := by
  fun_induction removeAll with
  | case1 => exact h
  | case2 => exact h
  | case3 steps table event pending hunknown ih => exact ih h
  | case4 steps table event pending entry hfound ih => exact ih (hremove table event h)

/-- Taking a list of trees out makes some handles unknown and touches no other. -/
theorem lookup?_removeAll (steps : Nat) (table : EventTable) (pending : List Event) (other : Event) :
    lookup? (removeAll steps table pending) other = table.lookup? other ∨
      lookup? (removeAll steps table pending) other = none := by
  induction steps generalizing table pending with
  | zero => exact .inl rfl
  | succ steps ih =>
    cases pending with
    | nil => exact .inl rfl
    | cons event pending =>
      unfold removeAll
      split
      · exact ih table pending
      · next entry h =>
        rcases ih (table.remove event) (entry.linked.reverse ++ pending) with hkept | hgone
        · rw [hkept, lookup?_remove]
          split
          · exact .inr rfl
          · exact .inl rfl
        · exact .inr hgone

theorem lookup?_removeTree (table : EventTable) (event other : Event) :
    lookup? (table.removeTree event) other = table.lookup? other ∨
      lookup? (table.removeTree event) other = none :=
  lookup?_removeAll _ table [event] other

/-! ## Putting an event in -/

/-- A new event comes into the slot emptied last, or into a slot of its own. -/
theorem insert_cases (table : EventTable) :
    (∃ index free, table.free = index :: free ∧
      table.insert.1 = { index, generation := (table.slots.getD index.toNat default).generation } ∧
      table.insert.2 = { table with free, live := table.live + 1 }.setEntry table.insert.1 {}) ∨
    (table.free = [] ∧
      table.insert.1 = { index := UInt32.ofNat table.slots.size, generation := 0 } ∧
      table.insert.2 =
        { table with slots := table.slots.push { entry := some {} }, live := table.live + 1 }) := by
  unfold insert
  cases hfree : table.free with
  | cons index free => exact .inl ⟨index, free, rfl, rfl, rfl⟩
  | nil => exact .inr ⟨rfl, rfl, rfl⟩

/-- A handle that names an event names it after an insertion too, or the new one in its place. -/
theorem lookup?_insert_of_some (h : table.lookup? other = some entry) :
    lookup? table.insert.2 other = some entry ∨ lookup? table.insert.2 other = some {} := by
  rcases insert_cases table with ⟨index, free, -, hevent, htable⟩ | ⟨-, -, htable⟩
  · rw [htable]
    by_cases hindex : other.index = table.insert.1.index
    · -- The free list need not be right here: a slot it names may still be taken.
      refine .inr (lookup?_eq_some_iff.2 ?_)
      have hslot := lookup?_eq_some_iff.1 h
      have hother : other.index = index := by rw [hindex, hevent]
      rw [hother] at hslot
      obtain ⟨hlt, hget⟩ := Array.getElem?_eq_some_iff.1 hslot
      simp [setEntry, hevent, hother, hlt, hget]
    · exact .inl ((lookup?_congr (slots_setEntry_ne hindex)).trans h)
  · refine .inl ?_
    rw [htable, ← h]
    refine lookup?_congr ?_
    exact Array.getElem?_push_lt (lt_size h) ▸ (Array.getElem?_eq_getElem (lt_size h)).symm

end Lookup

/-! ## Free slots -/

/-- The free list names the empty slots, each of them once. -/
structure WellFormed (table : EventTable) : Prop where
  vacant : ∀ index : UInt32, index ∈ table.free ↔
    ∃ generation, table.slots[index.toNat]? = some { generation, entry := none }
  nodup : table.free.Nodup

/-- Every slot has a number. -/
def Numbered (table : EventTable) : Prop :=
  table.slots.size ≤ UInt32.size

instance (table : EventTable) : Decidable table.Numbered :=
  inferInstanceAs (Decidable (table.slots.size ≤ UInt32.size))

section Free
variable {table : EventTable} {event other : Event} {entry old : EventEntry}

theorem wellFormed_empty : WellFormed {} := ⟨by simp, .nil⟩

theorem WellFormed.setEntry (h : table.WellFormed) (hold : table.lookup? event = some old) :
    (table.setEntry event entry).WellFormed := by
  refine ⟨fun index => ?_, h.nodup⟩
  by_cases hindex : index = event.index
  · have hslot := lookup?_eq_some_iff.1 hold
    have hbefore : index ∉ table.free := fun hfree => by
      obtain ⟨generation, hempty⟩ := (h.vacant index).1 hfree
      simp [hindex, hslot] at hempty
    refine iff_of_false hbefore ?_
    simp [EventTable.setEntry, hindex, lt_size hold]
  · rw [slots_setEntry_ne hindex]
    exact h.vacant index

theorem WellFormed.remove (h : table.WellFormed) (event : Event) : (table.remove event).WellFormed := by
  cases hentry : table.lookup? event with
  | none => rwa [remove_of_unknown hentry]
  | some old =>
    have hslot := lookup?_eq_some_iff.1 hentry
    have hbefore : event.index ∉ table.free := fun hfree => by
      obtain ⟨generation, hempty⟩ := (h.vacant event.index).1 hfree
      simp [hslot] at hempty
    rw [EventTable.remove, if_pos (knows_iff.2 ⟨old, hentry⟩)]
    refine ⟨fun index => ?_, List.nodup_cons.2 ⟨hbefore, h.nodup⟩⟩
    by_cases hindex : index = event.index
    · simp [hindex, lt_size hentry]
    · have hne : event.index.toNat ≠ index.toNat := fun heq => hindex (UInt32.toNat_inj.1 heq).symm
      simp only [List.mem_cons, hindex, false_or, Array.getElem?_setIfInBounds_ne hne]
      exact h.vacant index

theorem numbered_of_push {slot : EventSlot} {live : Nat} {table' : EventTable}
    (htable : table' = { table with slots := table.slots.push slot, live })
    (hroom : table'.Numbered) : table.slots.size < UInt32.size := by
  simp only [Numbered, htable, Array.size_push] at hroom
  omega

/-- A new event's handle names nothing before, and neither does any other handle of its slot. -/
theorem insert_fresh (h : table.WellFormed) (hroom : table.insert.2.Numbered)
    (hknown : table.lookup? other = some entry) : other.index ≠ table.insert.1.index := by
  have hslot := lookup?_eq_some_iff.1 hknown
  rcases insert_cases table with ⟨index, free, hfree, hevent, -⟩ | ⟨-, hevent, htable⟩
  · rintro heq
    obtain ⟨generation, hempty⟩ := (h.vacant index).1 (by simp [hfree])
    rw [heq, hevent] at hslot
    simp [hempty] at hslot
  · rintro heq
    have hlt := lt_size hknown
    have hsize := numbered_of_push htable hroom
    rw [heq, hevent, UInt32.toNat_ofNat_of_lt' hsize] at hlt
    exact Nat.lt_irrefl _ hlt

theorem lookup?_insert (h : table.WellFormed) (hroom : table.insert.2.Numbered) :
    lookup? table.insert.2 other = if other = table.insert.1 then some {} else table.lookup? other := by
  rcases insert_cases table with ⟨index, free, hfree, hevent, htable⟩ | ⟨-, hevent, htable⟩
  · obtain ⟨generation, hempty⟩ := (h.vacant index).1 (by simp [hfree])
    obtain ⟨hlt, hget⟩ := Array.getElem?_eq_some_iff.1 hempty
    have hnew : lookup? table.insert.2 table.insert.1 = some {} :=
      lookup?_eq_some_iff.2 (by simp [htable, EventTable.setEntry, hevent, hlt])
    by_cases hindex : other.index = table.insert.1.index
    · by_cases heq : other = table.insert.1
      · rw [if_pos heq, heq, hnew]
      · rw [if_neg heq, lookup?_eq_none_of_ne hnew hindex heq]
        have hother : other.index = index := by rw [hindex, hevent]
        simp [lookup?, hother, hempty]
    · rw [if_neg fun heq => hindex (congrArg Event.index heq), htable]
      exact lookup?_congr (slots_setEntry_ne hindex)
  · have hsize := numbered_of_push htable hroom
    have hplace : table.insert.1.index.toNat = table.slots.size := by
      rw [hevent, UInt32.toNat_ofNat_of_lt' hsize]
    have hnew : lookup? table.insert.2 table.insert.1 = some {} :=
      lookup?_eq_some_iff.2 (by rw [hplace, htable, hevent]; simp)
    by_cases hindex : other.index = table.insert.1.index
    · by_cases heq : other = table.insert.1
      · rw [if_pos heq, heq, hnew]
      · rw [if_neg heq, lookup?_eq_none_of_ne hnew hindex heq]
        simp [lookup?, hindex, hplace]
    · rw [if_neg fun heq => hindex (congrArg Event.index heq), htable]
      refine lookup?_congr ?_
      have hne : other.index.toNat ≠ table.slots.size := fun heq =>
        hindex (UInt32.toNat_inj.1 (heq.trans hplace.symm))
      simp [Array.getElem?_push, hne]

theorem WellFormed.insert (h : table.WellFormed) : table.insert.2.WellFormed := by
  rcases insert_cases table with ⟨index, free, hfree, hevent, htable⟩ | ⟨hfree, -, htable⟩
  · obtain ⟨hnotMem, hnodup⟩ := List.nodup_cons.1 (hfree ▸ h.nodup)
    obtain ⟨generation, hempty⟩ := (h.vacant index).1 (by simp [hfree])
    obtain ⟨hlt, -⟩ := Array.getElem?_eq_some_iff.1 hempty
    rw [htable]
    refine ⟨fun other => ?_, hnodup⟩
    by_cases hindex : other = index
    · refine iff_of_false (hindex ▸ hnotMem) ?_
      simp [EventTable.setEntry, hevent, hindex, hlt]
    · have hne : index.toNat ≠ other.toNat := fun heq => hindex (UInt32.toNat_inj.1 heq).symm
      have hvacant := h.vacant other
      simp only [hfree, List.mem_cons, hindex, false_or] at hvacant
      simp only [EventTable.setEntry, hevent, Array.getElem?_setIfInBounds_ne hne]
      exact hvacant
  · rw [htable]
    refine ⟨fun other => ?_, h.nodup⟩
    by_cases hplace : other.toNat = table.slots.size
    · refine iff_of_false (by simp [hfree]) ?_
      simp [hplace]
    · rw [Array.getElem?_push, if_neg hplace]
      exact h.vacant other

end Free

/-! ## Counting slots -/

section Slots
variable {table : EventTable}

@[simp] theorem size_setEntry (event : Event) (entry : EventEntry) :
    (table.setEntry event entry).slots.size = table.slots.size := by
  simp [setEntry]

@[simp] theorem size_remove (event : Event) : (table.remove event).slots.size = table.slots.size := by
  unfold remove
  split <;> simp

theorem size_removeAll (steps : Nat) (table : EventTable) (pending : List Event) :
    (removeAll steps table pending).slots.size = table.slots.size := by
  refine removeAll_keeps (P := fun left => left.slots.size = table.slots.size) ?_ steps table pending rfl
  intro left event hsize
  rw [size_remove, hsize]

theorem size_insert (table : EventTable) : table.slots.size ≤ table.insert.2.slots.size := by
  rcases insert_cases table with ⟨index, free, -, -, htable⟩ | ⟨-, -, htable⟩ <;> simp [htable]

end Slots

/-! ## Counting links -/

section Links
variable {table : EventTable} {event : Event} {old : EventEntry}

theorem linkCount_setEntry (h : table.lookup? event = some old) (entry : EventEntry) :
    (table.setEntry event entry).linkCount + old.linked.length =
      table.linkCount + entry.linked.length := by
  have hslot := lookup?_eq_some_iff.1 h
  rw [← Array.getElem?_toList] at hslot
  simpa [linkCount, setEntry, slotLinks] using
    foldr_set slotLinks 0 { generation := event.generation, entry := some entry } hslot

theorem linkCount_remove (h : table.lookup? event = some old) :
    (table.remove event).linkCount + old.linked.length = table.linkCount := by
  have hslot := lookup?_eq_some_iff.1 h
  rw [← Array.getElem?_toList] at hslot
  simpa [linkCount, remove, knows_iff.2 ⟨old, h⟩, slotLinks] using
    foldr_set slotLinks 0 { generation := event.generation + 1, entry := none } hslot

end Links

end EventTable

end ComputeCore
