import Mathlib.Data.List.Induction
import ComputeCore.Proofs.Event.Operations
/-!
# Generations

A slot changes its generation when it loses its tenant and at no other time, so its generation counts how
often it was reaped. As long as the count does not wrap round, a handle that was given once is behind its
slot's generation for good when its event is gone, and a new handle is none of those given before.
-/

namespace ComputeCore

/-! ## Slots -/

/-- A slot keeps its generation, and its tenant if it has one. -/
def EventSlot.Stays (slot slot' : EventSlot) : Prop :=
  slot'.generation = slot.generation ∧ (slot.entry.isSome = true → slot'.entry.isSome = true)

/-- A slot loses its tenant and moves on to the next generation. -/
def EventSlot.Reaped (slot slot' : EventSlot) : Prop :=
  slot.entry.isSome = true ∧ slot'.entry = none ∧ slot'.generation = slot.generation + 1

def EventSlot.Moves (slot slot' : EventSlot) : Prop :=
  slot.Stays slot' ∨ slot.Reaped slot'

namespace EventTable

/-- Whether an event lives in the slot with this number. -/
def occupied (table : EventTable) (index : Nat) : Bool :=
  match table.slots[index]? with
  | some slot => slot.entry.isSome
  | none => false

/-- The same happens to every slot, and slots that are added start at generation zero. -/
structure Slotwise (step : EventSlot → EventSlot → Prop) (table table' : EventTable) : Prop where
  old : ∀ (index : Nat) (slot : EventSlot), table.slots[index]? = some slot →
    ∃ slot', table'.slots[index]? = some slot' ∧ step slot slot'
  new : ∀ (index : Nat) (slot : EventSlot), table.slots[index]? = none → table'.slots[index]? = some slot →
    slot.generation = 0

/-- Some slots are reaped, and nothing else happens. -/
def Loses (table table' : EventTable) : Prop :=
  table'.slots.size = table.slots.size ∧ ∀ (index : Nat) (slot : EventSlot), table.slots[index]? = some slot →
    ∃ slot', table'.slots[index]? = some slot' ∧ (slot' = slot ∨ slot.Reaped slot')

/-- The handle's event lives, or its slot has moved on since. -/
def Past (table : EventTable) (event : Event) : Prop :=
  ∃ slot, table.slots[event.index.toNat]? = some slot ∧
    (slot.generation = event.generation ∧ slot.entry.isSome = true ∨
      event.generation.toNat < slot.generation.toNat)

section Slots
variable {table table' table'' : EventTable} {event other : Event} {entry old : EventEntry}

theorem keeps_refl (table : EventTable) : Slotwise EventSlot.Stays table table := by
  constructor
  · intro index slot hslot
    exact ⟨slot, hslot, rfl, id⟩
  · intro index slot hnone hsome
    simp [hnone] at hsome

theorem keeps_trans (h : Slotwise EventSlot.Stays table table') (h' : Slotwise EventSlot.Stays table' table'') :
    Slotwise EventSlot.Stays table table'' := by
  constructor
  · intro index slot hslot
    obtain ⟨slot', hslot', hgeneration, hstays⟩ := h.old index slot hslot
    obtain ⟨slot'', hslot'', hgeneration', hstays'⟩ := h'.old index slot' hslot'
    exact ⟨slot'', hslot'', hgeneration'.trans hgeneration, hstays' ∘ hstays⟩
  · intro index slot hnone hsome
    cases hmiddle : table'.slots[index]? with
    | none => exact h'.new index slot hmiddle hsome
    | some slot' =>
      obtain ⟨slot'', hslot'', hgeneration, -⟩ := h'.old index slot' hmiddle
      obtain rfl := Option.some.inj (hslot''.symm.trans hsome)
      exact hgeneration.trans (h.new index slot' hnone hmiddle)

theorem Slotwise.moves (h : Slotwise EventSlot.Stays table table') : Slotwise EventSlot.Moves table table' := by
  refine ⟨fun index slot hslot => ?_, h.new⟩
  obtain ⟨slot', hslot', hstays⟩ := h.old index slot hslot
  exact ⟨slot', hslot', .inl hstays⟩

theorem Loses.moves (h : table.Loses table') : Slotwise EventSlot.Moves table table' := by
  constructor
  · intro index slot hslot
    obtain ⟨slot', hslot', rfl | hreaped⟩ := h.2 index slot hslot
    · exact ⟨slot', hslot', .inl ⟨rfl, id⟩⟩
    · exact ⟨slot', hslot', .inr hreaped⟩
  · intro index slot hnone hsome
    have hlt := (Array.getElem?_eq_some_iff.1 hsome).1
    have hge := Array.getElem?_eq_none_iff.1 hnone
    rw [h.1] at hlt
    omega

/-! ## What each operation does to the slots -/

theorem keeps_setEntry (h : table.lookup? event = some old) :
    Slotwise EventSlot.Stays table (table.setEntry event entry) := by
  have hslot := lookup?_eq_some_iff.1 h
  constructor
  · intro index slot hindex
    by_cases heq : event.index.toNat = index
    · subst heq
      obtain rfl := Option.some.inj (hslot.symm.trans hindex)
      refine ⟨{ generation := event.generation, entry := some entry }, ?_, rfl, fun _ => rfl⟩
      simp [setEntry, lt_size h]
    · refine ⟨slot, ?_, rfl, id⟩
      rw [setEntry, Array.getElem?_setIfInBounds_ne heq, hindex]
  · intro index slot hnone hsome
    have hlt := (Array.getElem?_eq_some_iff.1 hsome).1
    have hge := Array.getElem?_eq_none_iff.1 hnone
    rw [size_setEntry] at hlt
    omega

theorem keeps_insert (h : table.WellFormed) : Slotwise EventSlot.Stays table table.insert.2 := by
  rcases insert_cases table with ⟨index, free, hfree, hevent, htable⟩ | ⟨-, -, htable⟩
  · obtain ⟨generation, hempty⟩ := (h.vacant index).1 (by simp [hfree])
    obtain ⟨hlt, hget⟩ := Array.getElem?_eq_some_iff.1 hempty
    constructor
    · intro place slot hplace
      by_cases heq : index.toNat = place
      · subst heq
        obtain rfl := Option.some.inj (hempty.symm.trans hplace)
        refine ⟨{ generation, entry := some {} }, ?_, rfl, fun _ => rfl⟩
        simp [htable, setEntry, hevent, hlt, hget]
      · refine ⟨slot, ?_, rfl, id⟩
        rw [htable, setEntry, hevent, Array.getElem?_setIfInBounds_ne heq, hplace]
    · intro place slot hnone hsome
      have hlt := (Array.getElem?_eq_some_iff.1 hsome).1
      have hge := Array.getElem?_eq_none_iff.1 hnone
      rw [htable, size_setEntry] at hlt
      simp only at hlt
      omega
  · constructor
    · intro place slot hplace
      refine ⟨slot, ?_, rfl, id⟩
      obtain ⟨hlt, hget⟩ := Array.getElem?_eq_some_iff.1 hplace
      rw [htable]
      simp [Array.getElem?_push, Nat.ne_of_lt hlt, hplace]
    · intro place slot hnone hsome
      rw [htable, Array.getElem?_push] at hsome
      split at hsome
      · obtain rfl := Option.some.inj hsome
        rfl
      · simp [hnone] at hsome

theorem loses_refl (table : EventTable) : table.Loses table :=
  ⟨rfl, fun _ slot hslot => ⟨slot, hslot, .inl rfl⟩⟩

/-- A slot that was reaped has no tenant left to lose. -/
theorem Loses.trans (h : table.Loses table') (h' : table'.Loses table'') : table.Loses table'' := by
  refine ⟨h'.1.trans h.1, fun index slot hslot => ?_⟩
  obtain ⟨slot', hslot', hfirst⟩ := h.2 index slot hslot
  obtain ⟨slot'', hslot'', hsecond⟩ := h'.2 index slot' hslot'
  refine ⟨slot'', hslot'', ?_⟩
  rcases hfirst with rfl | hreaped
  · exact hsecond
  · rcases hsecond with rfl | hagain
    · exact .inr hreaped
    · have := hagain.1
      simp [hreaped.2.1] at this

theorem loses_remove (table : EventTable) (event : Event) : table.Loses (table.remove event) := by
  cases h : table.lookup? event with
  | none =>
    rw [remove_of_unknown h]
    exact loses_refl table
  | some entry =>
    refine ⟨size_remove event, fun index slot hindex => ?_⟩
    have hslot := lookup?_eq_some_iff.1 h
    rw [remove, if_pos (knows_iff.2 ⟨entry, h⟩)]
    by_cases heq : event.index.toNat = index
    · subst heq
      obtain rfl := Option.some.inj (hslot.symm.trans hindex)
      exact ⟨{ generation := event.generation + 1, entry := none }, by simp [lt_size h], .inr ⟨rfl, rfl, rfl⟩⟩
    · exact ⟨slot, by simp only [Array.getElem?_setIfInBounds_ne heq, hindex], .inl rfl⟩

theorem loses_removeAll (steps : Nat) (table : EventTable) (pending : List Event) :
    table.Loses (removeAll steps table pending) :=
  removeAll_keeps (fun left event hloses => hloses.trans (loses_remove left event)) steps table pending
    (loses_refl table)

theorem move_moves {waiter waiter' : Waiter} (h : waiter.Move table table' waiter') :
    Slotwise EventSlot.Moves table table' := by
  cases h with
  | leave event outer calls unknown table_eq => exact table_eq ▸ (keeps_refl table).moves
  | reap event outer calls found table_eq => exact table_eq ▸ (loses_remove table event).moves
  | fallAsleep event outer calls found table_eq => exact table_eq ▸ (keeps_refl table).moves
  | descend event outer calls completed child rest found table_eq => exact table_eq ▸ (keeps_setEntry found).moves

end Slots

end EventTable

/-! ## How often a slot was reaped -/

namespace WaitList

/-- Whether an operation reaps the slot with this number. -/
def vacates (list : WaitList) (op : EventOp) (index : Nat) : Bool :=
  list.table.occupied index && !(list.apply op).table.occupied index

/-- How often a run that starts here reaps a slot. -/
def reapsFrom : WaitList → List EventOp → Nat → Nat
  | _, [], _ => 0
  | list, op :: ops, index => (list.vacates op index).toNat + reapsFrom (list.apply op) ops index

def reaps (ops : List EventOp) (index : Nat) : Nat :=
  reapsFrom {} ops index

theorem reapsFrom_append (list : WaitList) (ops more : List EventOp) (index : Nat) :
    list.reapsFrom (ops ++ more) index =
      list.reapsFrom ops index + (list.applyAll ops).reapsFrom more index := by
  induction ops generalizing list with
  | nil => simp [reapsFrom, applyAll]
  | cons op ops ih =>
    simp only [List.cons_append, reapsFrom, ih, Nat.add_assoc]
    rfl

theorem reaps_append (ops more : List EventOp) (index : Nat) :
    reaps (ops ++ more) index = reaps ops index + (after ops).reapsFrom more index :=
  reapsFrom_append {} ops more index

theorem reaps_concat (ops : List EventOp) (op : EventOp) (index : Nat) :
    reaps (ops ++ [op]) index = reaps ops index + ((after ops).vacates op index).toNat := by
  rw [reaps_append, reapsFrom, reapsFrom, Nat.add_zero]

theorem reapsFrom_le_length (list : WaitList) (ops : List EventOp) (index : Nat) :
    list.reapsFrom ops index ≤ ops.length := by
  induction ops generalizing list with
  | nil => exact Nat.le_refl _
  | cons op ops ih =>
    have hrest := ih (list.apply op)
    have hone := Bool.toNat_le (list.vacates op index)
    simp only [reapsFrom, List.length_cons]
    omega

theorem apply_moves {list : WaitList} (h : list.table.WellFormed) (op : EventOp) :
    EventTable.Slotwise EventSlot.Moves list.table (list.apply op).table := by
  cases op with
  | newEvent => exact (EventTable.keeps_insert h).moves
  | newChild parent =>
    cases hknows : list.table.knows parent with
    | false =>
      rw [apply_newChild_of_unknown hknows]
      exact (EventTable.keeps_refl _).moves
    | true =>
      obtain ⟨entry, hentry, happly⟩ := apply_newChild_of_known hknows
      rw [happly]
      exact (EventTable.keeps_trans (EventTable.keeps_insert h) (EventTable.keeps_setEntry hentry)).moves
  | setCompleted event value =>
    simp only [apply]
    cases hentry : list.table.lookup? event with
    | none =>
      rw [setCompleted_of_unknown hentry]
      exact (EventTable.keeps_refl _).moves
    | some entry =>
      rw [table_setCompleted hentry]
      exact (EventTable.keeps_setEntry hentry).moves
  | remove event => exact (EventTable.loses_removeAll _ _ _).moves
  | enterWait event => exact (EventTable.keeps_refl _).moves
  | stepWaiter number =>
    rcases apply_stepWaiter list number with hsame | hstep
    · rw [hsame]
      exact (EventTable.keeps_refl _).moves
    · obtain ⟨waiter, waiter', -, hmoved, -⟩ := stepWaiter?_eq_some hstep
      exact EventTable.move_moves (Waiter.move hmoved).2

end WaitList

/-! ## The generation counts the reaps -/

namespace EventTable
variable {table table' : EventTable} {event : Event} {reaps : Nat → Nat} {entry : EventEntry}

/-- Each slot's generation is the number of times it was reaped. -/
def Aged (table : EventTable) (reaps : Nat → Nat) : Prop :=
  ∀ index, match table.slots[index]? with
    | some slot => slot.generation.toNat = reaps index
    | none => reaps index = 0

theorem Aged.move (h : table.Aged reaps) (hmoves : Slotwise EventSlot.Moves table table')
    (hroom : ∀ index, reaps index + (table.occupied index && !table'.occupied index).toNat < UInt32.size) :
    table'.Aged fun index => reaps index + (table.occupied index && !table'.occupied index).toNat := by
  intro index
  have hroom := hroom index
  have hage := h index
  simp only [occupied] at hroom ⊢
  cases hslot : table.slots[index]? with
  | some slot =>
    obtain ⟨slot', hslot', hstep⟩ := hmoves.old index slot hslot
    simp only [hslot, hslot'] at hage hroom ⊢
    rcases hstep with ⟨hgeneration, hstays⟩ | ⟨hlived, hgone, hgeneration⟩
    · -- A slot that stays may get a tenant, which is no reap.
      have hnot : (slot.entry.isSome && !slot'.entry.isSome) = false := by
        cases hlives : slot.entry.isSome with
        | false => rfl
        | true => simp [hstays hlives]
      rw [hnot, hgeneration, hage]
      rfl
    · simp only [hlived, hgone, Option.isSome_none, Bool.not_false, Bool.and_self, Bool.toNat_true] at hroom ⊢
      rw [hgeneration, UInt32.toNat_add, hage]
      exact Nat.mod_eq_of_lt hroom
  | none =>
    simp only [hslot] at hage
    simp only [Bool.false_and, Bool.toNat_false, Nat.add_zero, hage]
    cases hslot' : table'.slots[index]? with
    | none => trivial
    | some slot' =>
      simp only [hmoves.new index slot' hslot hslot']
      rfl

theorem past_of_lookup? (h : table.lookup? event = some entry) : table.Past event :=
  ⟨_, lookup?_eq_some_iff.1 h, .inl ⟨rfl, rfl⟩⟩

/-- A handle that is behind stays behind, and one whose event goes falls behind. -/
theorem Past.move (h : table.Past event) (hmoves : Slotwise EventSlot.Moves table table') (hage : table.Aged reaps)
    (hroom : ∀ index, reaps index + (table.occupied index && !table'.occupied index).toNat < UInt32.size) :
    table'.Past event := by
  obtain ⟨slot, hslot, hpast⟩ := h
  obtain ⟨slot', hslot', hstep⟩ := hmoves.old _ slot hslot
  refine ⟨slot', hslot', ?_⟩
  rcases hstep with ⟨hgeneration, hstays⟩ | ⟨hlived, hgone, hgeneration⟩
  · rw [hgeneration]
    exact hpast.imp (fun hlive => ⟨hlive.1, hstays hlive.2⟩) id
  · have hroom := hroom event.index.toNat
    have hage := hage event.index.toNat
    simp only [occupied, hslot, hslot', hlived, hgone, Option.isSome_none, Bool.not_false, Bool.and_self,
      Bool.toNat_true] at hroom hage
    -- The only place where a generation could start over.
    have hnext : slot'.generation.toNat = slot.generation.toNat + 1 := by
      rw [hgeneration, UInt32.toNat_add, hage]
      exact Nat.mod_eq_of_lt hroom
    rcases hpast with ⟨hsame, -⟩ | hbehind
    · exact .inr (by rw [hnext, hsame]; exact Nat.lt_succ_self _)
    · exact .inr (by omega)

/-- A new handle is none of those whose events live or are gone. -/
theorem not_past_insert (h : table.WellFormed) (hroom : table.insert.2.Numbered) : ¬ table.Past table.insert.1 := by
  rintro ⟨slot, hslot, hpast⟩
  rcases insert_cases table with ⟨index, free, hfree, hevent, -⟩ | ⟨-, hevent, htable⟩
  · obtain ⟨generation, hempty⟩ := (h.vacant index).1 (by simp [hfree])
    obtain ⟨hlt, hget⟩ := Array.getElem?_eq_some_iff.1 hempty
    rw [hevent] at hslot hpast
    obtain rfl := Option.some.inj (hempty.symm.trans hslot)
    rcases hpast with ⟨-, hlives⟩ | hbehind
    · simp at hlives
    · simp [hlt, hget] at hbehind
  · have hsize := numbered_of_push htable hroom
    rw [hevent, UInt32.toNat_ofNat_of_lt' hsize] at hslot
    simp at hslot

end EventTable

end ComputeCore
