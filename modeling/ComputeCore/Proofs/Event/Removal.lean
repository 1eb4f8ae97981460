import ComputeCore.Proofs.Event.Names
/-!
# What a removal takes out

`EventTable.removeTree` bounds its work by the links in the table. `EventTable.Removal` is the same loop
without a bound: it goes on until no handle is left in line, and it may lower the count of events only where
there is one to count. `removal_removeAll` says that the bound never cuts the loop short, so a removal always
ends.

`WaitList.Removes` collects what a caller can see of it: the events that the links lead to are gone, the count
falls by their number, and every other event stays as it was, in the slot and the generation it was in.
-/

namespace ComputeCore

namespace EventTable

/-! ## The loop without a bound -/

/-- The line of a removal is worked off: from a table with handles in line to the table that is left. -/
inductive Removal : EventTable → List Event → EventTable → Prop
  | done {table} : Removal table [] table
  /-- The handle names nothing any more, or never did. -/
  | skip {table table' event pending} (unknown : table.lookup? event = none)
      (rest : Removal table pending table') : Removal table (event :: pending) table'
  /-- The event goes, and its links come in line in its place, the newest first. -/
  | take {table table' event pending entry} (found : table.lookup? event = some entry)
      (counted : 0 < table.live)
      (rest : Removal (table.remove event) (entry.linked.reverse ++ pending) table') :
      Removal table (event :: pending) table'

section Removal
variable {table : EventTable} {event : Event} {given : List Event}

/-- An event that is there is counted. -/
theorem Tally.live_pos (h : table.Tally given) (hknows : table.knows event = true) : 0 < table.live := by
  rw [h.live]
  exact List.length_pos_of_mem (List.mem_filter.2 ⟨h.known event hknows, hknows⟩)

/-- By induction on the steps. A handle that is skipped shortens the line; one that is taken brings as many
handles in line as links leave the table. -/
theorem removal_removeAll {P : EventTable → Prop}
    (hcounted : ∀ table event, P table → table.knows event = true → 0 < table.live)
    (hremove : ∀ table event, P table → P (table.remove event)) (steps : Nat) (table : EventTable)
    (pending : List Event) (hsteps : pending.length + table.linkCount ≤ steps) (h : P table) :
    Removal table pending (removeAll steps table pending) := by
  fun_induction removeAll with
  | case1 table pending =>
    obtain rfl : pending = [] := List.length_eq_zero_iff.1 (by omega)
    exact .done
  | case2 => exact .done
  | case3 steps table event pending hunknown ih =>
    simp only [List.length_cons] at hsteps
    exact .skip hunknown (ih (by omega) h)
  | case4 steps table event pending entry hfound ih =>
    have hlinks := linkCount_remove hfound
    simp only [List.length_cons] at hsteps
    apply Removal.take hfound (hcounted table event h (knows_iff.2 ⟨entry, hfound⟩))
    apply ih _ (hremove table event h)
    rw [List.length_append, List.length_reverse]
    omega

/-- A removal works its line off in every table that counts its events, provided that it goes on doing so as
they are taken out. -/
theorem removal_of_counted {P : EventTable → Prop}
    (hcounted : ∀ table event, P table → table.knows event = true → 0 < table.live)
    (hremove : ∀ table event, P table → P (table.remove event)) (h : P table) (event : Event) :
    Removal table [event] (table.removeTree event) := by
  apply removal_removeAll hcounted hremove _ table [event] _ h
  rw [List.length_singleton]
  omega

theorem removal_removeTree (htally : table.Tally given) (event : Event) :
    Removal table [event] (table.removeTree event) :=
  removal_of_counted (P := fun table => table.Tally given) (fun _ _ h hknows => h.live_pos hknows)
    (fun _ event h => h.remove event) htally event

theorem knows_removeTree_iff {other : Event} : (table.removeTree event).knows other = true ↔
    table.knows other = true ∧ ¬ Linked table.lookup? event other := by
  unfold knows
  by_cases hlinked : Linked table.lookup? event other
  · simp [lookup?_removeTree_of_linked hlinked, hlinked]
  · simp [lookup?_removeTree_of_not_linked hlinked, hlinked]

/-- The handles that a removal makes unknown, in the order in which they were given. -/
def erased (table : EventTable) (event : Event) (given : List Event) : List Event :=
  (given.filter table.knows).filter fun other => !(table.removeTree event).knows other

theorem mem_erased_iff {other : Event} (h : table.Tally given) : other ∈ table.erased event given ↔
    table.knows other = true ∧ Linked table.lookup? event other := by
  unfold erased
  rw [List.mem_filter, List.mem_filter, Bool.not_eq_true', Bool.eq_false_iff, ne_eq, knows_removeTree_iff]
  constructor
  · rintro ⟨⟨-, hknows⟩, hgone⟩
    exact ⟨hknows, not_not.1 fun hnot => hgone ⟨hknows, hnot⟩⟩
  · rintro ⟨hknows, hlinked⟩
    exact ⟨⟨h.known other hknows, hknows⟩, fun hkept => hkept.2 hlinked⟩

/-- What lived is erased or still lives. -/
theorem live_removeTree (h : table.Tally given) (event : Event) :
    (table.removeTree event).live + (table.erased event given).length = table.live := by
  have hafter : (table.removeTree event).Tally given := h.removeAll _ _
  have hkept : (given.filter table.knows).filter (table.removeTree event).knows =
      given.filter (table.removeTree event).knows := by
    rw [List.filter_filter]
    refine List.filter_congr fun other _ => ?_
    cases hknows : (table.removeTree event).knows other with
    | false => rfl
    | true => simp [(knows_removeTree_iff.1 hknows).1]
  rw [hafter.live, h.live, ← hkept]
  exact (List.length_eq_length_filter_add _).symm

end Removal

end EventTable

/-! ## What a caller sees -/

namespace WaitList

/-- Removing an event takes it out with everything its links lead to, and does nothing else. -/
structure Removes (list : WaitList) (event : Event) : Prop where
  terminates : EventTable.Removal list.table [event] (list.remove event).table
  unknown : ∀ other, (list.remove event).table.knows other = true ↔
    list.table.knows other = true ∧ ¬ Linked list.table.lookup? event other
  counted : ∃ gone : List Event, gone.Nodup ∧
    (∀ other, other ∈ gone ↔ list.table.knows other = true ∧ Linked list.table.lookup? event other) ∧
    (list.remove event).size + gone.length = list.size
  /-- The other events keep slot, generation, flag and links. -/
  kept : ∀ other entry, list.table.lookup? other = some entry → ¬ Linked list.table.lookup? event other →
    (list.remove event).table.slots[other.index.toNat]? =
      some { generation := other.generation, entry := some entry }
  waiters : (list.remove event).waiters = list.waiters
  /-- A handle that names no event, stale or made up, changes nothing. -/
  stale : list.table.lookup? event = none → list.remove event = list

theorem remove_erases_tree (ops : List EventOp) (h : InRange ops) (event : Event) :
    Removes (after ops) event := by
  have htally := (orderly_after h).tally
  constructor
  · exact EventTable.removal_removeTree htally event
  · intro other
    exact EventTable.knows_removeTree_iff
  · refine ⟨(after ops).table.erased event (given ops), ?_, ?_, ?_⟩
    · exact (htally.nodup.filter _).filter _
    · intro other
      exact EventTable.mem_erased_iff htally
    · exact EventTable.live_removeTree htally event
  · intro other entry hentry hlinked
    apply EventTable.lookup?_eq_some_iff.1
    exact (EventTable.lookup?_removeTree_of_not_linked hlinked).trans hentry
  · rfl
  · intro hunknown
    have hnoop := unknown_of_lookup? hunknown
    exact hnoop.remove

/-- The second of two children is removed, and an event that is linked nowhere gets its slot. -/
def recycledLink : List EventOp :=
  [.newEvent, .newChild ⟨0, 0⟩, .newChild ⟨0, 0⟩, .remove ⟨2, 0⟩, .newEvent]

/-- The parent still has the link, and is removed without the event that lives in that slot now. -/
theorem recycled_link_spares : InRange recycledLink ∧ Removes (after recycledLink) ⟨0, 0⟩ ∧
    ((after recycledLink).remove ⟨0, 0⟩).table.knows ⟨1, 0⟩ = false ∧
    ((after recycledLink).remove ⟨0, 0⟩).table.knows ⟨2, 1⟩ = true := by
  have hrange : InRange recycledLink :=
    ⟨by decide +kernel, fun index => Nat.lt_of_le_of_lt (reapsFrom_le_length {} recycledLink index) (by decide)⟩
  exact ⟨hrange, remove_erases_tree recycledLink hrange ⟨0, 0⟩, by decide +kernel, by decide +kernel⟩

end WaitList

end ComputeCore
