import Mathlib.Data.List.Nodup
import ComputeCore.Proofs.Event.Table
/-!
# Removing a tree, and counting what is left

`removeTree` follows the links of a table that it takes apart as it goes. It gets to every event that the
links lead to from the first one, and to no other: the links it has taken out led to events that are already
in line.

`Tally` says that the table counts its events rightly, against a list of all handles that were given.
-/

namespace ComputeCore

/-- The links lead from `top` to an event. -/
inductive Linked (lookup? : Event → Option EventEntry) (top : Event) : Event → Prop
  | self : Linked lookup? top top
  | link {event entry child} (above : Linked lookup? top event) (found : lookup? event = some entry)
      (member : child ∈ entry.linked) : Linked lookup? top child

/-- An unknown handle leads nowhere but to itself. -/
theorem Linked.eq_of_unknown {lookup? : Event → Option EventEntry} {top other : Event}
    (h : Linked lookup? top other) (hunknown : lookup? top = none) : other = top := by
  induction h with
  | self => rfl
  | link _ found _ ih =>
    rw [ih, hunknown] at found
    simp at found

namespace EventTable

/-! ## Where the links lead -/

section Cascade
variable {table : EventTable} {event top other : Event} {entry : EventEntry} {pending : List Event}

/-- Taking an event out only takes links away, so what can be reached afterwards could be reached before. -/
theorem Linked.of_remove {first : Event} (h : Linked (lookup? (table.remove event)) top other)
    (hstart : Linked table.lookup? first top) : Linked table.lookup? first other := by
  induction h with
  | self => exact hstart
  | link _ found member ih =>
    rw [lookup?_remove] at found
    split at found
    · simp at found
    · exact .link ih found member

/-- Once an event is out and its links are in line, the same events are in reach. -/
theorem linked_remove_iff (h : table.lookup? event = some entry) :
    (other = event ∨ ∃ top ∈ entry.linked.reverse ++ pending, Linked (lookup? (table.remove event)) top other) ↔
      ∃ top ∈ event :: pending, Linked table.lookup? top other := by
  constructor
  · rintro (rfl | ⟨top, htop, hlinked⟩)
    · exact ⟨other, List.mem_cons_self, .self⟩
    · rcases List.mem_append.1 htop with hlink | hpending
      · refine ⟨event, List.mem_cons_self, ?_⟩
        exact Linked.of_remove hlinked (.link .self h (List.mem_reverse.1 hlink))
      · exact ⟨top, List.mem_cons_of_mem _ hpending, Linked.of_remove hlinked .self⟩
  · rintro ⟨top, htop, hlinked⟩
    induction hlinked with
    | self =>
      rcases List.mem_cons.1 htop with rfl | hpending
      · exact .inl rfl
      · exact .inr ⟨top, List.mem_append_right _ hpending, .self⟩
    | @link middle found child _ hfound member ih =>
      by_cases hmiddle : middle = event
      · subst hmiddle
        obtain rfl : entry = found := Option.some.inj (h.symm.trans hfound)
        exact .inr ⟨child, List.mem_append_left _ (List.mem_reverse.2 member), .self⟩
      · rcases ih with heq | ⟨first, hfirst, hreach⟩
        · exact absurd heq hmiddle
        · exact .inr ⟨first, hfirst, .link hreach (by rw [lookup?_remove, if_neg hmiddle, hfound]) member⟩

/-- What is in line is gone in the end, with everything the links lead to, and nothing else. By induction on
the steps: each one takes a handle out of line and replaces it by the links that go with it. -/
theorem lookup?_removeAll_eq (steps : Nat) (table : EventTable) (pending : List Event)
    (hsteps : pending.length + table.linkCount ≤ steps) (other : Event) :
    ((∃ top ∈ pending, Linked table.lookup? top other) → lookup? (removeAll steps table pending) other = none) ∧
      ((¬ ∃ top ∈ pending, Linked table.lookup? top other) →
        lookup? (removeAll steps table pending) other = table.lookup? other) := by
  fun_induction removeAll with
  | case1 table pending =>
    obtain rfl : pending = [] := List.length_eq_zero_iff.1 (by omega)
    exact ⟨by simp, fun _ => rfl⟩
  | case2 => exact ⟨by simp, fun _ => rfl⟩
  | case3 steps table event pending hunknown ih =>
    simp only [List.length_cons] at hsteps
    obtain ⟨hgone, hkept⟩ := ih (by omega)
    -- An unknown handle leads nowhere, so it only leaves the line.
    constructor
    · rintro ⟨top, htop, hlinked⟩
      rcases List.mem_cons.1 htop with rfl | hpending
      · obtain rfl := hlinked.eq_of_unknown hunknown
        rcases lookup?_removeAll steps table pending other with hsame | hnone
        · rw [hsame, hunknown]
        · exact hnone
      · exact hgone ⟨top, hpending, hlinked⟩
    · intro hout
      apply hkept
      rintro ⟨top, htop, hlinked⟩
      exact hout ⟨top, List.mem_cons_of_mem _ htop, hlinked⟩
  | case4 steps table event pending entry hfound ih =>
    -- The links come in line as they leave the table, so the bound on the steps falls by one.
    have hlinks := linkCount_remove hfound
    simp only [List.length_cons] at hsteps
    obtain ⟨hgone, hkept⟩ := ih (by simp only [List.length_append, List.length_reverse]; omega)
    rw [← linked_remove_iff hfound]
    constructor
    · rintro (rfl | hreached)
      · rcases lookup?_removeAll steps (table.remove other) (entry.linked.reverse ++ pending) other with
          hsame | hnone
        · rw [hsame, lookup?_remove, if_pos rfl]
        · exact hnone
      · exact hgone hreached
    · intro hout
      rw [hkept fun hreached => hout (.inr hreached), lookup?_remove, if_neg fun heq => hout (.inl heq)]

theorem lookup?_removeTree_of_linked (h : Linked table.lookup? event other) :
    lookup? (table.removeTree event) other = none :=
  (lookup?_removeAll_eq _ table [event] (by simp; omega) other).1 ⟨event, List.mem_singleton_self _, h⟩

theorem lookup?_removeTree_of_not_linked (h : ¬ Linked table.lookup? event other) :
    lookup? (table.removeTree event) other = table.lookup? other := by
  refine (lookup?_removeAll_eq _ table [event] (by simp; omega) other).2 ?_
  rintro ⟨top, htop, hlinked⟩
  exact h (List.mem_singleton.1 htop ▸ hlinked)

theorem removeTree_of_unknown (h : table.lookup? event = none) : table.removeTree event = table := by
  unfold removeTree
  rw [removeAll, h]
  cases table.linkCount <;> rfl

end Cascade

/-! ## Counting events -/

/-- The handles that were given are distinct, everything that lives has one of them, and the table counts
those that live. -/
structure Tally (table : EventTable) (given : List Event) : Prop where
  wellFormed : table.WellFormed
  nodup : given.Nodup
  known : ∀ event, table.knows event = true → event ∈ given
  live : table.live = (given.filter table.knows).length

section Tally
variable {table table' : EventTable} {given : List Event} {event : Event}

theorem tally_empty : Tally {} [] where
  wellFormed := wellFormed_empty
  nodup := List.nodup_nil
  known event h := by simp [knows, lookup?] at h
  live := rfl

theorem Tally.same (h : table.Tally given) (hwellFormed : table'.WellFormed)
    (hknows : ∀ event, table'.knows event = table.knows event) (hlive : table'.live = table.live) :
    table'.Tally given where
  wellFormed := hwellFormed
  nodup := h.nodup
  known event hevent := h.known event (hknows event ▸ hevent)
  live := by rw [hlive, h.live, funext hknows]

theorem knows_setEntry {old entry : EventEntry} (h : table.lookup? event = some old) (other : Event) :
    (table.setEntry event entry).knows other = table.knows other := by
  unfold knows
  rw [lookup?_setEntry h]
  split
  · next heq => rw [heq, h]; rfl
  · rfl

theorem Tally.setEntry {old entry : EventEntry} (h : table.Tally given) (hold : table.lookup? event = some old) :
    (table.setEntry event entry).Tally given :=
  h.same (h.wellFormed.setEntry hold) (knows_setEntry hold) rfl

theorem live_insert (table : EventTable) : table.insert.2.live = table.live + 1 := by
  unfold insert
  cases table.free <;> rfl

theorem Tally.insert (h : table.Tally given) (hroom : table.insert.2.Numbered) (hnew : table.insert.1 ∉ given) :
    table.insert.2.Tally (given ++ [table.insert.1]) := by
  have hknows : ∀ event, table.insert.2.knows event = (decide (event = table.insert.1) || table.knows event) := by
    intro event
    unfold knows
    rw [lookup?_insert h.wellFormed hroom]
    by_cases heq : event = table.insert.1 <;> simp [heq]
  constructor
  · exact h.wellFormed.insert
  · refine List.nodup_append.2 ⟨h.nodup, by simp, fun first hfirst last hlast heq => ?_⟩
    obtain rfl := List.mem_singleton.1 hlast
    exact hnew (heq ▸ hfirst)
  · intro event hevent
    rw [hknows, Bool.or_eq_true, decide_eq_true_eq] at hevent
    rcases hevent with rfl | hold
    · exact List.mem_append_right _ (List.mem_singleton_self _)
    · exact List.mem_append_left _ (h.known event hold)
  · have hold : given.filter table.insert.2.knows = given.filter table.knows := by
      refine List.filter_congr fun event hevent => ?_
      have hne : event ≠ table.insert.1 := fun heq => hnew (heq ▸ hevent)
      simp [hknows, hne]
    rw [live_insert, h.live, List.filter_append, List.length_append, hold]
    simp [hknows]

theorem Tally.remove (h : table.Tally given) (event : Event) : (table.remove event).Tally given := by
  cases hentry : table.lookup? event with
  | none =>
    rw [remove_of_unknown hentry]
    exact h
  | some entry =>
    have hknown : table.knows event = true := knows_iff.2 ⟨entry, hentry⟩
    have hknows : ∀ other, (table.remove event).knows other = (decide (other ≠ event) && table.knows other) := by
      intro other
      unfold knows
      rw [lookup?_remove]
      by_cases heq : other = event <;> simp [heq]
    constructor
    · exact h.wellFormed.remove event
    · exact h.nodup
    · intro other hother
      rw [hknows, Bool.and_eq_true] at hother
      exact h.known other hother.2
    · -- The handle stands once among those that live.
      have hless : given.filter (table.remove event).knows = (given.filter table.knows).erase event := by
        rw [(h.nodup.filter _).erase_eq_filter, List.filter_filter]
        refine List.filter_congr fun other _ => ?_
        by_cases heq : other = event <;> simp [hknows, heq]
      have hmem : event ∈ given.filter table.knows := List.mem_filter.2 ⟨h.known event hknown, hknown⟩
      rw [hless, List.length_erase_of_mem hmem, ← h.live, EventTable.remove, if_pos hknown]

theorem Tally.removeAll (h : table.Tally given) (steps : Nat) (pending : List Event) :
    (removeAll steps table pending).Tally given :=
  removeAll_keeps (P := fun table => table.Tally given) (fun _ event htally => htally.remove event) steps table
    pending h

end Tally

end EventTable

end ComputeCore
