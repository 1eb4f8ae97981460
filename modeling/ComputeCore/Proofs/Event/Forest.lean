import Mathlib.Data.List.Basic
import Mathlib.Logic.Relation
import ComputeCore.Proofs.Event.Names
/-!
# Links form a forest

An event is linked at most once, at the moment it is made, under an event that was made before it; afterwards
links are only taken out. So the links of a table, those among them that lead to no event any more included,
never meet and never lead back (`Forest`), whatever is reaped, removed or half waited for. `Step.forest` is one
operation, `forest_after` a whole run.

What follows for reachability is at the end: two handles that lead to the same event lie one below the other.
-/

namespace ComputeCore

/-- The links under a handle, none if it names no event. -/
def linksOf (lookup? : Event → Option EventEntry) (event : Event) : List Event :=
  match lookup? event with
  | some entry => entry.linked
  | none => []

/-- Each link leads to a handle that was given after the one it hangs under, and no two links lead to the same
handle. -/
structure Forest (lookup? : Event → Option EventEntry) (given : List Event) : Prop where
  named : ∀ parent child, child ∈ linksOf lookup? parent → child ∈ given
  later : ∀ parent child, child ∈ linksOf lookup? parent → given.idxOf parent < given.idxOf child
  nodup : ∀ parent, (linksOf lookup? parent).Nodup
  once : ∀ parent other child, child ∈ linksOf lookup? parent → child ∈ linksOf lookup? other → parent = other

section Links
variable {lookup? shown : Event → Option EventEntry} {event parent child fresh : Event} {entry : EventEntry}
  {given : List Event}

theorem linksOf_of_found (h : lookup? event = some entry) : linksOf lookup? event = entry.linked := by
  unfold linksOf
  rw [h]

theorem linksOf_of_unknown (h : lookup? event = none) : linksOf lookup? event = [] := by
  unfold linksOf
  rw [h]

theorem mem_linksOf_iff : child ∈ linksOf lookup? parent ↔
    ∃ entry, lookup? parent = some entry ∧ child ∈ entry.linked := by
  unfold linksOf
  cases lookup? parent <;> simp

theorem linksOf_eq (h : shown event = lookup? event) : linksOf shown event = linksOf lookup? event := by
  unfold linksOf
  rw [h]

/-! ## What keeps the forest -/

theorem Forest.parent_mem (h : Forest lookup? given) (hchild : child ∈ linksOf lookup? parent) : parent ∈ given := by
  apply List.idxOf_lt_length_iff.1
  exact Nat.lt_of_lt_of_le (h.later parent child hchild) List.idxOf_le_length

/-- Taking links out keeps a forest. -/
theorem Forest.of_sublist (h : Forest lookup? given)
    (hsub : ∀ event, (linksOf shown event).Sublist (linksOf lookup? event)) : Forest shown given where
  named parent child hchild := h.named parent child ((hsub parent).subset hchild)
  later parent child hchild := h.later parent child ((hsub parent).subset hchild)
  nodup parent := (h.nodup parent).sublist (hsub parent)
  once parent other child hparent hother :=
    h.once parent other child ((hsub parent).subset hparent) ((hsub other).subset hother)

/-- So does giving a handle that is linked nowhere. -/
theorem Forest.give (h : Forest lookup? given) (fresh : Event) : Forest lookup? (given ++ [fresh]) where
  named parent child hchild := List.mem_append_left _ (h.named parent child hchild)
  later parent child hchild := by
    rw [List.idxOf_append_of_mem (h.parent_mem hchild), List.idxOf_append_of_mem (h.named parent child hchild)]
    exact h.later parent child hchild
  nodup := h.nodup
  once := h.once

/-- And giving a new one as the last link of an event that was there. -/
theorem Forest.link (h : Forest lookup? given) (hparent : parent ∈ given) (hfresh : fresh ∉ given)
    (hlinks : linksOf shown parent = linksOf lookup? parent ++ [fresh])
    (hothers : ∀ event, event ≠ parent → (linksOf shown event).Sublist (linksOf lookup? event)) :
    Forest shown (given ++ [fresh]) := by
  -- A link is one from before, or the new one.
  have hcases : ∀ top low, low ∈ linksOf shown top →
      (top = parent ∧ low = fresh) ∨ (low ∈ linksOf lookup? top ∧ low ∈ given) := by
    intro top low hlow
    by_cases htop : top = parent
    · subst htop
      rw [hlinks] at hlow
      rcases List.mem_append.1 hlow with hold | hnew
      · exact .inr ⟨hold, h.named top low hold⟩
      · exact .inl ⟨rfl, List.mem_singleton.1 hnew⟩
    · have hold := (hothers top htop).subset hlow
      exact .inr ⟨hold, h.named top low hold⟩
  constructor
  · intro top low hlow
    rcases hcases top low hlow with ⟨-, rfl⟩ | ⟨-, hmem⟩
    · exact List.mem_append_right _ (List.mem_singleton_self _)
    · exact List.mem_append_left _ hmem
  · intro top low hlow
    rcases hcases top low hlow with ⟨rfl, rfl⟩ | ⟨hold, -⟩
    · rw [List.idxOf_append_of_mem hparent, List.idxOf_append_of_notMem hfresh]
      exact Nat.lt_add_right _ (List.idxOf_lt_length_iff.2 hparent)
    · exact (h.give fresh).later top low hold
  · intro top
    by_cases htop : top = parent
    · subst htop
      rw [hlinks]
      refine (h.nodup top).append (List.nodup_singleton fresh) ?_
      intro low hold hnew
      exact hfresh (List.mem_singleton.1 hnew ▸ h.named top low hold)
    · exact (h.nodup top).sublist (hothers top htop)
  · intro top other low htop hother
    rcases hcases top low htop with ⟨rfl, rfl⟩ | ⟨hold, hmem⟩
    · rcases hcases other low hother with ⟨rfl, -⟩ | ⟨-, hmem⟩
      · rfl
      · exact absurd hmem hfresh
    · rcases hcases other low hother with ⟨-, rfl⟩ | ⟨hold', -⟩
      · exact absurd hmem hfresh
      · exact h.once top other low hold hold'

end Links

/-! ## Runs -/

namespace NameMap
variable {map map' : NameMap} {op : EventOp} {answer : EventAnswer} {event : Event} {entry : EventEntry}
  {given : List Event}

theorem linksOf_bind (map : NameMap) (event : Event) (entry : EventEntry) (other : Event) :
    linksOf (NameMap.lookup? (map.bind event entry)) other =
      if other = event then entry.linked else linksOf map.lookup? other := by
  unfold linksOf bind
  by_cases heq : other = event <;> simp [heq]

theorem linksOf_unbind (map : NameMap) (event other : Event) :
    linksOf (NameMap.lookup? (map.unbind event)) other = if other = event then [] else linksOf map.lookup? other := by
  unfold linksOf unbind
  by_cases heq : other = event <;> simp [heq]

/-- Replacing an event by one with some of its links. -/
theorem forest_bind (h : Forest map.lookup? given) (hsub : entry.linked.Sublist (linksOf map.lookup? event)) :
    Forest (NameMap.lookup? (map.bind event entry)) given := by
  apply h.of_sublist
  intro other
  rw [linksOf_bind]
  split
  · next heq => exact heq ▸ hsub
  · exact List.Sublist.refl _

theorem forest_unbind (h : Forest map.lookup? given) (event : Event) :
    Forest (NameMap.lookup? (map.unbind event)) given := by
  apply h.of_sublist
  intro other
  rw [linksOf_unbind]
  split
  · exact List.nil_sublist _
  · exact List.Sublist.refl _

theorem Step.forest (h : map.Step op answer map') (hknown : ∀ event, map.lookup? event ≠ none → event ∈ map.given)
    (hforest : Forest map.lookup? map.given) : Forest map'.lookup? map'.given := by
  cases h with
  | newEvent fresh unused =>
    change Forest (NameMap.lookup? (map.bind fresh {})) (map.given ++ [fresh])
    exact forest_bind (hforest.give fresh) (List.nil_sublist _)
  | newChild parent fresh entry found unused =>
    have hparent : parent ∈ map.given := hknown parent (by rw [found]; exact Option.some_ne_none entry)
    apply hforest.link hparent unused
    · rw [linksOf_bind, if_pos rfl, linksOf_of_found found]
    · intro other hother
      rw [linksOf_bind, if_neg hother]
      change (linksOf (NameMap.lookup? (map.bind fresh {})) other).Sublist _
      rw [linksOf_bind]
      split
      · exact List.nil_sublist _
      · exact List.Sublist.refl _
  | setCompleted event value entry found =>
    refine forest_bind hforest ?_
    rw [linksOf_of_found found]
  | remove event map' gone kept given_eq waiters_eq =>
    rw [given_eq]
    apply hforest.of_sublist
    intro other
    by_cases hlinked : Linked map.lookup? event other
    · rw [linksOf_of_unknown (gone other hlinked)]
      exact List.nil_sublist _
    · rw [linksOf_eq (kept other hlinked)]
  | reap number event outer turn found => exact forest_unbind hforest event
  | descend number event outer completed child rest turn found =>
    refine forest_bind hforest ?_
    rw [linksOf_of_found found]
    exact List.sublist_cons_self child rest
  | _ => exact hforest

end NameMap

theorem WaitList.forest_after {ops : List EventOp} (h : InRange ops) :
    Forest (after ops).table.lookup? (WaitList.given ops) := by
  induction ops using List.reverseRecOn with
  | nil =>
    have hnone : ∀ event, linksOf (after []).table.lookup? event = [] := fun event => rfl
    constructor <;> simp [hnone]
  | append_singleton ops op ih =>
    have hbefore := h.of_prefix ⟨[op], rfl⟩
    have htally := (orderly_after hbefore).tally
    refine (step_after h).forest (fun event hevent => ?_) (ih hbefore)
    exact htally.known event (Option.isSome_iff_ne_none.2 hevent)

/-! ## Above and below -/

section Reach
variable {lookup? : Event → Option EventEntry} {top other low : Event} {given : List Event}

/-- What is below a handle is the handle itself, or is below one of its links. -/
theorem linked_iff :
    Linked lookup? top low ↔ low = top ∨ ∃ child ∈ linksOf lookup? top, Linked lookup? child low := by
  constructor
  · intro h
    induction h with
    | self => exact .inl rfl
    | @link middle entry low _ found member ih =>
      refine .inr ?_
      rcases ih with rfl | ⟨child, hchild, hreach⟩
      · exact ⟨low, mem_linksOf_iff.2 ⟨entry, found, member⟩, .self⟩
      · exact ⟨child, hchild, .link hreach found member⟩
  · rintro (rfl | ⟨child, hchild, hreach⟩)
    · exact .self
    · obtain ⟨entry, found, member⟩ := mem_linksOf_iff.1 hchild
      induction hreach with
      | self => exact .link .self found member
      | link _ found' member' ih => exact .link ih found' member'

theorem Linked.idxOf_le (h : Linked lookup? top low) (hforest : Forest lookup? given) :
    given.idxOf top ≤ given.idxOf low := by
  induction h with
  | self => exact Nat.le_refl _
  | @link middle entry low _ found member ih =>
    exact Nat.le_trans ih (Nat.le_of_lt (hforest.later middle low (mem_linksOf_iff.2 ⟨entry, found, member⟩)))

/-- What is properly below a handle was given after it. -/
theorem Forest.idxOf_lt (h : Forest lookup? given)
    (hbelow : Relation.TransGen (fun parent child => child ∈ linksOf lookup? parent) top low) :
    given.idxOf top < given.idxOf low := by
  induction hbelow with
  | single hlink => exact h.later _ _ hlink
  | tail _ hlink ih => exact Nat.lt_trans ih (h.later _ _ hlink)

/-- Two handles that lead to the same event lie one below the other. By induction on one of the ways: the
last link of the other one comes from the same event, unless there is none. -/
theorem Linked.comparable (h : Linked lookup? top low) (h' : Linked lookup? other low)
    (hforest : Forest lookup? given) : Linked lookup? top other ∨ Linked lookup? other top := by
  induction h generalizing other with
  | self => exact .inr h'
  | @link middle entry low above found member ih =>
    cases h' with
    | self => exact .inl (.link above found member)
    | @link middle' entry' _ above' found' member' =>
      obtain rfl := hforest.once middle middle' low (mem_linksOf_iff.2 ⟨entry, found, member⟩)
        (mem_linksOf_iff.2 ⟨entry', found', member'⟩)
      exact ih above'

/-- Nothing is below two links of one event. -/
theorem Forest.apart (h : Forest lookup? given) {parent first second : Event}
    (hfirst : first ∈ linksOf lookup? parent) (hsecond : second ∈ linksOf lookup? parent)
    (hne : first ≠ second) (hlow : Linked lookup? first low) :
    ¬ Linked lookup? second low := by
  intro hlow'
  -- The one further down would hang below the parent's other link, and so after the parent.
  have habsurd : ∀ {above below}, above ∈ linksOf lookup? parent → below ∈ linksOf lookup? parent → above ≠ below →
      ¬ Linked lookup? above below := by
    intro above below habove hbelow hdiffer hreach
    cases hreach with
    | self => exact hdiffer rfl
    | @link middle entry _ hmiddle found member =>
      obtain rfl := h.once middle parent below (mem_linksOf_iff.2 ⟨entry, found, member⟩) hbelow
      have hup := h.later middle above habove
      have hdown := hmiddle.idxOf_le h
      omega
  rcases hlow.comparable hlow' h with hbelow | habove
  · exact habsurd hfirst hsecond hne hbelow
  · exact habsurd hsecond hfirst hne.symm habove

end Reach

end ComputeCore
