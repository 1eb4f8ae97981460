import Mathlib.Logic.Function.Iterate
import ComputeCore.Proofs.IndexSpace.Steps
/-!
# Advancing a cursor

`Cursor.visited` is the exact number of work-items before a cursor, `Cursor.StandsAt` places a cursor
whose ids are in range by that number, and `IndexSpace.Reached` are the cursors that come about at
all. `advance_exact`: an advance goes as far as as many single steps, as long as the number of
work-items or that of those left behind is a size. Beyond that it may spill, and `advance_advance_iff`
says exactly when two advances in turn then come out where one over both distances does.
-/

namespace ComputeCore

/-- Every id of the cursor is in range. -/
structure Cursor.Valid (cursor : Cursor) : Prop where
  localIds : List.Forall₂ (· < ·) cursor.localIds cursor.space.localSizes
  groupIds : List.Forall₂ (· < ·) cursor.groupIds cursor.space.groupCounts

/-- The exact number of work-items before the one the cursor is on; at the end that of all. -/
def Cursor.visited (cursor : Cursor) : Nat :=
  if cursor.atEnd then cursor.space.count
  else Radix.amount cursor.space.groupCounts cursor.groupIds * cursor.space.localSizes.prod +
    Radix.amount cursor.space.localSizes cursor.localIds

/-- The cursor is on the work-item of `space` that has `n` others before it. -/
structure Cursor.StandsAt (cursor : Cursor) (space : IndexSpace) (n : Nat) : Prop where
  space_eq : cursor.space = space
  valid : cursor.Valid
  visited_eq : cursor.visited = n

namespace IndexSpace

/-- The cursors that come about: the first, the sentinel and the starts of groups, and those one gets
from such a cursor by advancing it or asking it for its next work-item. -/
inductive Reached (space : IndexSpace) : Cursor → Prop
  | first : Reached space space.first
  | sentinel : Reached space space.sentinel
  | groupStart {group : Nat} {cursor : Cursor} :
      space.groupStart group = .ok cursor → Reached space cursor
  | advance {cursor : Cursor} (n : Nat) : Reached space cursor → Reached space (cursor.advance n)
  | next {cursor following : Cursor} {item : ItemId} :
      Reached space cursor → cursor.next? = some (item, following) → Reached space following

section Advance
variable {space : IndexSpace} {cursor : Cursor}

/-! ## Where a cursor stands -/

theorem visited_placeAt (h : space.WellFormed) {n : Nat} (hn : n < space.count) :
    (space.placeAt n).visited = n := by
  have hlocal := Radix.amount_digits (Nat.mod_lt n h.localSizes_prod_pos)
  have hgroup := Radix.amount_digits (group_lt_of_lt_count hn)
  rw [Cursor.visited, if_neg (by simp [atEnd_placeAt h])]
  simp only [placeAt, place, hlocal, hgroup]
  rw [Nat.mul_comm, Nat.div_add_mod]

theorem visited_sentinel : space.sentinel.visited = space.count :=
  if_pos atEnd_sentinel

theorem valid_placeAt (h : space.WellFormed) (n : Nat) : (space.placeAt n).Valid :=
  ⟨Radix.digits_lt h.localSizes_pos _, Radix.digits_lt h.groups_pos _⟩

/-- Ids in range are the digits of what they amount to. -/
theorem eq_placeAt_of_valid (h : cursor.space.WellFormed) (hvalid : cursor.Valid) :
    cursor.visited < cursor.space.count ∧ cursor = cursor.space.placeAt cursor.visited := by
  have hitem := Radix.amount_lt hvalid.localIds
  have hgroup := Radix.amount_lt hvalid.groupIds
  have hplace : cursor = cursor.space.place (Radix.amount cursor.space.groupCounts cursor.groupIds)
      (Radix.amount cursor.space.localSizes cursor.localIds) := by
    rw [place, Radix.digits_amount hvalid.localIds, Radix.digits_amount hvalid.groupIds]
  have hend : cursor.atEnd = false := by
    rw [hplace]
    exact atEnd_place h _ _
  rw [Cursor.visited, if_neg (by simp [hend]), placeAt_linear hitem]
  exact ⟨linear_lt_count hgroup hitem, hplace⟩

/-- There is one cursor on each work-item, its place. -/
theorem standsAt_iff (h : space.WellFormed) {n : Nat} :
    cursor.StandsAt space n ↔ n < space.count ∧ cursor = space.placeAt n := by
  constructor
  · rintro ⟨rfl, hvalid, rfl⟩
    exact eq_placeAt_of_valid h hvalid
  · rintro ⟨hn, rfl⟩
    exact ⟨rfl, valid_placeAt h n, visited_placeAt h hn⟩

/-! ## The cursors that come about -/

theorem groupStart_eq_after (h : space.WellFormed) (hfit : space.groupCounts.prod < Size.limit)
    (group : Nat) : space.groupStart group = .ok (space.after (group * space.localSizes.prod)) := by
  have hpos := h.localSizes_prod_pos
  by_cases hgroup : group < space.groupCounts.prod
  · rw [groupStart_eq h hfit hgroup, after_of_lt (Nat.mul_lt_mul_of_pos_right hgroup hpos)]
    exact congrArg _ (placeAt_linear hpos).symm
  · rw [groupStart, h.totalGroups_eq hfit, after_of_le (Nat.mul_le_mul_right _ (Nat.not_lt.1 hgroup))]
    exact if_neg hgroup

theorem groupCounts_lt_of_groupStart (h : space.WellFormed) {group : Nat}
    (hstart : space.groupStart group = .ok cursor) : space.groupCounts.prod < Size.limit := by
  by_contra hfit
  rw [groupStart, totalGroups, Size.product_eq h.groups_pos, if_neg hfit] at hstart
  cases hstart

/-- An advance over the space ends at its exact target, or past the end if it spills. -/
theorem advance_after (h : space.Accepted) (p n : Nat) : (space.after p).advance n =
    if Radix.Spills space.radices p n then space.sentinel else space.after (p + n) := by
  by_cases hp : p < space.count
  · rw [after_of_lt hp]
    split
    case isTrue hspills => exact advance_placeAt_of_spills h hp hspills
    case isFalse hspills => exact advance_placeAt h.wellFormed hp hspills
  · rw [after_of_le (by omega), after_of_le (by omega), advance_sentinel, ite_self]

/-- Whatever is done to a cursor, it is some number of single steps from the first one. -/
theorem Reached.exists_after (h : space.Accepted) (hreached : space.Reached cursor) :
    ∃ p ≤ space.count, cursor = space.after p := by
  have hcut (p : Nat) : ∃ q ≤ space.count, space.after p = space.after q := by
    refine ⟨min p space.count, Nat.min_le_right _ _, ?_⟩
    rcases Nat.le_total p space.count with hp | hp
    · rw [Nat.min_eq_left hp]
    · rw [Nat.min_eq_right hp, after_of_le hp, after_count]
  have hadvance {p : Nat} (n : Nat) :
      ∃ q ≤ space.count, (space.after p).advance n = space.after q := by
    rw [advance_after h]
    split
    · exact ⟨space.count, Nat.le_refl _, after_count.symm⟩
    · exact hcut _
  induction hreached with
  | first => exact ⟨0, Nat.zero_le _, (after_zero h.wellFormed).symm⟩
  | sentinel => exact ⟨space.count, Nat.le_refl _, after_count.symm⟩
  | groupStart hstart =>
    rw [groupStart_eq_after h.wellFormed (groupCounts_lt_of_groupStart h.wellFormed hstart)] at hstart
    cases hstart
    exact hcut _
  | advance n _ ih =>
    obtain ⟨p, -, rfl⟩ := ih
    exact hadvance n
  | next _ hnext ih =>
    obtain ⟨p, -, rfl⟩ := ih
    unfold Cursor.next? at hnext
    split at hnext
    · cases hnext
    · cases hnext
      exact hadvance 1

theorem visited_after (h : space.WellFormed) {p : Nat} (hp : p ≤ space.count) :
    (space.after p).visited = p := by
  rcases Nat.lt_or_eq_of_le hp with hp | rfl
  · rw [after_of_lt hp, visited_placeAt h hp]
  · rw [after_count, visited_sentinel]

/-! ## Exact advances -/

theorem iterate_advance_after (h : space.Accepted) (p n : Nat) :
    (Cursor.advance · 1)^[n] (space.after p) = space.after (p + n) := by
  induction n generalizing p with
  | zero => rfl
  | succ n ih => rw [Function.iterate_succ_apply, advance_one_after h, ih, Nat.add_right_comm]; rfl

/-- Where the exact target or the number of all work-items is a size, spilling means no more than
that the target is past the end. -/
theorem advance_after_of_fits (h : space.Accepted) {p n : Nat}
    (hfits : space.count < Size.limit ∨ p + n < Size.limit) :
    (space.after p).advance n = space.after (p + n) := by
  rw [advance_after h]
  split
  case isFalse => rfl
  case isTrue hspills =>
    have hsum : ¬ p + n < Size.limit := fun hsum =>
      Radix.not_spills (radices_pos h.wellFormed) hsum hspills
    rw [after_of_le (by omega)]

/-- Advancing is exact wherever the number of all work-items or the exact target is a size: it comes
to the one cursor on the target, or to the sentinel if the target is past the end, which is what as
many single steps come to. The sentinel stays where it is, and no other cursor is taken for it. -/
theorem advance_exact (h : space.Accepted) :
    (∀ (cursor : Cursor) (p n : Nat), cursor.StandsAt space p →
      space.count < Size.limit ∨ p + n < Size.limit →
        (p + n < space.count →
          ∀ target : Cursor, target.StandsAt space (p + n) ↔ target = cursor.advance n) ∧
        (space.count ≤ p + n → cursor.advance n = space.sentinel) ∧
        cursor.advance n = (Cursor.advance · 1)^[n] cursor) ∧
      (∀ n, space.sentinel.advance n = space.sentinel) ∧
      ∀ cursor, space.Reached cursor → cursor.atEnd = true → cursor = space.sentinel := by
  refine ⟨fun cursor p n hstands hfits => ?_, advance_sentinel, fun cursor hreached hend => ?_⟩
  · obtain ⟨hp, rfl⟩ := (standsAt_iff h.wellFormed).1 hstands
    rw [← after_of_lt hp, advance_after_of_fits h hfits, iterate_advance_after h]
    refine ⟨fun hin target => ?_, after_of_le, rfl⟩
    rw [standsAt_iff h.wellFormed, after_of_lt hin]
    exact and_iff_right hin
  · obtain ⟨p, -, rfl⟩ := hreached.exists_after h
    rwa [after_eq_sentinel_iff h.wellFormed, ← atEnd_after h.wellFormed]

/-- Two rows of work-items, each as long as a size can say: more of them than a size can count. -/
def twoRows : IndexSpace where
  axes := [{ globalSize := Size.limit - 1, localSize := 1, offset := 0 },
    { globalSize := 2, localSize := 1, offset := 0 }]

theorem accepted_twoRows : twoRows.Accepted :=
  ⟨[Size.limit - 1, 2], [1, 1], [0, 0], by decide, by decide⟩

/-- The work-item of `twoRows` in this column and row. -/
def inRow (column row : Nat) : Cursor :=
  { space := twoRows, localIds := [0, 0], groupIds := [column, row] }

theorem advance_exact_twoRows :
    (inRow (Size.limit - 3) 0).StandsAt twoRows (Size.limit - 3) ∧
      (inRow 0 1).StandsAt twoRows (Size.limit - 1) ∧ Size.limit - 1 < twoRows.count ∧
      inRow 0 1 = (inRow (Size.limit - 3) 0).advance 2 ∧
      inRow 0 1 = (Cursor.advance · 1)^[2] (inRow (Size.limit - 3) 0) := by
  have hfrom : (inRow (Size.limit - 3) 0).StandsAt twoRows (Size.limit - 3) :=
    ⟨rfl, ⟨by decide, by decide⟩, by decide⟩
  have hto : (inRow 0 1).StandsAt twoRows (Size.limit - 1) :=
    ⟨rfl, ⟨by decide, by decide⟩, by decide⟩
  have hin : Size.limit - 1 < twoRows.count := by decide
  obtain ⟨hexact, -, hsteps⟩ := (advance_exact accepted_twoRows).1 _ _ 2 hfrom (.inr (by decide))
  have hadvance := (hexact hin _).1 hto
  exact ⟨hfrom, hto, hin, hadvance, hadvance.trans hsteps⟩

/-! ## Advances in turn -/

/-- Two advances in turn come out where one over both distances does, except when this one spills
short of the end and neither of the two does. That never happens where the number of all work-items or
the exact target is a size. -/
theorem advance_advance_iff (h : space.Accepted) (hreached : space.Reached cursor) (a b : Nat) :
    ((cursor.advance a).advance b = cursor.advance (a + b) ↔
      (cursor.visited + (a + b) < space.count → Radix.Spills space.radices cursor.visited (a + b) →
        Radix.Spills space.radices cursor.visited a ∨
          Radix.Spills space.radices (cursor.visited + a) b)) ∧
      (space.count < Size.limit ∨ cursor.visited + (a + b) < Size.limit →
        (cursor.advance a).advance b = cursor.advance (a + b)) := by
  obtain ⟨p, hp, rfl⟩ := hreached.exists_after h
  rw [visited_after h.wellFormed hp]
  have hiff : ((space.after p).advance a).advance b = (space.after p).advance (a + b) ↔
      (p + (a + b) < space.count → Radix.Spills space.radices p (a + b) →
        Radix.Spills space.radices p a ∨ Radix.Spills space.radices (p + a) b) := by
    rw [advance_after h, advance_after h]
    by_cases hfirst : Radix.Spills space.radices p a
    · rw [if_pos hfirst, if_pos (hfirst.mono (Nat.le_add_right a b)), advance_sentinel]
      simp [hfirst]
    rw [if_neg hfirst, advance_after h]
    by_cases hsecond : Radix.Spills space.radices (p + a) b
    · rw [if_pos hsecond, if_pos hsecond.of_add]
      simp [hsecond]
    rw [if_neg hsecond, Nat.add_assoc]
    by_cases hboth : Radix.Spills space.radices p (a + b)
    · rw [if_pos hboth, after_eq_sentinel_iff h.wellFormed]
      simp [hfirst, hsecond, hboth]
    · simp [hboth]
  refine ⟨hiff, fun hfits => hiff.2 fun hin hboth => ?_⟩
  exact absurd hboth (Radix.not_spills (radices_pos h.wellFormed) (by omega))

/-- From the start of the second row two long advances come out where their sum does. -/
theorem advance_advance_twoRows : twoRows.Reached (inRow 0 1) ∧
    ((inRow 0 1).advance (2 ^ 63)).advance (2 ^ 63 - 2) =
      (inRow 0 1).advance (2 ^ 63 + (2 ^ 63 - 2)) := by
  have hreached : twoRows.Reached (inRow 0 1) := Reached.first.advance (Size.limit - 1)
  exact ⟨hreached, (advance_advance_iff accepted_twoRows hreached _ _).1.2 (by decide)⟩

/-- Two single steps from the end of the first row go on in the second one; one advance by two spills,
and ends past the last work-item. -/
theorem advance_two_short : twoRows.Accepted ∧
    ((twoRows.first.advance (Size.limit - 2)).advance 1).advance 1 = inRow 1 1 ∧
    (twoRows.first.advance (Size.limit - 2)).advance (1 + 1) = twoRows.sentinel ∧
    inRow 1 1 ≠ twoRows.sentinel ∧ 1 + 1 < Size.limit :=
  ⟨accepted_twoRows, by decide, by decide, by decide, by decide⟩

end Advance

end IndexSpace

end ComputeCore
