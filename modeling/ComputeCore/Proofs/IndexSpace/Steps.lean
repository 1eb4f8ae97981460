import ComputeCore.Proofs.IndexSpace.Places
/-!
# Steps over an index space

`IndexSpace.placeAt` is the cursor on a work-item given by the number of those before it, and
`IndexSpace.after` goes on to the sentinel once there are no more of them. From the place of a
work-item a cursor advances by exactly the steps it is asked for, unless the addition to its digits
spills (`advance_placeAt`); then it lands on the sentinel (`advance_placeAt_of_spills`), wherever the
sum may be. One step never spills.
-/

namespace ComputeCore

namespace IndexSpace

/-- The number of work-items, as the number of groups times that of the items in one. -/
def count (space : IndexSpace) : Nat :=
  space.groupCounts.prod * space.localSizes.prod

/-- The work-item with `n` others before it. -/
def placeAt (space : IndexSpace) (n : Nat) : Cursor :=
  space.place (n / space.localSizes.prod) (n % space.localSizes.prod)

/-- The cursor after `n` steps from the first work-item: on the work-item with `n` others before it,
past the end if there is none. -/
def after (space : IndexSpace) (n : Nat) : Cursor :=
  if n < space.count then space.placeAt n else space.sentinel

/-- The radices of a cursor, in the order in which they carry. -/
def radices (space : IndexSpace) : List Nat :=
  space.localSizes ++ space.groupCounts

section Steps
variable {space : IndexSpace}

/-! ## Counting -/

namespace WellFormed

theorem localSizes_prod_pos (h : space.WellFormed) : 0 < space.localSizes.prod :=
  List.prod_pos_iff_forall_pos_nat.2 h.localSizes_pos

theorem groupCounts_prod_pos (h : space.WellFormed) : 0 < space.groupCounts.prod :=
  List.prod_pos_iff_forall_pos_nat.2 h.groups_pos

theorem globalSizes_prod (h : space.WellFormed) :
    (space.axes.map Axis.globalSize).prod = space.count := by
  have hsplit : space.axes.map Axis.globalSize =
      space.axes.map fun axis => axis.groups * axis.localSize := by
    refine List.map_congr_left fun axis haxis => ?_
    exact (Nat.div_mul_cancel (h.axes axis haxis).2.2).symm
  rw [hsplit, List.prod_map_mul]
  rfl

theorem count_pos (h : space.WellFormed) : 0 < space.count :=
  Nat.mul_pos h.groupCounts_prod_pos h.localSizes_prod_pos

theorem localSizes_le_count (h : space.WellFormed) : space.localSizes.prod ≤ space.count :=
  Nat.le_mul_of_pos_left _ h.groupCounts_prod_pos

theorem groupCounts_le_count (h : space.WellFormed) : space.groupCounts.prod ≤ space.count :=
  Nat.le_mul_of_pos_right _ h.localSizes_prod_pos

end WellFormed

theorem linear_lt_count {group item : Nat} (hgroup : group < space.groupCounts.prod)
    (hitem : item < space.localSizes.prod) :
    group * space.localSizes.prod + item < space.count :=
  linear_lt hgroup hitem

theorem group_lt_of_lt_count {n : Nat} (hn : n < space.count) :
    n / space.localSizes.prod < space.groupCounts.prod :=
  Nat.div_lt_of_lt_mul (Nat.mul_comm _ _ ▸ hn)

theorem exists_linear {n : Nat} (hn : n < space.count) : ∃ group item,
    n = group * space.localSizes.prod + item ∧ group < space.groupCounts.prod ∧
      item < space.localSizes.prod := by
  have hpos : 0 < space.localSizes.prod := Nat.pos_of_ne_zero fun h0 => by simp [count, h0] at hn
  refine ⟨n / space.localSizes.prod, n % space.localSizes.prod, ?_, group_lt_of_lt_count hn,
    Nat.mod_lt _ hpos⟩
  rw [Nat.mul_comm, Nat.div_add_mod]

theorem placeAt_linear {group item : Nat} (hitem : item < space.localSizes.prod) :
    space.placeAt (group * space.localSizes.prod + item) = space.place group item := by
  rw [placeAt, linear_div hitem, Nat.mul_add_mod_of_lt hitem]

theorem placeAt_zero : space.placeAt 0 = space.first := by
  simp [placeAt, place, first, atGroup, Radix.digits_zero, localSizes, groupCounts,
    Function.comp_def]

theorem after_of_lt {n : Nat} (h : n < space.count) : space.after n = space.placeAt n :=
  if_pos h

theorem after_of_le {n : Nat} (h : space.count ≤ n) : space.after n = space.sentinel :=
  if_neg (Nat.not_lt.2 h)

theorem after_zero (h : space.WellFormed) : space.after 0 = space.first := by
  rw [after_of_lt h.count_pos, placeAt_zero]

theorem after_count : space.after space.count = space.sentinel :=
  after_of_le (Nat.le_refl _)

theorem atEnd_sentinel : space.sentinel.atEnd = true := by
  simp [Cursor.atEnd, sentinel, atGroup]

theorem atEnd_placeAt (h : space.WellFormed) (n : Nat) : (space.placeAt n).atEnd = false :=
  atEnd_place h _ _

theorem atEnd_after (h : space.WellFormed) (n : Nat) :
    (space.after n).atEnd = true ↔ space.count ≤ n := by
  by_cases hn : n < space.count
  · simp [after_of_lt hn, atEnd_placeAt h, hn]
  · simp [after_of_le (Nat.not_lt.1 hn), atEnd_sentinel, Nat.not_lt.1 hn]

theorem after_eq_sentinel_iff (h : space.WellFormed) {n : Nat} :
    space.after n = space.sentinel ↔ space.count ≤ n := by
  refine ⟨fun heq => ?_, after_of_le⟩
  rw [← atEnd_after h, heq, atEnd_sentinel]

theorem advance_sentinel (n : Nat) : space.sentinel.advance n = space.sentinel :=
  if_pos (.inr atEnd_sentinel)

theorem radices_pos (h : space.WellFormed) : ∀ radix ∈ space.radices, 0 < radix := by
  intro radix hradix
  rcases List.mem_append.1 hradix with hradix | hradix
  · exact h.localSizes_pos radix hradix
  · exact h.groups_pos radix hradix

theorem radices_lt (h : space.Accepted) : ∀ radix ∈ space.radices, radix < Size.limit := by
  intro radix hradix
  rcases List.mem_append.1 hradix with hradix | hradix
  · exact h.localSizes_lt radix hradix
  · exact h.groupCounts_lt radix hradix

/-! ## Advancing -/

/-- From a work-item a cursor advances by exactly the steps it is asked for, unless they spill. -/
theorem advance_placeAt (h : space.WellFormed) {p n : Nat} (hp : p < space.count)
    (hspills : ¬ Radix.Spills space.radices p n) :
    (space.placeAt p).advance n = space.after (p + n) := by
  have hpos := h.localSizes_prod_pos
  unfold Cursor.advance
  by_cases hn : n = 0
  · simp [hn, after_of_lt hp]
  · rw [radices, Radix.spills_append h.localSizes_pos, not_or] at hspills
    have hlocal := Radix.addCarry_digits_of_not_spills (Nat.mod_lt p hpos) hspills.1
    have hgroups := Radix.addCarry_digits_of_not_spills (group_lt_of_lt_count hp) hspills.2
    have hcount : space.localSizes.prod * space.groupCounts.prod = space.count := Nat.mul_comm _ _
    rw [div_add_carry hpos, Nat.div_div_eq_div_mul, hcount] at hgroups
    rw [← Radix.digits_mod space.localSizes (_ + n), Nat.mod_add_mod] at hlocal
    rw [if_neg (by simp [hn, atEnd_placeAt h])]
    simp only [placeAt, place, hlocal, hgroups]
    by_cases hin : p + n < space.count
    · rw [after_of_lt hin, Nat.div_eq_of_lt hin]
      rfl
    · rw [after_of_le (Nat.not_lt.1 hin)]
      have hround : 0 < (p + n) / space.count := Nat.div_pos (Nat.not_lt.1 hin) (by omega)
      obtain ⟨out, hout⟩ := Nat.exists_eq_succ_of_ne_zero hround.ne'
      rw [hout]
      rfl

/-- From a work-item an advance that spills ends past the last one, wherever the sum may be. -/
theorem advance_placeAt_of_spills (h : space.Accepted) {p n : Nat} (hp : p < space.count)
    (hspills : Radix.Spills space.radices p n) : (space.placeAt p).advance n = space.sentinel := by
  have hpos := h.wellFormed.localSizes_prod_pos
  have hn : n ≠ 0 := by
    rintro rfl
    exact Radix.not_spills_of_le_one (radices_pos h.wellFormed) (radices_lt h) (Nat.zero_le 1) p
      hspills
  unfold Cursor.advance
  rw [if_neg (by simp [hn, atEnd_placeAt h.wellFormed])]
  rw [radices, Radix.spills_append h.wellFormed.localSizes_pos] at hspills
  simp only [placeAt, place]
  by_cases hlocal : Radix.Spills space.localSizes (p % space.localSizes.prod) n
  · rw [Radix.addCarry_digits_of_spills (Nat.mod_lt p hpos) h.localSizes_lt hlocal]
  · rw [Radix.addCarry_digits_of_not_spills (Nat.mod_lt p hpos) hlocal]
    simp only [Radix.addCarry_digits_of_spills (group_lt_of_lt_count hp) h.groupCounts_lt
      (hspills.resolve_left hlocal)]

/-- Step by step a cursor goes over the whole space, whatever its size. -/
theorem advance_one_after (h : space.Accepted) (p : Nat) :
    (space.after p).advance 1 = space.after (p + 1) := by
  by_cases hp : p < space.count
  · rw [after_of_lt hp]
    exact advance_placeAt h.wellFormed hp
      (Radix.not_spills_of_le_one (radices_pos h.wellFormed) (radices_lt h) (Nat.le_refl 1) p)
  · rw [after_of_le (by omega), after_of_le (by omega), advance_sentinel]

end Steps

end IndexSpace

end ComputeCore
