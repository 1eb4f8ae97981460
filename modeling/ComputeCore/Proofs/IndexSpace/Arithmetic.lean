import ComputeCore.Proofs.IndexSpace.Advance
import ComputeCore.Proofs.IndexSpace.Visits
/-!
# Arithmetic over an index space

The number of work-items is the only product that can leave the range of sizes: where it is a size,
every other number about the space and about a cursor that comes about in it is computed, and exact
(`arithmetic_exact`). A global id is computed exactly when it is a size itself.
-/

namespace ComputeCore

namespace Cursor

/-- The exact global id in one dimension, which need not be a size. -/
def exactGlobalId (cursor : Cursor) (dim : Nat) : Nat :=
  cursor.groupId dim * cursor.space.localSize dim + cursor.localId dim +
    cursor.space.globalOffset dim

/-- All that is computed about where the cursor stands is exact. -/
structure Measured (cursor : Cursor) : Prop where
  localLinear : cursor.localLinear = .ok (Radix.amount cursor.space.localSizes cursor.localIds)
  groupLinear : cursor.groupLinear = .ok (Radix.amount cursor.space.groupCounts cursor.groupIds)
  position : cursor.position = .ok cursor.visited
  remaining : cursor.remaining = .ok (cursor.space.count - cursor.visited)

variable {cursor : Cursor} {dim : Nat}

theorem globalId_eq_ok (hdim : dim < cursor.space.dims)
    (hfits : cursor.exactGlobalId dim < Size.limit) :
    cursor.globalId dim = .ok (cursor.exactGlobalId dim) := by
  unfold exactGlobalId at *
  rw [globalId, if_pos hdim, Size.mul_eq_ok (by omega)]
  show (do let relative ← Size.add _ (cursor.localId dim); _) = _
  rw [Size.add_eq_ok (by omega)]
  exact Size.add_eq_ok hfits

/-- A global id is a fault exactly when it is no size: none of its parts is larger than the whole. -/
theorem globalId_fault_iff (hdim : dim < cursor.space.dims) :
    (∃ fault, cursor.globalId dim = .error fault) ↔ Size.limit ≤ cursor.exactGlobalId dim := by
  constructor
  · rintro ⟨fault, hfault⟩
    by_contra hfits
    rw [globalId_eq_ok hdim (Nat.not_le.1 hfits)] at hfault
    cases hfault
  · intro hlimit
    rw [exactGlobalId] at hlimit
    rw [globalId, if_pos hdim]
    by_cases hmul : cursor.groupId dim * cursor.space.localSize dim < Size.limit
    · by_cases hadd :
          cursor.groupId dim * cursor.space.localSize dim + cursor.localId dim < Size.limit
      · simp only [Size.mul_eq_ok hmul, Size.add_eq_ok hadd, bind, Except.bind]
        exact ⟨_, if_neg (Nat.not_lt.2 hlimit)⟩
      · exact ⟨.addOverflow, by simp [Size.mul_eq_ok hmul, Size.add, hadd, bind, Except.bind]⟩
    · exact ⟨.mulOverflow, by simp [Size.mul, hmul, bind, Except.bind]⟩

end Cursor

namespace IndexSpace

section Measures
variable {space : IndexSpace}

theorem totalItems_eq (h : space.WellFormed) : space.totalItems =
    if space.count < Size.limit then .ok space.count else .error .mulOverflow := by
  have hpos : ∀ size ∈ space.axes.map Axis.globalSize, 0 < size := by
    intro size hsize
    obtain ⟨axis, haxis, rfl⟩ := List.mem_map.1 hsize
    exact (h.axes axis haxis).1
  rw [totalItems, Size.product_eq hpos, h.globalSizes_prod]

/-- What is left is computed from the position. -/
theorem remaining_of_position {cursor : Cursor} {p : Nat} (h : cursor.space.WellFormed)
    (hcount : cursor.space.count < Size.limit) (hposition : cursor.position = .ok p)
    (hp : p ≤ cursor.space.count) : cursor.remaining = .ok (cursor.space.count - p) := by
  rw [Cursor.remaining, totalItems_eq h, if_pos hcount, hposition]
  exact if_pos hp

theorem measured_placeAt (h : space.WellFormed) (hcount : space.count < Size.limit) {p : Nat}
    (hp : p < space.count) : (space.placeAt p).Measured := by
  have hvalid := valid_placeAt h p
  have hlocal := Nat.lt_of_lt_of_le (Radix.amount_lt hvalid.localIds) h.localSizes_le_count
  have hgroup := Nat.lt_of_lt_of_le (Radix.amount_lt hvalid.groupIds) h.groupCounts_le_count
  have hposition : (space.placeAt p).position = .ok p := by
    obtain ⟨group, item, rfl, hgroup, hitem⟩ := exists_linear hp
    rw [placeAt_linear hitem, position_place h hcount hgroup hitem]
  refine ⟨Radix.value_eq_ok h.localSizes_pos (Nat.lt_trans hlocal hcount),
    Radix.value_eq_ok h.groups_pos (Nat.lt_trans hgroup hcount), ?_, ?_⟩
  · rw [hposition, visited_placeAt h hp]
  · rw [visited_placeAt h hp]
    exact remaining_of_position h hcount hposition (Nat.le_of_lt hp)

/-- The first group id of the sentinel is no digit, and is its linear group id all the same. -/
theorem amount_sentinel (h : space.WellFormed) :
    Radix.amount space.groupCounts space.sentinel.groupIds ≤ space.groupCounts.prod := by
  obtain ⟨axis, rest, haxes⟩ := List.exists_cons_of_ne_nil h.nonempty
  have hrest : 0 < (rest.map Axis.groups).prod :=
    List.prod_pos_iff_forall_pos_nat.2 fun count hcount =>
      h.groups_pos count (by simp only [groupCounts, haxes]; exact List.mem_cons_of_mem _ hcount)
  have hzero := Radix.amount_digits hrest
  rw [Radix.digits_zero, List.map_map] at hzero
  simp only [groupCounts, sentinel, atGroup, numGroups, query, haxes, List.map_cons, List.tail_cons,
    Radix.amount, List.getElem?_cons_zero, Option.map_some, Option.getD_some, List.prod_cons]
  show Radix.amount _ (rest.map ((fun _ => 0) ∘ Axis.groups)) * _ + _ ≤ _
  rw [hzero, Nat.zero_mul, Nat.zero_add]
  exact Nat.le_mul_of_pos_right _ hrest

theorem measured_sentinel (h : space.WellFormed) (hcount : space.count < Size.limit) :
    space.sentinel.Measured := by
  have hposition : space.sentinel.position = .ok space.count := by
    rw [Cursor.position, if_pos atEnd_sentinel]
    exact (totalItems_eq h).trans (if_pos hcount)
  have hlocal : Radix.amount space.localSizes space.sentinel.localIds = 0 := by
    have hzero := Radix.amount_digits h.localSizes_prod_pos
    rw [Radix.digits_zero, localSizes, List.map_map] at hzero
    exact hzero
  refine ⟨Radix.value_eq_ok h.localSizes_pos ?_, Radix.value_eq_ok h.groups_pos ?_, ?_, ?_⟩
  · exact Nat.lt_of_le_of_lt (Nat.le_of_eq hlocal) (by decide)
  · exact Nat.lt_of_le_of_lt (Nat.le_trans (amount_sentinel h) h.groupCounts_le_count) hcount
  · rw [hposition, visited_sentinel]
  · rw [visited_sentinel]
    exact remaining_of_position h hcount hposition (Nat.le_refl _)

theorem measured_after (h : space.WellFormed) (hcount : space.count < Size.limit) (p : Nat) :
    (space.after p).Measured := by
  by_cases hp : p < space.count
  · rw [after_of_lt hp]
    exact measured_placeAt h hcount hp
  · rw [after_of_le (Nat.not_lt.1 hp)]
    exact measured_sentinel h hcount

/-- The number of work-items is computed exactly when it is a size. If it is, so is every other
number: none divides by zero, and none leaves the range of sizes on the way. A global id is computed,
at any cursor whatever, exactly when it is a size. -/
theorem arithmetic_exact (h : space.Accepted) :
    (space.totalItems = if (space.axes.map Axis.globalSize).prod < Size.limit
      then .ok (space.axes.map Axis.globalSize).prod else .error .mulOverflow) ∧
    ((space.axes.map Axis.globalSize).prod < Size.limit →
      (∀ radix ∈ space.radices, 0 < radix) ∧
      space.itemsPerGroup = .ok space.localSizes.prod ∧
      space.totalGroups = .ok space.groupCounts.prod ∧
      (∀ group, space.groupStart group = .ok (space.after (group * space.localSizes.prod))) ∧
      ∀ cursor, space.Reached cursor → cursor.Measured) ∧
    ∀ (cursor : Cursor) (dim : Nat), cursor.space = space → dim < space.dims →
      (cursor.exactGlobalId dim < Size.limit →
        cursor.globalId dim = .ok (cursor.exactGlobalId dim)) ∧
      ((∃ fault, cursor.globalId dim = .error fault) ↔
        Size.limit ≤ cursor.exactGlobalId dim) := by
  have hwf := h.wellFormed
  rw [hwf.globalSizes_prod]
  refine ⟨totalItems_eq hwf, fun hcount => ?_, ?_⟩
  · have hlocal := Nat.lt_of_le_of_lt hwf.localSizes_le_count hcount
    have hgroups := Nat.lt_of_le_of_lt hwf.groupCounts_le_count hcount
    refine ⟨radices_pos hwf, hwf.itemsPerGroup_eq hlocal, hwf.totalGroups_eq hgroups,
      groupStart_eq_after hwf hgroups, fun cursor hreached => ?_⟩
    obtain ⟨p, -, rfl⟩ := hreached.exists_after h
    exact measured_after hwf hcount p
  · rintro cursor dim rfl hdim
    exact ⟨Cursor.globalId_eq_ok hdim, Cursor.globalId_fault_iff hdim⟩

/-- As many work-items in a row as a size can count, in groups of three, with global ids from two. -/
def longRow : IndexSpace where
  axes := [{ globalSize := Size.limit - 1, localSize := 3, offset := 2 }]

/-- At the end of `longRow` all numbers are sizes still, and the last global id alone is not. -/
theorem arithmetic_exact_longRow : longRow.Accepted ∧ longRow.totalItems = .ok (Size.limit - 1) ∧
    longRow.sentinel.remaining = .ok 0 ∧
    (longRow.first.advance (Size.limit - 2)).position = .ok (Size.limit - 2) ∧
    ∃ fault, (longRow.first.advance (Size.limit - 2)).globalId 0 = .error fault := by
  have haccepted : longRow.Accepted := ⟨[Size.limit - 1], [3], [2], by decide, by decide⟩
  obtain ⟨htotal, hexact, hglobal⟩ := arithmetic_exact haccepted
  obtain ⟨-, -, -, -, hmeasured⟩ := hexact (by decide)
  have hend := (hmeasured _ .sentinel).remaining
  have hlast := (hmeasured _ (.advance (Size.limit - 2) .first)).position
  exact ⟨haccepted, htotal, hend, hlast, (hglobal _ 0 rfl (by decide)).2.2 (by decide)⟩

end Measures

end IndexSpace

end ComputeCore
