import ComputeCore.Proofs.IndexSpace.Advance
import ComputeCore.Proofs.IndexSpace.Visits
/-!
# Starts of groups

`IndexSpace.groupStart` decodes a linear group id by repeated division, `Cursor.groupLinear` encodes
the group ids from the last dimension down, and `Cursor.advance` carries from the first dimension up.
`groupStart_inverts`: wherever the number of work-items is a size, the three describe one numeration of
the groups, for any number of dimensions. The start of a group has its linear id and is as many steps
from the first work-item as there are work-items in the groups before it, a cursor leads back to the
start of its own group, and past the last group there is only the sentinel.
-/

namespace ComputeCore

/-- The first work-item of the cursor's group. -/
def Cursor.groupFirst (cursor : Cursor) : Cursor :=
  { cursor with localIds := cursor.localIds.map fun _ => 0 }

/-- The cursor is on the first work-item of the group of `space` that has this linear id. -/
structure Cursor.StartsGroup (cursor : Cursor) (space : IndexSpace) (group : Nat) : Prop where
  space_eq : cursor.space = space
  valid : cursor.Valid
  isGroupStart : cursor.isGroupStart = true
  groupLinear : cursor.groupLinear = .ok group
  position : cursor.position = .ok (group * space.localSizes.prod)
  advance_first : space.first.advance (group * space.localSizes.prod) = cursor

theorem Radix.map_zero_digits (radices : List Nat) (n : Nat) :
    ((digits radices n).map fun _ => 0) = digits radices 0 := by
  induction radices generalizing n with
  | nil => rfl
  | cons radix radices ih => simp [digits, ih]

namespace IndexSpace

section Groups
variable {space : IndexSpace} {cursor : Cursor} {group : Nat}

theorem groupFirst_place (group item : Nat) :
    (space.place group item).groupFirst = space.place group 0 := by
  simp only [Cursor.groupFirst, place, Radix.map_zero_digits]

/-- The work-item with `group` whole groups before it opens that group. -/
theorem startsGroup_place (h : space.Accepted) (hcount : space.count < Size.limit)
    (hgroup : group < space.groupCounts.prod) : (space.place group 0).StartsGroup space group := by
  have hwf := h.wellFormed
  have hpos := hwf.localSizes_prod_pos
  have hgroups := Nat.lt_of_le_of_lt hwf.groupCounts_le_count hcount
  refine ⟨rfl, ⟨Radix.digits_lt hwf.localSizes_pos _, Radix.digits_lt hwf.groups_pos _⟩, ?_,
    groupLinear_place space 0 hgroup hgroups, position_place hwf hcount hgroup hpos, ?_⟩
  · simp [Cursor.isGroupStart, place, Radix.digits_zero]
  · rw [← after_zero hwf, advance_after_of_fits h (.inl hcount), Nat.zero_add,
      after_of_lt (Nat.mul_lt_mul_of_pos_right hgroup hpos)]
    exact placeAt_linear hpos

/-- A cursor on a work-item leads back to the start of its group. -/
theorem groupStart_groupLinear (h : cursor.space.WellFormed) (hcount : cursor.space.count < Size.limit)
    (hvalid : cursor.Valid) : ∃ group < cursor.space.groupCounts.prod,
      cursor.groupLinear = .ok group ∧ cursor.space.groupStart group = .ok cursor.groupFirst := by
  have hgroups := Nat.lt_of_le_of_lt h.groupCounts_le_count hcount
  obtain ⟨hlt, hplace⟩ := eq_placeAt_of_valid h hvalid
  obtain ⟨group, item, hlinear, hgroup, hitem⟩ := exists_linear hlt
  rw [hlinear, placeAt_linear hitem] at hplace
  refine ⟨group, hgroup, ?_, ?_⟩
  · rw [hplace]
    exact groupLinear_place _ item hgroup hgroups
  · rw [groupStart_eq h hgroups hgroup, ← groupFirst_place group item, ← hplace]

/-- Where the number of work-items is a size, decoding a linear group id, encoding group ids and
stepping over whole groups are one numeration. -/
theorem groupStart_inverts (h : space.Accepted)
    (hcount : (space.axes.map Axis.globalSize).prod < Size.limit) :
    space.totalGroups = .ok space.groupCounts.prod ∧
    space.itemsPerGroup = .ok space.localSizes.prod ∧
    (∀ group < space.groupCounts.prod, ∃ start, space.groupStart group = .ok start ∧
      start.StartsGroup space group) ∧
    (∀ cursor : Cursor, cursor.space = space → cursor.Valid → ∃ group < space.groupCounts.prod,
      cursor.groupLinear = .ok group ∧ space.groupStart group = .ok cursor.groupFirst) ∧
    ∀ group, space.groupCounts.prod ≤ group → space.groupStart group = .ok space.sentinel := by
  have hwf := h.wellFormed
  rw [hwf.globalSizes_prod] at hcount
  have hgroups := Nat.lt_of_le_of_lt hwf.groupCounts_le_count hcount
  refine ⟨hwf.totalGroups_eq hgroups,
    hwf.itemsPerGroup_eq (Nat.lt_of_le_of_lt hwf.localSizes_le_count hcount),
    fun group hgroup => ⟨_, groupStart_eq hwf hgroups hgroup, startsGroup_place h hcount hgroup⟩, ?_,
    fun group hgroup => ?_⟩
  · rintro cursor rfl hvalid
    exact groupStart_groupLinear hwf hcount hvalid
  · rw [groupStart_eq_after hwf hgroups, after_of_le (Nat.mul_le_mul_right _ hgroup)]

/-- Two by two by two groups of two by three by one work-items. -/
def bricks : IndexSpace where
  axes := [{ globalSize := 4, localSize := 2, offset := 0 },
    { globalSize := 6, localSize := 3, offset := 0 }, { globalSize := 2, localSize := 1, offset := 0 }]

theorem groupStart_inverts_bricks : bricks.Accepted ∧
    (∃ start, bricks.groupStart 5 = .ok start ∧ start.groupIds = [1, 0, 1] ∧
      start.position = .ok 30 ∧ bricks.first.advance 30 = start) ∧
    bricks.groupStart 6 = .ok { space := bricks, localIds := [0, 0, 0], groupIds := [0, 1, 1] } ∧
    bricks.groupStart 8 = .ok bricks.sentinel := by
  have haccepted : bricks.Accepted := ⟨[4, 6, 2], [2, 3, 1], [0, 0, 0], by decide, by decide⟩
  obtain ⟨-, -, hstart, hback, hpast⟩ := groupStart_inverts haccepted (by decide)
  obtain ⟨start, hfive, hopens⟩ := hstart 5 (by decide)
  obtain ⟨group, -, hlinear, hgroup⟩ :=
    hback { space := bricks, localIds := [1, 2, 0], groupIds := [0, 1, 1] } rfl ⟨by decide, by decide⟩
  obtain rfl : 6 = group := Except.ok.inj hlinear
  refine ⟨haccepted, ⟨start, hfive, ?_, hopens.position, hopens.advance_first⟩, hgroup,
    hpast 8 (by decide)⟩
  rw [← hopens.advance_first]
  decide

end Groups

end IndexSpace

end ComputeCore
