import ComputeCore.IndexSpace.Cursor
import ComputeCore.Proofs.IndexSpace.Numerals
/-!
# Places in an index space

`IndexSpace.place` is the cursor on a work-item given by the linear id of its group and its own
linear id in the group. In a well-formed space, which is what `IndexSpace.make` accepts, a group
starts at its place with item 0 (`groupStart_eq`), a cursor advances from place to place inside its
group (`advance_place`), and a cursor on a place tells the two ids it was made from
(`groupLinear_place`, `localLinear_place`).
-/

namespace ComputeCore

namespace IndexSpace

/-- What every accepted description of an index space satisfies. -/
structure WellFormed (space : IndexSpace) : Prop where
  nonempty : space.axes ≠ []
  dims_le : space.dims ≤ maxDims
  axes : ∀ axis ∈ space.axes,
    0 < axis.globalSize ∧ 0 < axis.localSize ∧ axis.localSize ∣ axis.globalSize

/-- The work-item with linear id `item` in the group with linear id `group`. -/
def place (space : IndexSpace) (group item : Nat) : Cursor :=
  { space
    localIds := Radix.digits space.localSizes item
    groupIds := Radix.digits space.groupCounts group }

/-! ## Accepted descriptions -/

theorem makeAxes_spec {dim : Nat} {globals locals offsets : List Nat} {axes : List Axis}
    (hlocals : locals.length = globals.length) (hoffsets : offsets.length = globals.length)
    (h : makeAxes dim globals locals offsets = .ok axes) :
    axes.map Axis.globalSize = globals ∧ ∀ axis ∈ axes,
      0 < axis.globalSize ∧ 0 < axis.localSize ∧ axis.localSize ∣ axis.globalSize := by
  induction globals generalizing dim locals offsets axes with
  | nil =>
    obtain rfl : axes = [] := by simpa [makeAxes] using h.symm
    simp
  | cons globalSize globals ih =>
    match locals, offsets, hlocals, hoffsets with
    | localSize :: locals, offset :: offsets, hlocals, hoffsets =>
      simp only [makeAxes] at h
      split at h
      · cases h
      · split at h
        · cases h
        · rename_i hzero hdvd
          cases hrest : makeAxes (dim + 1) globals locals offsets with
          | error e => rw [hrest] at h; cases h
          | ok rest =>
            rw [hrest] at h
            obtain rfl : { globalSize, localSize, offset } :: rest = axes := by cases h; rfl
            obtain ⟨hglobals, hall⟩ := ih (by simpa using hlocals) (by simpa using hoffsets) hrest
            refine ⟨by simp [hglobals], fun axis haxis => ?_⟩
            rcases List.mem_cons.1 haxis with rfl | haxis
            · simp only [not_or] at hzero
              exact ⟨Nat.pos_of_ne_zero hzero.1, Nat.pos_of_ne_zero hzero.2,
                Nat.dvd_of_mod_eq_zero (Decidable.not_not.1 hdvd)⟩
            · exact hall axis haxis

theorem make_spec {globals locals offsets : List Nat} {space : IndexSpace}
    (h : make globals locals offsets = .ok space) :
    space.axes.map Axis.globalSize = globals ∧ space.WellFormed := by
  unfold make at h
  split at h
  · cases h
  · split at h
    · cases h
    · rename_i hdims hlens
      simp only [not_or, Nat.not_lt, ne_eq, Decidable.not_not] at hdims hlens
      cases haxes : makeAxes 0 globals locals offsets with
      | error e => rw [haxes] at h; cases h
      | ok axes =>
        rw [haxes] at h
        obtain rfl : { axes } = space := by cases h; rfl
        obtain ⟨hglobals, hall⟩ := makeAxes_spec hlens.1 hlens.2 haxes
        have hlen : axes.length = globals.length := by simpa using congrArg List.length hglobals
        refine ⟨hglobals, fun hnil => hdims.1 ?_, by simpa [dims, hlen] using hdims.2, hall⟩
        simpa [show axes = [] from hnil] using hlen.symm

theorem make_wellFormed {globals locals offsets : List Nat} {space : IndexSpace}
    (h : make globals locals offsets = .ok space) : space.WellFormed :=
  (make_spec h).2

/-- The index spaces there are: those that a description made of sizes is accepted as. -/
def Accepted (space : IndexSpace) : Prop :=
  ∃ globals locals offsets, (∀ size ∈ globals ++ locals ++ offsets, size < Size.limit) ∧
    make globals locals offsets = .ok space

namespace WellFormed

variable {space : IndexSpace}

theorem localSizes_pos (h : space.WellFormed) : ∀ size ∈ space.localSizes, 0 < size := by
  intro size hsize
  obtain ⟨axis, haxis, rfl⟩ := List.mem_map.1 hsize
  exact (h.axes axis haxis).2.1

theorem groups_pos (h : space.WellFormed) : ∀ count ∈ space.groupCounts, 0 < count := by
  intro count hcount
  obtain ⟨axis, haxis, rfl⟩ := List.mem_map.1 hcount
  obtain ⟨hglobal, hlocal, hdvd⟩ := h.axes axis haxis
  exact Nat.div_pos (Nat.le_of_dvd hglobal hdvd) hlocal

theorem itemsPerGroup_eq (h : space.WellFormed) (hfit : space.localSizes.prod < Size.limit) :
    space.itemsPerGroup = .ok space.localSizes.prod :=
  Size.product_eq_ok h.localSizes_pos hfit

theorem totalGroups_eq (h : space.WellFormed) (hfit : space.groupCounts.prod < Size.limit) :
    space.totalGroups = .ok space.groupCounts.prod :=
  Size.product_eq_ok h.groups_pos hfit

theorem localSize_le (h : space.WellFormed) {axis : Axis} (haxis : axis ∈ space.axes) :
    axis.localSize ≤ axis.globalSize :=
  Nat.le_of_dvd (h.axes axis haxis).1 (h.axes axis haxis).2.2

end WellFormed

namespace Accepted

variable {space : IndexSpace}

theorem wellFormed (h : space.Accepted) : space.WellFormed := by
  obtain ⟨_, _, _, -, hmake⟩ := h
  exact make_wellFormed hmake

theorem globalSize_lt (h : space.Accepted) {axis : Axis} (haxis : axis ∈ space.axes) :
    axis.globalSize < Size.limit := by
  obtain ⟨globals, _, _, hsizes, hmake⟩ := h
  refine hsizes _ (List.mem_append_left _ (List.mem_append_left _ ?_))
  rw [← (make_spec hmake).1]
  exact List.mem_map_of_mem haxis

theorem localSizes_lt (h : space.Accepted) : ∀ size ∈ space.localSizes, size < Size.limit := by
  intro size hsize
  obtain ⟨axis, haxis, rfl⟩ := List.mem_map.1 hsize
  exact Nat.lt_of_le_of_lt (h.wellFormed.localSize_le haxis) (h.globalSize_lt haxis)

theorem groupCounts_lt (h : space.Accepted) : ∀ count ∈ space.groupCounts, count < Size.limit := by
  intro count hcount
  obtain ⟨axis, haxis, rfl⟩ := List.mem_map.1 hcount
  exact Nat.lt_of_le_of_lt (Nat.div_le_self _ _) (h.globalSize_lt haxis)

end Accepted

/-! ## Cursors on places -/

theorem groupStart_eq {space : IndexSpace} (h : space.WellFormed)
    (hfit : space.groupCounts.prod < Size.limit) {group : Nat}
    (hgroup : group < space.groupCounts.prod) : space.groupStart group = .ok (space.place group 0) := by
  unfold groupStart
  rw [h.totalGroups_eq hfit]
  show (if group < space.groupCounts.prod then _ else _) = _
  rw [if_pos hgroup, atGroup, place, Radix.digits_zero, localSizes, List.map_map]
  rfl

/-- A place is never taken for the sentinel: its first group id is a digit. -/
theorem atEnd_place {space : IndexSpace} (h : space.WellFormed) (group item : Nat) :
    (space.place group item).atEnd = false := by
  obtain ⟨axis, rest, haxes⟩ := List.exists_cons_of_ne_nil h.nonempty
  have hpos : 0 < axis.groups := h.groups_pos _ (by simp [groupCounts, haxes])
  have hlt : group % axis.groups < axis.groups := Nat.mod_lt _ hpos
  simp only [Cursor.atEnd, place, groupCounts, haxes, List.map_cons, Radix.digits, List.headD_cons,
    numGroups, query, List.getElem?_cons_zero, Option.map_some, Option.getD_some, decide_eq_false_iff_not]
  omega

/-- Inside a group a cursor advances from place to place. -/
theorem advance_place {space : IndexSpace} (h : space.WellFormed) (group : Nat) {item n : Nat}
    (hitem : item + n < space.localSizes.prod) (hfit : space.localSizes.prod < Size.limit) :
    (space.place group item).advance n = space.place group (item + n) := by
  unfold Cursor.advance
  by_cases hn : n = 0
  · simp [hn]
  · rw [if_neg (by simp [hn, atEnd_place h])]
    have hlocal := Radix.addCarry_digits (show item < space.localSizes.prod by omega)
      (show item + n < Size.limit by omega)
    simp only [place, hlocal, Nat.div_eq_of_lt hitem, Radix.addCarry_zero]

theorem localLinear_place (space : IndexSpace) (group : Nat) {item : Nat}
    (hitem : item < space.localSizes.prod) (hfit : space.localSizes.prod < Size.limit) :
    (space.place group item).localLinear = .ok item :=
  Radix.value_digits hitem (by omega)

theorem groupLinear_place (space : IndexSpace) {group : Nat} (item : Nat)
    (hgroup : group < space.groupCounts.prod) (hfit : space.groupCounts.prod < Size.limit) :
    (space.place group item).groupLinear = .ok group :=
  Radix.value_digits hgroup (by omega)

end IndexSpace

end ComputeCore
