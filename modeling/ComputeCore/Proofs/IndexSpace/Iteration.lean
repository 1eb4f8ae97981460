import Mathlib.Data.Set.Function
import Mathlib.Data.List.GetD
import Mathlib.Data.List.OfFn
import ComputeCore.Proofs.IndexSpace.Arithmetic
/-!
# Iterating over an index space

`IndexSpace.walk` is the cursor of an iteration that starts on the first work-item and asks for the
next one again and again. The global ids of a work-item are a point of `IndexSpace.InBox`, and every
point of that box is the global ids of exactly one work-item (`globalPoint_bijOn`): `iteration_covers`
puts this together with the order in which an iteration comes to them and with what it says is left.
-/

namespace ComputeCore

/-- The cursor once it was asked for its next work-item. At the end it stays where it is. -/
def Cursor.proceed (cursor : Cursor) : Cursor :=
  match cursor.next? with
  | none => cursor
  | some (_, following) => following

/-- The exact global ids of the cursor in the first `dims` dimensions. -/
def Cursor.globalPoint (cursor : Cursor) (dims : Nat) (dim : Fin dims) : Nat :=
  cursor.exactGlobalId dim

namespace IndexSpace

/-- The cursor of an iteration that was asked `k` times for its next work-item. -/
def walk (space : IndexSpace) (k : Nat) : Cursor :=
  Cursor.proceed^[k] space.first

/-- The point is in the box of the global ids: in each dimension as many from the offset on as the
global size says. -/
def InBox (space : IndexSpace) (point : Fin space.dims → Nat) : Prop :=
  ∀ dim : Fin space.dims, space.globalOffset dim ≤ point dim ∧
    point dim < space.globalOffset dim + space.globalSize dim

section Iteration
variable {space : IndexSpace} {cursor other : Cursor}

/-! ## One dimension -/

theorem query_eq (f : Axis → Nat) {dim : Nat} (hdim : dim < space.axes.length) :
    space.query f dim = f space.axes[dim] := by
  simp [query, List.getElem?_eq_getElem hdim]

theorem localSize_pos (h : space.WellFormed) {dim : Nat} (hdim : dim < space.dims) :
    0 < space.localSize dim := by
  rw [localSize, query_eq _ hdim]
  exact (h.axes _ (List.getElem_mem hdim)).2.1

theorem numGroups_mul_localSize (h : space.WellFormed) {dim : Nat} (hdim : dim < space.dims) :
    space.numGroups dim * space.localSize dim = space.globalSize dim := by
  rw [numGroups, localSize, globalSize, query_eq _ hdim, query_eq _ hdim, query_eq _ hdim]
  exact Nat.div_mul_cancel (h.axes _ (List.getElem_mem hdim)).2.2

/-- Ids are in range if there is one for each dimension, below the size of that dimension. -/
theorem forall₂_map_iff {f : Axis → Nat} {ids : List Nat} :
    List.Forall₂ (· < ·) ids (space.axes.map f) ↔
      ids.length = space.dims ∧ ∀ dim < space.dims, ids.getD dim 0 < space.query f dim := by
  rw [List.forall₂_iff_get]
  constructor
  · rintro ⟨hlen, h⟩
    rw [List.length_map] at hlen
    refine ⟨hlen, fun dim hdim => ?_⟩
    have haxes : dim < space.axes.length := hdim
    have hids : dim < ids.length := hlen ▸ hdim
    rw [List.getD_eq_getElem _ _ hids, query_eq _ haxes]
    simpa using h dim hids (by rwa [List.length_map])
  · rintro ⟨hlen, h⟩
    refine ⟨by rw [hlen, List.length_map, dims], fun dim hids hmap => ?_⟩
    have haxes : dim < space.axes.length := by rwa [List.length_map] at hmap
    have := h dim haxes
    rw [List.getD_eq_getElem _ _ hids, query_eq _ haxes] at this
    simpa using this

theorem eq_of_getD {ids ids' : List Nat} (hlen : ids.length = ids'.length)
    (h : ∀ dim < ids.length, ids.getD dim 0 = ids'.getD dim 0) : ids = ids' := by
  refine List.ext_getElem hlen fun dim hdim hdim' => ?_
  rw [← List.getD_eq_getElem _ 0 hdim, ← List.getD_eq_getElem _ 0 hdim', h dim hdim]

theorem getD_ofFn {dims : Nat} (f : Fin dims → Nat) {dim : Nat} (hdim : dim < dims) :
    (List.ofFn f).getD dim 0 = f ⟨dim, hdim⟩ := by
  simp [List.getD_eq_getElem?_getD, hdim]

/-- The part of a global id without the offset is a group and a place in it. -/
theorem relative_lt (h : space.WellFormed) (hspace : cursor.space = space) (hvalid : cursor.Valid)
    {dim : Nat} (hdim : dim < space.dims) :
    cursor.groupId dim * space.localSize dim + cursor.localId dim < space.globalSize dim := by
  subst hspace
  rw [← numGroups_mul_localSize h hdim]
  exact linear_lt ((forall₂_map_iff.1 hvalid.groupIds).2 dim hdim)
    ((forall₂_map_iff.1 hvalid.localIds).2 dim hdim)

/-! ## The box of global ids -/

theorem inBox_globalPoint (h : space.WellFormed) (hspace : cursor.space = space)
    (hvalid : cursor.Valid) : space.InBox (cursor.globalPoint space.dims) := by
  intro dim
  have hlt := relative_lt h hspace hvalid dim.isLt
  simp only [Cursor.globalPoint, Cursor.exactGlobalId, hspace]
  omega

/-- The global ids tell the cursor: the local id is what is left over after whole groups. -/
theorem eq_of_globalPoint (hspace : cursor.space = space) (hspace' : other.space = space)
    (hvalid : cursor.Valid) (hvalid' : other.Valid)
    (heq : cursor.globalPoint space.dims = other.globalPoint space.dims) : cursor = other := by
  obtain ⟨_, localIds, groupIds⟩ := cursor
  obtain ⟨_, localIds', groupIds'⟩ := other
  obtain rfl := hspace
  obtain rfl := hspace'
  obtain ⟨hlocal, hlocalIds⟩ := forall₂_map_iff.1 hvalid.localIds
  obtain ⟨hlocal', hlocalIds'⟩ := forall₂_map_iff.1 hvalid'.localIds
  obtain ⟨hgroup, -⟩ := forall₂_map_iff.1 hvalid.groupIds
  obtain ⟨hgroup', -⟩ := forall₂_map_iff.1 hvalid'.groupIds
  have hids {dim : Nat} (hdim : dim < IndexSpace.dims _) :=
    linear_inj (hlocalIds dim hdim) (hlocalIds' dim hdim)
      (Nat.add_right_cancel (congrFun heq ⟨dim, hdim⟩))
  rw [Cursor.mk.injEq]
  exact ⟨rfl, eq_of_getD (hlocal.trans hlocal'.symm) fun dim hdim => (hids (hlocal ▸ hdim)).2,
    eq_of_getD (hgroup.trans hgroup'.symm) fun dim hdim => (hids (hgroup ▸ hdim)).1⟩

/-- Every point of the box is the global ids of some work-item. -/
theorem exists_of_inBox (h : space.WellFormed) {point : Fin space.dims → Nat}
    (hpoint : space.InBox point) : ∃ cursor : Cursor,
      cursor.space = space ∧ cursor.Valid ∧ cursor.globalPoint space.dims = point := by
  let cursor : Cursor := {
    space
    localIds := List.ofFn fun dim => (point dim - space.globalOffset dim) % space.localSize dim
    groupIds := List.ofFn fun dim => (point dim - space.globalOffset dim) / space.localSize dim }
  refine ⟨cursor, rfl, ⟨forall₂_map_iff.2 ⟨List.length_ofFn, fun dim hdim => ?_⟩,
    forall₂_map_iff.2 ⟨List.length_ofFn, fun dim hdim => ?_⟩⟩, funext fun dim => ?_⟩
  · rw [getD_ofFn _ hdim]
    exact Nat.mod_lt _ (localSize_pos h hdim)
  · rw [getD_ofFn _ hdim]
    refine Nat.div_lt_of_lt_mul ?_
    have hhigh : point ⟨dim, hdim⟩ < space.globalOffset dim + space.globalSize dim :=
      (hpoint ⟨dim, hdim⟩).2
    have hlow : space.globalOffset dim ≤ point ⟨dim, hdim⟩ := (hpoint ⟨dim, hdim⟩).1
    show point ⟨dim, hdim⟩ - space.globalOffset dim < space.localSize dim * space.numGroups dim
    rw [Nat.mul_comm, numGroups_mul_localSize h hdim]
    omega
  · simp only [Cursor.globalPoint, Cursor.exactGlobalId, Cursor.groupId, Cursor.localId, cursor,
      getD_ofFn _ dim.isLt]
    rw [Nat.div_add_mod', Nat.sub_add_cancel (hpoint dim).1]

/-- The work-items of a space and the points of its box correspond to each other. -/
theorem globalPoint_bijOn (h : space.WellFormed) :
    Set.BijOn (fun k => (space.placeAt k).globalPoint space.dims) (Set.Iio space.count)
      {point | space.InBox point} := by
  refine ⟨fun k _ => inBox_globalPoint h rfl (valid_placeAt h k), fun j hj k hk heq => ?_,
    fun point hpoint => ?_⟩
  · have hcursor : space.placeAt j = space.placeAt k :=
      eq_of_globalPoint rfl rfl (valid_placeAt h j) (valid_placeAt h k) heq
    rw [← visited_placeAt h hj, hcursor, visited_placeAt h hk]
  · obtain ⟨cursor, rfl, hvalid, rfl⟩ := exists_of_inBox h hpoint
    obtain ⟨hlt, hplace⟩ := eq_placeAt_of_valid h hvalid
    exact ⟨cursor.visited, hlt, congrArg (Cursor.globalPoint · _) hplace.symm⟩

/-! ## The iteration -/

theorem next?_after (h : space.Accepted) (k : Nat) : (space.after k).next? =
    if k < space.count then some ((space.after k).item, space.after (k + 1)) else none := by
  unfold Cursor.next?
  rw [advance_one_after h]
  by_cases hk : k < space.count
  · rw [if_pos hk, if_neg (by rw [atEnd_after h.wellFormed]; omega)]
  · rw [if_neg hk, if_pos ((atEnd_after h.wellFormed k).2 (by omega))]

theorem proceed_after (h : space.Accepted) (k : Nat) :
    (space.after k).proceed = space.after (k + 1) := by
  rw [Cursor.proceed, next?_after h]
  by_cases hk : k < space.count
  · rw [if_pos hk]
  · rw [if_neg hk, after_of_le (by omega), after_of_le (by omega)]

theorem walk_eq_after (h : space.Accepted) (k : Nat) : space.walk k = space.after k := by
  induction k with
  | zero => exact (after_zero h.wellFormed).symm
  | succ k ih =>
    rw [walk] at ih ⊢
    rw [Function.iterate_succ_apply', ih, proceed_after h]

/-- An iteration yields the work-items of a space group by group, each group in order, says before
each of them how many are left, and goes on saying that there is none once it has yielded as many as
there are. Their global ids are the points of the box, each of them once. -/
theorem iteration_covers (h : space.Accepted) (hcount : space.count < Size.limit)
    (hbox : ∀ dim < space.dims,
      space.globalOffset dim + space.globalSize dim - 1 < Size.limit) :
    (∀ k < space.count,
      (space.walk k).next? = some ((space.walk k).item, space.walk (k + 1)) ∧
      (space.walk k).remaining = .ok (space.count - k) ∧
      (space.walk k).groupLinear = .ok (k / space.localSizes.prod) ∧
      (space.walk k).localLinear = .ok (k % space.localSizes.prod) ∧
      ∀ dim : Fin space.dims,
        (space.walk k).globalId dim = .ok ((space.walk k).globalPoint space.dims dim)) ∧
    (∀ k, space.count ≤ k → (space.walk k).next? = none) ∧
    Set.BijOn (fun k => (space.walk k).globalPoint space.dims) (Set.Iio space.count)
      {point | space.InBox point} := by
  have hwf := h.wellFormed
  refine ⟨fun k hk => ?_, fun k hk => ?_, ?_⟩
  · have hlocal := Nat.lt_of_le_of_lt hwf.localSizes_le_count hcount
    have hgroups := Nat.lt_of_le_of_lt hwf.groupCounts_le_count hcount
    have hremaining := (measured_placeAt hwf hcount hk).remaining
    rw [visited_placeAt hwf hk] at hremaining
    rw [walk_eq_after h, walk_eq_after h, next?_after h, if_pos hk, after_of_lt hk]
    refine ⟨rfl, hremaining, groupLinear_place space _ (group_lt_of_lt_count hk) hgroups,
      localLinear_place space _ (Nat.mod_lt k hwf.localSizes_prod_pos) hlocal, fun dim => ?_⟩
    refine Cursor.globalId_eq_ok dim.isLt (Nat.lt_of_le_of_lt ?_ (hbox dim dim.isLt))
    exact Nat.le_sub_one_of_lt (inBox_globalPoint hwf rfl (valid_placeAt hwf k) dim).2
  · rw [walk_eq_after h, next?_after h, if_neg (Nat.not_lt.2 hk)]
  · refine (globalPoint_bijOn hwf).congr fun k hk => ?_
    rw [walk_eq_after h, after_of_lt hk]

/-- Four columns in groups of two and two rows, up to the largest global id there is. -/
def lastRows : IndexSpace where
  axes := [{ globalSize := 4, localSize := 2, offset := 10 },
    { globalSize := 2, localSize := 1, offset := Size.limit - 2 }]

theorem iteration_covers_lastRows : lastRows.Accepted ∧
    (lastRows.walk 5).next? = some ((lastRows.walk 5).item, lastRows.walk 6) ∧
    (lastRows.walk 5).remaining = .ok 3 ∧ (lastRows.walk 5).groupLinear = .ok 2 ∧
    (lastRows.walk 5).localLinear = .ok 1 ∧ (lastRows.walk 5).globalId 1 = .ok (Size.limit - 1) ∧
    (lastRows.walk 8).next? = none ∧
    Set.BijOn (fun k => (lastRows.walk k).globalPoint 2) (Set.Iio 8)
      {point | lastRows.InBox point} := by
  have haccepted : lastRows.Accepted :=
    ⟨[4, 2], [2, 1], [10, Size.limit - 2], by decide, by decide⟩
  obtain ⟨hitems, hend, hpoints⟩ := iteration_covers haccepted (by decide) (by decide)
  obtain ⟨hnext, hremaining, hgroup, hlocal, hglobal⟩ := hitems 5 (by decide)
  exact ⟨haccepted, hnext, hremaining, hgroup, hlocal, hglobal ⟨1, by decide⟩, hend 8 (by decide),
    hpoints⟩

end Iteration

end IndexSpace

end ComputeCore
