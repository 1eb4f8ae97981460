import Mathlib.Tactic.Ring
import ComputeCore.Memory.Image
import ComputeCore.Proofs.IndexSpace.Numerals
/-!
# Where the rows of an image lie

The exact places of the rows of an image: `rowStart` in the host data, `rowTarget` on the device. They need
not be sizes, and a row is placed only if they are (`RowFits`). Rows and slices follow one another in both
places, so the last row decides for all (`RowFits.of_last`).

The host size of an image that is not empty is one row after the start of its last one: if it is computed,
every row is placed (`rowFits_of_hostSize`). The host size of an empty image is zero whatever its pitches
are, and says nothing about its rows. `Runaway` are the empty images that have rows all the same, and some
that are not placed.
-/

namespace ComputeCore

/-! ## Checked sizes -/

theorem bind_eq_ok {ε α β : Type} {x : Except ε α} {f : α → Except ε β} {b : β} :
    (x >>= f) = .ok b ↔ ∃ a, x = .ok a ∧ f a = .ok b := by
  cases x <;> simp [bind, Except.bind]

namespace Size
variable {a b c : Nat}

theorem add_eq_ok_iff : add a b = .ok c ↔ a + b < limit ∧ a + b = c := by
  unfold add
  split <;> simp [*]

theorem mul_eq_ok_iff : mul a b = .ok c ↔ a * b < limit ∧ a * b = c := by
  unfold mul
  split <;> simp [*]

theorem sub_eq_ok_iff : sub a b = .ok c ↔ b ≤ a ∧ a - b = c := by
  unfold sub
  split <;> simp [*]

end Size

namespace ImageLayout

/-! ## Exact places -/

def rowLength (layout : ImageLayout) : Nat :=
  layout.width * layout.elementSize

def rowStride (layout : ImageLayout) : Nat :=
  if layout.hostRowPitch = 0 then layout.rowLength else layout.hostRowPitch

def sliceStride (layout : ImageLayout) : Nat :=
  if layout.hostSlicePitch = 0 then layout.rowStride * layout.height else layout.hostSlicePitch

/-- The host byte that row `y` of slice `z` starts at. -/
def rowStart (layout : ImageLayout) (z y : Nat) : Nat :=
  z * layout.sliceStride + y * layout.rowStride

/-- The device byte that row `y` of slice `z` starts at. -/
def rowTarget (layout : ImageLayout) (z y : Nat) : Nat :=
  (z * layout.height + y) * layout.rowLength

/-- All numbers that lead to the places of a row are sizes. -/
structure RowFits (layout : ImageLayout) (z y : Nat) : Prop where
  slice : layout.hostSlicePitch = 0 → layout.rowStride * layout.height < Size.limit
  start : layout.rowStart z y < Size.limit
  rows : z * layout.height + y < Size.limit
  target : layout.rowTarget z y < Size.limit

instance (layout : ImageLayout) (z y : Nat) : Decidable (layout.RowFits z y) :=
  decidable_of_iff ((layout.hostSlicePitch = 0 → layout.rowStride * layout.height < Size.limit) ∧
      layout.rowStart z y < Size.limit ∧ z * layout.height + y < Size.limit ∧
      layout.rowTarget z y < Size.limit)
    ⟨fun ⟨slice, start, rows, target⟩ => ⟨slice, start, rows, target⟩,
      fun ⟨slice, start, rows, target⟩ => ⟨slice, start, rows, target⟩⟩

/-- The image has no bytes, yet it has rows, and its last one is not placed. -/
structure Runaway (layout : ImageLayout) : Prop where
  empty : layout.size = .ok 0
  height_pos : 0 < layout.height
  depth_pos : 0 < layout.depth
  escapes : ¬ layout.RowFits (layout.depth - 1) (layout.height - 1)

variable {layout : ImageLayout} {z y z' y' b b' source target size required : Nat}

theorem mem_rows : (z, y) ∈ layout.rows ↔ z < layout.depth ∧ y < layout.height := by
  simp [rows]

/-! ## What is computed -/

theorem rowBytes_eq_ok_iff : layout.rowBytes = .ok size ↔ layout.rowLength < Size.limit ∧ layout.rowLength = size :=
  Size.mul_eq_ok_iff

theorem size_eq_ok_iff : layout.size = .ok size ↔ layout.rowLength < Size.limit ∧
    layout.rowLength * layout.height < Size.limit ∧
    layout.rowLength * layout.height * layout.depth < Size.limit ∧
    layout.rowLength * layout.height * layout.depth = size := by
  simp only [ImageLayout.size, bind_eq_ok, rowBytes_eq_ok_iff, Size.mul_eq_ok_iff]
  constructor
  · rintro ⟨_, ⟨hrow, rfl⟩, _, ⟨hslice, rfl⟩, hsize⟩
    exact ⟨hrow, hslice, hsize⟩
  · rintro ⟨hrow, hslice, hsize⟩
    exact ⟨_, ⟨hrow, rfl⟩, _, ⟨hslice, rfl⟩, hsize⟩

section Row
variable (hrow : layout.rowLength < Size.limit)
include hrow

theorem rowPitch_eq_ok : layout.rowPitch = .ok layout.rowStride := by
  unfold rowPitch rowStride
  split
  · exact rowBytes_eq_ok_iff.2 ⟨hrow, rfl⟩
  · rfl

theorem slicePitch_eq_ok_iff : layout.slicePitch = .ok size ↔
    (layout.hostSlicePitch = 0 → layout.rowStride * layout.height < Size.limit) ∧
      layout.sliceStride = size := by
  unfold slicePitch sliceStride
  split
  · next hpitch =>
    simp only [hpitch, true_implies, bind_eq_ok, rowPitch_eq_ok hrow, Size.mul_eq_ok_iff, Except.ok.injEq,
      exists_eq_left']
  · next hpitch => simp [hpitch]

theorem hostOffset_eq_ok_iff : layout.hostOffset z y = .ok source ↔
    (layout.hostSlicePitch = 0 → layout.rowStride * layout.height < Size.limit) ∧
      layout.rowStart z y < Size.limit ∧ layout.rowStart z y = source := by
  simp only [hostOffset, bind_eq_ok, slicePitch_eq_ok_iff hrow, rowPitch_eq_ok hrow, Size.mul_eq_ok_iff,
    Size.add_eq_ok_iff, Except.ok.injEq, exists_eq_left', rowStart]
  constructor
  · rintro ⟨_, ⟨hslice, rfl⟩, _, ⟨-, rfl⟩, _, ⟨-, rfl⟩, hstart⟩
    exact ⟨hslice, hstart⟩
  · rintro ⟨hslice, hstart⟩
    exact ⟨_, ⟨hslice, rfl⟩, _, ⟨by omega, rfl⟩, _, ⟨by omega, rfl⟩, hstart⟩

end Row

theorem deviceOffset_eq_ok_iff : layout.deviceOffset layout.rowLength z y = .ok target ↔
    z * layout.height + y < Size.limit ∧ layout.rowTarget z y < Size.limit ∧ layout.rowTarget z y = target := by
  simp only [deviceOffset, bind_eq_ok, Size.mul_eq_ok_iff, Size.add_eq_ok_iff, rowTarget]
  constructor
  · rintro ⟨_, ⟨-, rfl⟩, _, ⟨hrows, rfl⟩, htarget⟩
    exact ⟨hrows, htarget⟩
  · rintro ⟨hrows, htarget⟩
    exact ⟨_, ⟨by omega, rfl⟩, _, ⟨hrows, rfl⟩, htarget⟩

/-- A row fits exactly if both its places are computed. -/
theorem rowFits_iff (hrow : layout.rowLength < Size.limit) : layout.RowFits z y ↔
    (∃ source, layout.hostOffset z y = .ok source) ∧
      ∃ target, layout.deviceOffset layout.rowLength z y = .ok target := by
  simp only [hostOffset_eq_ok_iff hrow, deviceOffset_eq_ok_iff]
  constructor
  · rintro ⟨hslice, hstart, hrows, htarget⟩
    exact ⟨⟨_, hslice, hstart, rfl⟩, _, hrows, htarget, rfl⟩
  · rintro ⟨⟨_, hslice, hstart, -⟩, _, hrows, htarget, -⟩
    exact ⟨hslice, hstart, hrows, htarget⟩

/-! ## Rows do not meet on the device -/

/-- Every byte of the device belongs to one place of the image. -/
theorem rowTarget_inj (hy : y < layout.height) (hy' : y' < layout.height) (hb : b < layout.rowLength)
    (hb' : b' < layout.rowLength) (h : layout.rowTarget z y + b = layout.rowTarget z' y' + b') :
    z = z' ∧ y = y' ∧ b = b' := by
  obtain ⟨hplace, hbyte⟩ := linear_inj hb hb' h
  obtain ⟨hz, hy⟩ := linear_inj hy hy' hplace
  exact ⟨hz, hy, hbyte⟩

theorem rowTarget_lt (hz : z < layout.depth) (hy : y < layout.height) (hb : b < layout.rowLength) :
    layout.rowTarget z y + b < layout.rowLength * layout.height * layout.depth := by
  have hlast : layout.depth * layout.height * layout.rowLength =
      layout.rowLength * layout.height * layout.depth := by ring
  rw [← hlast]
  exact linear_lt (linear_lt hz hy) hb

/-! ## The last row -/

/-- No row of the data starts after the last one of the last slice, whatever the pitches are. -/
theorem rowStart_le_last (hz : z < layout.depth) (hy : y < layout.height) :
    layout.rowStart z y ≤ layout.rowStart (layout.depth - 1) (layout.height - 1) := by
  unfold rowStart
  apply Nat.add_le_add
  · exact Nat.mul_le_mul_right _ (Nat.le_sub_one_of_lt hz)
  · exact Nat.mul_le_mul_right _ (Nat.le_sub_one_of_lt hy)

/-- No row comes after the last one of the last slice. -/
theorem RowFits.of_last (h : layout.RowFits (layout.depth - 1) (layout.height - 1)) (hz : z < layout.depth)
    (hy : y < layout.height) : layout.RowFits z y := by
  have hstart := rowStart_le_last hz hy
  have hrows : z * layout.height + y ≤ (layout.depth - 1) * layout.height + (layout.height - 1) :=
    Nat.add_le_add (Nat.mul_le_mul_right _ (Nat.le_sub_one_of_lt hz)) (Nat.le_sub_one_of_lt hy)
  exact ⟨h.slice, Nat.lt_of_le_of_lt hstart h.start, Nat.lt_of_le_of_lt hrows h.rows,
    Nat.lt_of_le_of_lt (Nat.mul_le_mul_right _ hrows) h.target⟩

theorem rows_fit_iff (hheight : 0 < layout.height) (hdepth : 0 < layout.depth) :
    (∀ row ∈ layout.rows, layout.RowFits row.1 row.2) ↔ layout.RowFits (layout.depth - 1) (layout.height - 1) :=
  ⟨fun h => h (layout.depth - 1, layout.height - 1) (mem_rows.2 ⟨by omega, by omega⟩),
    fun h _ hmem => h.of_last (mem_rows.1 hmem).1 (mem_rows.1 hmem).2⟩

/-- The rows before the last one, and the last one, are all the rows there are. -/
theorem last_row_succ (hheight : 0 < layout.height) (hdepth : 0 < layout.depth) :
    (layout.depth - 1) * layout.height + (layout.height - 1) + 1 = layout.height * layout.depth := by
  obtain ⟨depth, hdepth⟩ := Nat.exists_eq_succ_of_ne_zero hdepth.ne'
  obtain ⟨height, hheight⟩ := Nat.exists_eq_succ_of_ne_zero hheight.ne'
  rw [hdepth, hheight]
  simp only [Nat.succ_eq_add_one, Nat.add_sub_cancel]
  ring

theorem hostSize_of_empty (h : layout.size = .ok 0) : layout.hostSize = .ok 0 := by
  rw [hostSize, h]
  rfl

theorem pos_of_size (hsize : layout.size = .ok size) (hne : size ≠ 0) :
    0 < layout.rowLength ∧ 0 < layout.height ∧ 0 < layout.depth := by
  obtain ⟨-, -, -, rfl⟩ := size_eq_ok_iff.1 hsize
  simpa [Nat.pos_iff_ne_zero, and_assoc] using hne

/-- The host size is the end of the last row. -/
theorem hostSize_eq_ok_iff (hsize : layout.size = .ok size) (hne : size ≠ 0) : layout.hostSize = .ok required ↔
    (layout.hostSlicePitch = 0 → layout.rowStride * layout.height < Size.limit) ∧
      layout.rowStart (layout.depth - 1) (layout.height - 1) + layout.rowLength < Size.limit ∧
      layout.rowStart (layout.depth - 1) (layout.height - 1) + layout.rowLength = required := by
  obtain ⟨hrow, -, -, -⟩ := size_eq_ok_iff.1 hsize
  obtain ⟨-, hheight, hdepth⟩ := pos_of_size hsize hne
  simp only [hostSize, hsize, bind_eq_ok, Except.ok.injEq, exists_eq_left', if_neg hne, Size.sub_eq_ok_iff,
    slicePitch_eq_ok_iff hrow, rowPitch_eq_ok hrow, rowBytes_eq_ok_iff, Size.mul_eq_ok_iff, Size.add_eq_ok_iff,
    rowStart]
  constructor
  · rintro ⟨_, ⟨-, rfl⟩, _, ⟨hslice, rfl⟩, _, ⟨-, rfl⟩, _, ⟨-, rfl⟩, _, ⟨-, rfl⟩, _, ⟨-, rfl⟩, _, ⟨-, rfl⟩, hend⟩
    exact ⟨hslice, hend⟩
  · rintro ⟨hslice, hend⟩
    exact ⟨_, ⟨hdepth, rfl⟩, _, ⟨hslice, rfl⟩, _, ⟨by omega, rfl⟩, _, ⟨hheight, rfl⟩, _, ⟨by omega, rfl⟩, _,
      ⟨by omega, rfl⟩, _, ⟨hrow, rfl⟩, hend⟩

/-- An image that is not empty is placed as far as its host size is computed. -/
theorem rowFits_of_hostSize (hsize : layout.size = .ok size) (hne : size ≠ 0)
    (hhost : layout.hostSize = .ok required) :
    layout.RowFits (layout.depth - 1) (layout.height - 1) := by
  obtain ⟨-, -, hlt, -⟩ := size_eq_ok_iff.1 hsize
  obtain ⟨hlength, hheight, hdepth⟩ := pos_of_size hsize hne
  obtain ⟨hslice, hend, -⟩ := (hostSize_eq_ok_iff hsize hne).1 hhost
  have hcount := last_row_succ hheight hdepth
  -- The rows of the whole image are no more than its bytes.
  have hrows : layout.height * layout.depth ≤ layout.rowLength * layout.height * layout.depth := by
    rw [Nat.mul_assoc]
    exact Nat.le_mul_of_pos_left _ hlength
  have htarget : layout.rowTarget (layout.depth - 1) (layout.height - 1) ≤
      layout.rowLength * layout.height * layout.depth := by
    rw [rowTarget, Nat.mul_assoc, Nat.mul_comm layout.rowLength]
    exact Nat.mul_le_mul_right _ (by omega)
  exact ⟨hslice, by omega, by omega, by omega⟩

theorem exists_size_of_hostSize (h : layout.hostSize = .ok required) : ∃ size, layout.size = .ok size := by
  obtain ⟨size, hsize, -⟩ := bind_eq_ok.1 h
  exact ⟨size, hsize⟩

/-- Once the host size is computed, all rows are placed unless the image is a runaway. -/
theorem rows_fit_iff_not_runaway (h : layout.hostSize = .ok required) :
    (∀ row ∈ layout.rows, layout.RowFits row.1 row.2) ↔ ¬ layout.Runaway := by
  obtain ⟨size, hsize⟩ := exists_size_of_hostSize h
  constructor
  · intro hfit hrunaway
    exact hrunaway.escapes ((rows_fit_iff hrunaway.height_pos hrunaway.depth_pos).1 hfit)
  · rintro hrunaway ⟨z, y⟩ hmem
    obtain ⟨hz, hy⟩ := mem_rows.1 hmem
    refine RowFits.of_last ?_ hz hy
    by_cases hne : size = 0
    · subst hne
      by_contra hescapes
      exact hrunaway ⟨hsize, by omega, by omega, hescapes⟩
    · exact rowFits_of_hostSize hsize hne h

end ImageLayout

end ComputeCore
