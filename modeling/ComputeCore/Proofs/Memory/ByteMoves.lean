import Mathlib.Order.Bounds.Defs
import ComputeCore.Proofs.Memory.Atomicity
/-!
# The bytes that an upload moves

The upload of an image moves bytes of the host data to bytes of the image's new block. `ImageLayout.moves` lists
them, by the places that are computed for the rows, and `carry` moves one of them if both its ends exist. An
upload whose moves are in bounds comes to carrying all of them, one after the other (`uploadRows_carried`).

No two moves go to one byte of the device from different bytes of the data, whatever the pitches are, so what was
moved is there in the end (`byte?_of_carried`). The last byte of the data that is moved is the one before the host
size (`ImageLayout.demandsExactly`).
-/

namespace ComputeCore

/-- A byte of the host data, and the byte of the device it goes to. -/
structure ByteMove where
  source : Nat
  target : Nat
  deriving DecidableEq

/-- The bytes of one row. -/
def rowMoves (source target row : Nat) : List ByteMove :=
  (List.range row).map fun b => { source := source + b, target := target + b }

namespace ImageLayout

/-- The bytes of the given rows, by the places that are computed for these. -/
def movesOf (layout : ImageLayout) (row : Nat) : List (Nat × Nat) → Except Fault (List ByteMove)
  | [] => .ok []
  | (z, y) :: rest => do
    let source ← layout.hostOffset z y
    let target ← layout.deviceOffset row z y
    let later ← layout.movesOf row rest
    return rowMoves source target row ++ later

/-- All bytes of an upload, in the order they are moved. -/
def moves (layout : ImageLayout) : Except Fault (List ByteMove) := do
  let row ← layout.rowBytes
  layout.movesOf row layout.rows

/-- The host size is one more than the last byte of the data that an upload moves. -/
structure DemandsExactly (layout : ImageLayout) : Prop where
  computed : ∀ required, layout.hostSize = .ok required ↔
    (layout.hostSlicePitch = 0 → layout.rowStride * layout.height < Size.limit) ∧
      layout.rowStart (layout.depth - 1) (layout.height - 1) + layout.rowLength < Size.limit ∧
      layout.rowStart (layout.depth - 1) (layout.height - 1) + layout.rowLength = required
  largest : ∀ required, layout.hostSize = .ok required → ∃ moves last, layout.moves = .ok moves ∧
    IsGreatest { i | ∃ move ∈ moves, move.source = i } last ∧ required = last + 1

end ImageLayout

namespace GlobalMemory

/-- Moves one byte to a block of `size` bytes, unless one of its ends does not exist. -/
def carry (data : Bytes) (start : Address) (size : Nat) (heap : Heap) (move : ByteMove) : Option Heap :=
  match data[move.source]? with
  | none => none
  | some byte => if move.target < size then some (heap.write (start.advance move.target) #[byte]) else none

section Carry
variable {data : Bytes} {start : Address} {size row source target : Nat} {heap heap' : Heap} {moves : List ByteMove}

/-! ## A row byte by byte -/

theorem mem_rowMoves {move : ByteMove} : move ∈ rowMoves source target row ↔
    ∃ b < row, move = { source := source + b, target := target + b } := by
  simp only [rowMoves, List.mem_map, List.mem_range, eq_comm]

theorem rowMoves_succ (source target row : Nat) : rowMoves source target (row + 1) =
    { source, target } :: rowMoves (source + 1) (target + 1) row := by
  simp only [rowMoves, List.range_succ_eq_map, List.map_cons, List.map_map, Nat.add_zero]
  congr 1
  apply List.map_congr_left
  intro b _
  simp only [Function.comp, ByteMove.mk.injEq]
  omega

theorem write_cons (heap : Heap) (start : Address) (byte : UInt8) (bytes : List UInt8) :
    heap.write start (byte :: bytes).toArray = (heap.write start #[byte]).write (start.advance 1) bytes.toArray := by
  obtain ⟨blocks, blockLimit⟩ := heap
  simp only [Heap.write, Address.advance, Heap.mk.injEq, and_true]
  apply Array.ext_getElem?
  intro number
  simp only [Array.getElem?_modify]
  split
  · cases blocks[number]? <;> rfl
  · rfl

theorem extract_succ {byte : UInt8} (h : data[source]? = some byte) (row : Nat) :
    data.extract source (source + (row + 1)) =
      (byte :: (data.extract (source + 1) (source + 1 + row)).toList).toArray := by
  obtain ⟨hlt, -⟩ := Array.getElem?_eq_some_iff.1 h
  apply Array.ext_getElem?
  intro i
  simp only [Array.getElem?_extract, List.getElem?_toArray]
  cases i with
  | zero => rw [if_pos (by omega), Nat.add_zero, h, List.getElem?_cons_zero]
  | succ i =>
    rw [List.getElem?_cons_succ, Array.getElem?_toList, Array.getElem?_extract]
    by_cases hi : i < min (source + 1 + row) data.size - (source + 1)
    · rw [if_pos (by omega), if_pos hi]
      congr 1
      omega
    · rw [if_neg (by omega), if_neg hi]

/-- A row is written at once or byte by byte. By induction on its length. -/
theorem rowMoves_carried (start : Address) (heap : Heap)
    (h : ∀ b < row, source + b < data.size ∧ target + b < size) :
    (rowMoves source target row).foldlM (carry data start size) heap =
      some (heap.write (start.advance target) (data.extract source (source + row))) := by
  induction row generalizing heap source target with
  | zero =>
    rw [Nat.add_zero, Array.extract_empty_of_stop_le_start (Nat.le_refl _), Heap.write_empty]
    rfl
  | succ row ih =>
    obtain ⟨hsource, htarget⟩ := h 0 (Nat.succ_pos _)
    have hbyte : data[source]? = some data[source] := Array.getElem?_eq_getElem hsource
    let first := heap.write (start.advance target) #[data[source]]
    have hfirst : carry data start size heap { source, target } = some first := by
      unfold carry
      rw [hbyte]
      exact if_pos htarget
    have hrest : (rowMoves (source + 1) (target + 1) row).foldlM (carry data start size) first = some
        (first.write (start.advance (target + 1)) (data.extract (source + 1) (source + 1 + row))) := by
      apply ih
      intro b hb
      have hnext := h (b + 1) (Nat.succ_lt_succ hb)
      omega
    have hwrite := write_cons heap (start.advance target) data[source]
      (data.extract (source + 1) (source + 1 + row)).toList
    rw [Address.advance_advance] at hwrite
    rw [rowMoves_succ, List.foldlM_cons, hfirst, extract_succ hbyte, hwrite]
    exact hrest

/-- An upload of rows that are in bounds is all of its moves. By induction on the rows. -/
theorem uploadRows_carried {layout : ImageLayout} {rows : List (Nat × Nat)} (start : Address) (heap : Heap)
    (hmoves : layout.movesOf row rows = .ok moves)
    (hbounds : ∀ move ∈ moves, move.source < data.size ∧ move.target < size) :
    ∃ heap', moves.foldlM (carry data start size) heap = some heap' ∧
      uploadRows layout data start row rows heap = (.ok (), heap') := by
  induction rows generalizing heap moves with
  | nil =>
    obtain rfl := Except.ok.inj hmoves
    exact ⟨heap, rfl, rfl⟩
  | cons place rest ih =>
    obtain ⟨z, y⟩ := place
    obtain ⟨source, hsource, hmoves⟩ := bind_eq_ok.1 hmoves
    obtain ⟨target, htarget, hmoves⟩ := bind_eq_ok.1 hmoves
    obtain ⟨later, hlater, hmoves⟩ := bind_eq_ok.1 hmoves
    obtain rfl := Except.ok.inj hmoves
    have hrow : ∀ b < row, source + b < data.size ∧ target + b < size := by
      intro b hb
      exact hbounds _ (List.mem_append_left _ (mem_rowMoves.2 ⟨b, hb, rfl⟩))
    obtain ⟨heap', hcarried, hupload⟩ :=
      ih (heap.write (start.advance target) (data.extract source (source + row))) hlater
        fun move hmove => hbounds move (List.mem_append_right _ hmove)
    refine ⟨heap', ?_, ?_⟩
    · rw [List.foldlM_append, rowMoves_carried start heap hrow]
      exact hcarried
    · unfold uploadRows
      rw [hsource, htarget]
      exact hupload

/-! ## What the moves leave -/

theorem byte?_write_one (hbacks : heap.Backs { start, size }) (htarget : target < size) (byte : UInt8)
    (address : Address) : (heap.write (start.advance target) #[byte]).byte? address =
      if address = start.advance target then some byte else heap.byte? address := by
  rw [Heap.byte?_write (hbacks.advance htarget)]
  by_cases heq : address = start.advance target
  · subst heq
    rw [if_pos ⟨rfl, Nat.le_refl _, Nat.lt_succ_self _⟩, if_pos rfl, Nat.sub_self]
    rfl
  · rw [if_neg heq, if_neg]
    rintro ⟨hblock, hfrom, hto⟩
    apply heq
    obtain ⟨block, offset⟩ := address
    simp only [Address.advance, Array.size_singleton, Address.mk.injEq] at hblock hfrom hto ⊢
    omega

theorem carry_eq_some {move : ByteMove} (h : carry data start size heap move = some heap')
    (hbacks : heap.Backs { start, size }) : heap'.Backs { start, size } ∧
      ∀ address, heap'.byte? address =
        if address = start.advance move.target then data[move.source]? else heap.byte? address := by
  unfold carry at h
  cases hbyte : data[move.source]? with
  | none => simp [hbyte] at h
  | some byte =>
    simp only [hbyte] at h
    split at h
    · next htarget =>
      obtain rfl := Option.some.inj h
      have hone := byte?_write_one hbacks htarget byte
      refine ⟨?_, hone⟩
      intro address haddress
      rw [hone]
      split
      · rfl
      · exact hbacks address haddress
    · cases h

/-- A byte that no move goes to stays as it is, and no byte gets lost. By induction on the moves. -/
theorem byte?_of_carried_apart (hcarried : moves.foldlM (carry data start size) heap = some heap')
    (hbacks : heap.Backs { start, size }) : heap'.Backs { start, size } ∧
      ∀ address, (∀ move ∈ moves, address ≠ start.advance move.target) →
        heap'.byte? address = heap.byte? address := by
  induction moves generalizing heap with
  | nil =>
    obtain rfl := Option.some.inj hcarried
    exact ⟨hbacks, fun _ _ => rfl⟩
  | cons move moves ih =>
    rw [List.foldlM_cons] at hcarried
    obtain ⟨next, hfirst, hrest⟩ := Option.bind_eq_some_iff.1 hcarried
    obtain ⟨hnext, hbytes⟩ := carry_eq_some hfirst hbacks
    obtain ⟨hafter, hapart⟩ := ih hrest hnext
    refine ⟨hafter, fun address hout => ?_⟩
    rw [hapart address fun other hother => hout other (List.mem_cons_of_mem _ hother), hbytes,
      if_neg (hout move List.mem_cons_self)]

/-- If all moves to one byte come from one byte, that is what is there in the end. By induction on the moves:
either a later one goes to the same byte, or none does. -/
theorem byte?_of_carried (hcarried : moves.foldlM (carry data start size) heap = some heap')
    (hbacks : heap.Backs { start, size })
    (hsame : ∀ move ∈ moves, ∀ other ∈ moves, move.target = other.target → move.source = other.source) :
    ∀ move ∈ moves, heap'.byte? (start.advance move.target) = data[move.source]? := by
  induction moves generalizing heap with
  | nil => simp
  | cons first moves ih =>
    rw [List.foldlM_cons] at hcarried
    obtain ⟨next, hfirst, hrest⟩ := Option.bind_eq_some_iff.1 hcarried
    obtain ⟨hnext, hbytes⟩ := carry_eq_some hfirst hbacks
    have hlater := ih hrest hnext fun move hmove other hother =>
      hsame move (List.mem_cons_of_mem _ hmove) other (List.mem_cons_of_mem _ hother)
    intro move hmove
    rcases List.mem_cons.1 hmove with rfl | hmove
    · by_cases hagain : ∃ other ∈ moves, move.target = other.target
      · obtain ⟨other, hother, htarget⟩ := hagain
        rw [htarget, hlater other hother, hsame move hmove other (List.mem_cons_of_mem _ hother) htarget]
      · have hapart : ∀ other ∈ moves, start.advance move.target ≠ start.advance other.target := by
          intro other hother heq
          apply hagain
          exact ⟨other, hother, by simpa [Address.advance] using heq⟩
        rw [(byte?_of_carried_apart hrest hnext).2 _ hapart, hbytes, if_pos rfl]
    · exact hlater move hmove

end Carry

end GlobalMemory

/-! ## Which bytes are moved -/

namespace ImageLayout
variable {layout : ImageLayout} {size required z y b : Nat}

/-- The moves of rows that are all placed. By induction on the rows. -/
theorem movesOf_eq_ok (hrow : layout.rowLength < Size.limit) {rows : List (Nat × Nat)}
    (hfit : ∀ row ∈ rows, layout.RowFits row.1 row.2) :
    ∃ moves, layout.movesOf layout.rowLength rows = .ok moves ∧ ∀ move, move ∈ moves ↔
      ∃ z y, (z, y) ∈ rows ∧ move ∈ rowMoves (layout.rowStart z y) (layout.rowTarget z y) layout.rowLength := by
  induction rows with
  | nil => exact ⟨[], rfl, by simp⟩
  | cons row rest ih =>
    obtain ⟨z, y⟩ := row
    have hfirst := hfit (z, y) List.mem_cons_self
    have hsource := (hostOffset_eq_ok_iff hrow).2 ⟨hfirst.slice, hfirst.start, rfl⟩
    have htarget := deviceOffset_eq_ok_iff.2 ⟨hfirst.rows, hfirst.target, rfl⟩
    obtain ⟨later, hlater, hmem⟩ := ih fun row hmem => hfit row (List.mem_cons_of_mem _ hmem)
    refine ⟨rowMoves (layout.rowStart z y) (layout.rowTarget z y) layout.rowLength ++ later, ?_, fun move => ?_⟩
    · unfold movesOf
      rw [hsource, htarget, hlater]
      rfl
    · rw [List.mem_append, hmem]
      constructor
      · rintro (hmove | ⟨z', y', hplace, hmove⟩)
        · exact ⟨z, y, List.mem_cons_self, hmove⟩
        · exact ⟨z', y', List.mem_cons_of_mem _ hplace, hmove⟩
      · rintro ⟨z', y', hplace, hmove⟩
        rcases List.mem_cons.1 hplace with heq | hplace
        · obtain ⟨rfl, rfl⟩ := Prod.mk.inj heq
          exact .inl hmove
        · exact .inr ⟨z', y', hplace, hmove⟩

/-- The moves of an image whose rows are all placed. -/
theorem exists_moves (hrow : layout.rowLength < Size.limit) (hfit : ∀ row ∈ layout.rows, layout.RowFits row.1 row.2) :
    ∃ moves, layout.moves = .ok moves ∧ layout.movesOf layout.rowLength layout.rows = .ok moves ∧
      ∀ move, move ∈ moves ↔ ∃ z y b, z < layout.depth ∧ y < layout.height ∧ b < layout.rowLength ∧
        move = { source := layout.rowStart z y + b, target := layout.rowTarget z y + b } := by
  obtain ⟨moves, hmoves, hmem⟩ := movesOf_eq_ok hrow hfit
  refine ⟨moves, ?_, hmoves, fun move => ?_⟩
  · unfold ImageLayout.moves
    rw [rowBytes_eq_ok_iff.2 ⟨hrow, rfl⟩]
    exact hmoves
  · simp only [hmem, mem_rows, GlobalMemory.mem_rowMoves]
    constructor
    · rintro ⟨z, y, ⟨hz, hy⟩, b, hb, hmove⟩
      exact ⟨z, y, b, hz, hy, hb, hmove⟩
    · rintro ⟨z, y, b, hz, hy, hb, hmove⟩
      exact ⟨z, y, ⟨hz, hy⟩, b, hb, hmove⟩

/-- Data as long as the host size has all the bytes that are moved, and the image has room for them. -/
theorem moves_in_bounds {data : Bytes} (hsize : layout.size = .ok size) (hrequired : layout.hostSize = .ok required)
    (hdata : required ≤ data.size) (hz : z < layout.depth) (hy : y < layout.height) (hb : b < layout.rowLength) :
    layout.rowStart z y + b < data.size ∧ layout.rowTarget z y + b < size := by
  obtain ⟨-, -, -, htotal⟩ := size_eq_ok_iff.1 hsize
  have htarget := rowTarget_lt hz hy hb
  rw [htotal] at htarget
  obtain ⟨-, -, hend⟩ := (hostSize_eq_ok_iff hsize (Nat.ne_zero_of_lt htarget)).1 hrequired
  have hle := rowStart_le_last hz hy
  exact ⟨by omega, htarget⟩

theorem demandsExactly (hsize : layout.size = .ok size) (hne : size ≠ 0) : layout.DemandsExactly := by
  refine ⟨fun required => hostSize_eq_ok_iff hsize hne, fun required hrequired => ?_⟩
  obtain ⟨hrow, -, -, -⟩ := size_eq_ok_iff.1 hsize
  obtain ⟨hlength, hheight, hdepth⟩ := pos_of_size hsize hne
  obtain ⟨-, -, hend⟩ := (hostSize_eq_ok_iff hsize hne).1 hrequired
  have hfit := (rows_fit_iff hheight hdepth).2 (rowFits_of_hostSize hsize hne hrequired)
  obtain ⟨moves, hmoves, -, hmem⟩ := exists_moves hrow hfit
  refine ⟨moves, layout.rowStart (layout.depth - 1) (layout.height - 1) + (layout.rowLength - 1), hmoves, ⟨?_, ?_⟩,
    by omega⟩
  · refine ⟨_, (hmem _).2 ⟨layout.depth - 1, layout.height - 1, layout.rowLength - 1, ?_, ?_, ?_, rfl⟩, rfl⟩
    · omega
    · omega
    · omega
  · rintro i ⟨move, hmove, rfl⟩
    obtain ⟨z, y, b, hz, hy, hb, rfl⟩ := (hmem move).1 hmove
    have hle := rowStart_le_last hz hy
    simp only
    omega

end ImageLayout

end ComputeCore
