import ComputeCore.Proofs.Memory.Calls
import ComputeCore.Proofs.Memory.Layout
/-!
# Failed mappings

A mapping that fails leaves memory as it was, unless it fails after the object has got its block, in the
upload of its initial data. The check of the initial data comes before and lets through only objects whose
rows are all placed, and the empty images that are not (`upload_ok_iff`). An object `Strands` if it is one
of these and nothing else stands in its way: mapping it fails and leaves it mapped, onto a new block of
zeros (`map_of_strands`). All other failures change nothing (`failed_map_unchanged_iff`).
-/

namespace ComputeCore

/-- Initial data for an empty image with rows that have no place. -/
def MemoryObject.Runaway (object : MemoryObject) : Prop :=
  ∃ data layout, object.hostData = some data ∧ object.kind = .image layout ∧ layout.Runaway

theorem Heap.write_empty (heap : Heap) (start : Address) : heap.write start #[] = heap := by
  obtain ⟨blocks, blockLimit⟩ := heap
  simp only [write, overwrite, Heap.mk.injEq, and_true]
  apply Array.ext_getElem?
  intro number
  simp [Array.getElem?_modify]

namespace GlobalMemory

/-- Mapping the object would fail with the object mapped. -/
structure Strands (memory : GlobalMemory) (object : MemoryObject) : Prop where
  new : memory.mappings.find? object.id = none
  whole : object.parent = none
  flavor : ∀ storage, object.flavor ≠ .hostOwned storage
  buffer : ∀ buffer, baseOf object = some buffer → memory.isMapped buffer = true
  room : object.size ≤ memory.available
  block : object.size ≤ memory.heap.blockLimit
  runaway : object.Runaway

variable {memory memory' : GlobalMemory} {object : MemoryObject} {layout : ImageLayout}

/-! ## Uploads -/

/-- An upload goes through exactly if all its rows are placed. By induction on the rows. -/
theorem uploadRows_ok_iff (hrow : layout.rowLength < Size.limit) (data : Bytes) (start : Address)
    (rows : List (Nat × Nat)) (heap : Heap) :
    (uploadRows layout data start layout.rowLength rows heap).1 = .ok () ↔
      ∀ row ∈ rows, layout.RowFits row.1 row.2 := by
  induction rows generalizing heap with
  | nil => simp [uploadRows]
  | cons place rest ih =>
    obtain ⟨z, y⟩ := place
    rw [List.forall_mem_cons, ImageLayout.rowFits_iff hrow]
    unfold uploadRows
    cases hsource : layout.hostOffset z y with
    | error fault => simp
    | ok source =>
      cases htarget : layout.deviceOffset layout.rowLength z y with
      | error fault => simp
      | ok target => simp [ih]

/-- Rows without bytes write nothing, however far the upload gets. By induction on the rows. -/
theorem uploadRows_empty (data : Bytes) (start : Address) (rows : List (Nat × Nat)) (heap : Heap) :
    (uploadRows layout data start 0 rows heap).2 = heap := by
  induction rows with
  | nil => rfl
  | cons place rest ih =>
    obtain ⟨z, y⟩ := place
    unfold uploadRows
    split
    · rfl
    · split
      · rfl
      · rw [Nat.add_zero, Array.extract_empty_of_stop_le_start (Nat.le_refl _), Heap.write_empty, ih]

theorem hostSize_of_checked {data : Bytes} (hdata : checkHostData object = .ok ())
    (hhost : object.hostData = some data) (hkind : object.kind = .image layout) :
    ∃ required, layout.hostSize = .ok required := by
  cases hrequired : layout.hostSize with
  | error fault => simp [checkHostData, hhost, MemoryObject.requiredData, hkind, hrequired] at hdata
  | ok required => exact ⟨required, rfl⟩

theorem rowBytes_of_hostSize {required : Nat} (h : layout.hostSize = .ok required) :
    layout.rowLength < Size.limit ∧ layout.rowBytes = .ok layout.rowLength := by
  obtain ⟨size, hsize⟩ := ImageLayout.exists_size_of_hostSize h
  have hrow := (ImageLayout.size_eq_ok_iff.1 hsize).1
  exact ⟨hrow, ImageLayout.rowBytes_eq_ok_iff.2 ⟨hrow, rfl⟩⟩

/-- The check of the initial data lets one kind of object through whose upload breaks down. -/
theorem upload_ok_iff (hdata : checkHostData object = .ok ()) (start : Address) (heap : Heap) :
    (upload object start heap).1 = .ok () ↔ ¬ object.Runaway := by
  unfold upload MemoryObject.Runaway
  cases hhost : object.hostData with
  | none => simp
  | some data =>
    cases hkind : object.kind with
    | buffer => simp
    | image layout =>
      obtain ⟨required, hrequired⟩ := hostSize_of_checked hdata hhost hkind
      obtain ⟨hrow, hbytes⟩ := rowBytes_of_hostSize hrequired
      simp only [hbytes, uploadRows_ok_iff hrow, ImageLayout.rows_fit_iff_not_runaway hrequired]
      simp

/-- The upload of a runaway image breaks down before it has written a byte. -/
theorem upload_of_runaway (h : object.Runaway) (start : Address) (heap : Heap) :
    checkHostData object = .ok () ∧ ∃ fault, upload object start heap = (.error fault, heap) := by
  obtain ⟨data, layout, hhost, hkind, hrunaway⟩ := h
  have hrequired := ImageLayout.hostSize_of_empty hrunaway.empty
  have hdata : checkHostData object = .ok () := by
    simp [checkHostData, hhost, MemoryObject.requiredData, hkind, hrequired]
  refine ⟨hdata, ?_⟩
  have hfails := mt (upload_ok_iff hdata start heap).1 (not_not_intro ⟨data, layout, hhost, hkind, hrunaway⟩)
  have hzero : layout.rowLength = 0 := by
    obtain ⟨-, -, -, hproduct⟩ := ImageLayout.size_eq_ok_iff.1 hrunaway.empty
    simpa [hrunaway.height_pos.ne', hrunaway.depth_pos.ne'] using hproduct
  have hheap : (upload object start heap).2 = heap := by
    simp only [upload, hhost, hkind, (rowBytes_of_hostSize hrequired).2, hzero]
    exact uploadRows_empty ..
  cases hresult : upload object start heap with
  | mk result heap' =>
    rw [hresult] at hfails hheap
    cases result with
    | error fault => exact ⟨fault, by rw [← hheap]⟩
    | ok _ => exact absurd rfl hfails

/-! ## Mapping -/

/-- A mapping with storage of its own that fails changes nothing, or all its checks were passed. -/
theorem mapOwned_failed {failure : MemoryFailure} (h : memory.mapOwned object = (.error failure, memory')) :
    memory' = memory ∨ (∀ buffer, baseOf object = some buffer → memory.isMapped buffer = true) ∧
      object.size ≤ memory.available ∧ object.size ≤ memory.heap.blockLimit ∧ object.Runaway := by
  unfold mapOwned at h
  cases hdata : checkHostData object with
  | error failure => simp_all
  | ok _ =>
    cases hbuffer : memory.checkBuffer object with
    | error error => simp_all
    | ok _ =>
      cases hallocate : memory.allocate object.id object.size with
      | error error => simp_all
      | ok result =>
        obtain ⟨start, owned⟩ := result
        obtain ⟨hroom, hblock, -, -⟩ := allocate_eq_ok_iff.1 hallocate
        simp only [hdata, hbuffer, hallocate] at h
        by_cases hrunaway : object.Runaway
        · exact .inr ⟨checkBuffer_eq_ok_iff.1 hbuffer, hroom, hblock, hrunaway⟩
        · have hupload := (upload_ok_iff hdata start owned.heap).2 hrunaway
          cases hresult : upload object start owned.heap with
          | mk result heap =>
            obtain rfl : result = .ok () := by simpa [hresult] using hupload
            simp [hresult] at h

theorem map_failed {failure : MemoryFailure} (h : memory.map object = (.error failure, memory')) :
    memory' = memory ∨ memory.Strands object := by
  unfold map addressOf? at h
  cases hnew : memory.mappings.find? object.id with
  | some mapping => simp [hnew] at h
  | none =>
    cases hparent : object.parent with
    | some region =>
      cases hinside : memory.mapInside object region with
      | error error => simp_all
      | ok result => simp [hnew, hparent, hinside] at h
    | none =>
      have howned : (∀ storage, object.flavor ≠ .hostOwned storage) →
          memory.mapOwned object = (.error failure, memory') → memory' = memory ∨ memory.Strands object := by
        intro hflavor hfailed
        obtain hsame | ⟨hbuffer, hroom, hblock, hrunaway⟩ := mapOwned_failed hfailed
        · exact .inl hsame
        · exact .inr ⟨hnew, hparent, hflavor, hbuffer, hroom, hblock, hrunaway⟩
      cases hflavor : object.flavor with
      | hostOwned storage => simp [hnew, hparent, hflavor] at h
      | hostAccessible => exact howned (by simp [hflavor]) (by simpa [hnew, hparent, hflavor] using h)
      | devicePrivate => exact howned (by simp [hflavor]) (by simpa [hnew, hparent, hflavor] using h)

/-- A stranded object keeps a block of zeros, and its size stays charged. -/
theorem map_of_strands (h : memory.Strands object) : ∃ fault, memory.map object = (.error (.fault fault),
    memory.withOwned object (memory.heap.adopt (.replicate object.size 0)).2) := by
  have hallocate := allocate_eq_ok_iff.2 ⟨h.room, h.block, rfl, rfl⟩
  obtain ⟨hdata, fault, hupload⟩ := upload_of_runaway h.runaway ⟨memory.heap.blocks.size, 0⟩
    (memory.heap.adopt (.replicate object.size 0)).2
  have howned : memory.mapOwned object = (.error (.fault fault),
      memory.withOwned object (memory.heap.adopt (.replicate object.size 0)).2) := by
    simp only [mapOwned, hdata, checkBuffer_eq_ok_iff.2 h.buffer, hallocate]
    rw [show (memory.withOwned object (memory.heap.adopt (.replicate object.size 0)).2).heap =
      (memory.heap.adopt (.replicate object.size 0)).2 from rfl, hupload]
    rfl
  refine ⟨fault, ?_⟩
  unfold map addressOf?
  rw [h.new, h.whole]
  cases hflavor : object.flavor with
  | hostOwned storage => exact absurd hflavor (h.flavor storage)
  | hostAccessible => exact howned
  | devicePrivate => exact howned

theorem alloc_failed {error : MemoryError} (h : memory.alloc object = (.error error, memory')) :
    memory' = memory := by
  unfold alloc at h
  split at h
  · simp at h
  · split at h
    · exact (Prod.mk.inj h).2.symm
    · simp at h

/-- A failed mapping leaves all of memory as it was, unless the object strands: then it fails with a fault,
and leaves the object mapped onto a block of zeros. A failed allocation changes nothing. -/
theorem failed_map_unchanged_iff (memory : GlobalMemory) (object : MemoryObject) :
    (∀ failure memory', memory.map object = (.error failure, memory') →
      (memory' = memory ↔ ¬ memory.Strands object)) ∧
    (memory.Strands object → ∃ fault, memory.map object = (.error (.fault fault),
      memory.withOwned object (memory.heap.adopt (.replicate object.size 0)).2)) ∧
    ∀ error memory', memory.alloc object = (.error error, memory') → memory' = memory := by
  refine ⟨fun failure memory' hfailed => ⟨?_, ?_⟩, map_of_strands, fun _ _ => alloc_failed⟩
  · rintro rfl hstrands
    obtain ⟨fault, hmap⟩ := map_of_strands hstrands
    have hmapped : memory'.mappings.find? object.id ≠ none := by
      rw [(Prod.mk.inj (hfailed.symm.trans hmap)).2]
      simp [withOwned, Dict.find?_insert_self]
    exact hmapped hstrands.new
  · exact fun hstrands => (map_failed hfailed).resolve_right hstrands

/-- Three rows of no elements, with a row pitch that takes the last one out of the range of sizes. -/
def runawayLayout : ImageLayout :=
  { width := 0, height := 3, depth := 1, elementSize := 4, hostRowPitch := 0x8000000000000000 }

/-- An image without bytes, with initial data to go with it. -/
def runawayImage : MemoryObject :=
  { id := ⟨0⟩, size := 0, kind := .image runawayLayout, hostData := some #[] }

theorem strands_runawayImage : (ofCapacity 64).Strands runawayImage where
  new := rfl
  whole := rfl
  flavor := by simp [runawayImage]
  buffer := by simp [runawayImage, runawayLayout, baseOf]
  room := Nat.zero_le _
  block := Nat.zero_le _
  runaway := ⟨#[], runawayLayout, rfl, rfl, by decide, by decide, by decide, by decide⟩

theorem failed_map_unchanged_runawayImage :
    MemoryObject.image ⟨0⟩ runawayLayout = .ok { runawayImage with hostData := none } ∧
    ∃ fault, (ofCapacity 64).map runawayImage =
      (.error (.fault fault), (ofCapacity 64).withOwned runawayImage { blocks := #[#[]] }) :=
  ⟨rfl, (failed_map_unchanged_iff (ofCapacity 64) runawayImage).2.1 strands_runawayImage⟩

/-- The image is mapped though mapping it failed. -/
theorem failed_map_keeps_image : ¬ ∀ (capacity : Nat) (ops : List MemoryOp) (object : MemoryObject)
    (failure : MemoryFailure) (memory' : GlobalMemory),
    (after capacity ops).map object = (.error failure, memory') → memory' = after capacity ops := by
  intro hall
  obtain ⟨fault, hmap⟩ := map_of_strands strands_runawayImage
  have hsame := hall 64 [] runawayImage _ _ hmap
  have hmapped := congrArg (fun memory => memory.isMapped runawayImage.id) hsame
  exact absurd hmapped (by decide)

end GlobalMemory

end ComputeCore
