import ComputeCore.Proofs.Memory.ByteMoves
import ComputeCore.Proofs.Memory.Owners
import ComputeCore.Proofs.Memory.Refinement
/-!
# What an image holds once it is mapped

An image with storage of its own and initial data is mapped in three steps: it gets a block of zeros, the rows of
the data go to their places in it (`upload_carried`), and if it was made over a buffer, the first bytes are the
buffer's in the end (`byte?_attach`).
-/

namespace ComputeCore

/-- An image with storage of its own and initial data. -/
structure MemoryObject.Uploads (object : MemoryObject) (layout : ImageLayout) (data : Bytes) : Prop where
  kind : object.kind = .image layout
  sized : layout.size = .ok object.size
  whole : object.parent = none
  flavor : ∀ storage, object.flavor ≠ .hostOwned storage
  initial : object.hostData = some data

namespace GlobalMemory

/-- How many bytes an object takes over from the buffer it was made over. -/
def overlaid (memory : GlobalMemory) (object : MemoryObject) : Nat :=
  match baseOf object with
  | none => 0
  | some buffer => min ((memory.sizeOf? buffer).getD 0) object.size

/-- What mapping an image from its initial data leaves. -/
structure Uploaded (memory : GlobalMemory) (object : MemoryObject) (layout : ImageLayout) (data : Bytes)
    (start : Address) (memory' : GlobalMemory) : Prop where
  placed : memory'.mappings.find? object.id = some { start, size := object.size, storage := .owned }
  pitches : object.size ≠ 0 → layout.rowBytes = .ok layout.rowLength ∧
    layout.rowPitch = .ok layout.rowStride ∧ layout.slicePitch = .ok layout.sliceStride
  rows : ∀ z y b, z < layout.depth → y < layout.height → b < layout.rowLength →
    memory.overlaid object ≤ layout.rowTarget z y + b →
    ∃ byte, data[layout.rowStart z y + b]? = some byte ∧
      memory'.byteAt? object.id (layout.rowTarget z y + b) = some byte
  /-- What an image made over a buffer starts with, as long as the host has the bytes it lent below the buffer. -/
  base : ∀ buffer, layout.buffer = some buffer → memory.isMapped buffer = true ∧
    (memory.HostHolds buffer → ∀ i < memory.overlaid object,
      ∃ byte, memory.byteAt? buffer i = some byte ∧ memory'.byteAt? object.id i = some byte)
  /-- The upload comes to moves of bytes that exist to bytes that exist. -/
  inBounds : ∃ fresh moves uploaded, memory.allocate object.id object.size = .ok (start, fresh) ∧
    layout.moves = .ok moves ∧ moves.foldlM (carry data start object.size) fresh.heap = some uploaded ∧
    upload object start fresh.heap = (.ok (), uploaded) ∧
    memory' = attach { fresh with heap := uploaded } object start
  others : ∀ number, number ≠ start.block → memory'.heap.block number = memory.heap.block number

/-! ## Mapping an image -/

section Image
variable {memory memory' : GlobalMemory} {object : MemoryObject} {layout : ImageLayout} {data : Bytes}
  {start : Address} {uploaded : Heap}

theorem mapOwned_eq_ok (h : memory.mapOwned object = (.ok start, memory')) : checkHostData object = .ok () ∧
    ∃ fresh uploaded, memory.allocate object.id object.size = .ok (start, fresh) ∧
      upload object start fresh.heap = (.ok (), uploaded) ∧
      memory' = attach { fresh with heap := uploaded } object start := by
  unfold mapOwned at h
  cases hdata : checkHostData object with
  | error failure => simp [hdata] at h
  | ok _ =>
    cases hbuffer : memory.checkBuffer object with
    | error error => simp [hdata, hbuffer] at h
    | ok _ =>
      cases hallocate : memory.allocate object.id object.size with
      | error error => simp [hdata, hbuffer, hallocate] at h
      | ok result =>
        obtain ⟨place, fresh⟩ := result
        simp only [hdata, hbuffer, hallocate] at h
        cases hupload : upload object place fresh.heap with
        | mk result uploaded =>
          rw [hupload] at h
          cases result with
          | error fault => simp at h
          | ok _ =>
            obtain ⟨hstart, hmemory⟩ := Prod.mk.inj h
            obtain rfl := Except.ok.inj hstart
            exact ⟨rfl, fresh, uploaded, rfl, hupload, hmemory.symm⟩

theorem map_eq_mapOwned (hnew : memory.mappings.find? object.id = none) (hwhole : object.parent = none)
    (hflavor : ∀ storage, object.flavor ≠ .hostOwned storage) : memory.map object = memory.mapOwned object := by
  unfold map addressOf?
  rw [hnew, hwhole]
  cases hcase : object.flavor with
  | hostOwned storage => exact absurd hcase (hflavor storage)
  | hostAccessible => rfl
  | devicePrivate => rfl

/-- The data is long enough for all that is moved. -/
theorem required_of_checked (huploads : object.Uploads layout data) (hdata : checkHostData object = .ok ()) :
    ∃ required, layout.hostSize = .ok required ∧ required ≤ data.size := by
  obtain ⟨required, hrequired⟩ := hostSize_of_checked hdata huploads.initial huploads.kind
  refine ⟨required, hrequired, ?_⟩
  simp only [checkHostData, huploads.initial, MemoryObject.requiredData, huploads.kind, hrequired] at hdata
  split at hdata
  · assumption
  · simp at hdata

/-- What the upload of an image puts into its new block. -/
theorem upload_carried (huploads : object.Uploads layout data) (hdata : checkHostData object = .ok ())
    {heap : Heap} (hbacks : heap.Backs { start, size := object.size })
    (hupload : upload object start heap = (.ok (), uploaded)) :
    ∃ moves, layout.moves = .ok moves ∧ moves.foldlM (carry data start object.size) heap = some uploaded ∧
      uploaded.Backs { start, size := object.size } ∧
      ∀ z y b, z < layout.depth → y < layout.height → b < layout.rowLength →
        layout.rowStart z y + b < data.size ∧ layout.rowTarget z y + b < object.size ∧
          uploaded.byte? (start.advance (layout.rowTarget z y + b)) = data[layout.rowStart z y + b]? := by
  obtain ⟨required, hrequired, hlong⟩ := required_of_checked huploads hdata
  obtain ⟨hrow, hbytes⟩ := rowBytes_of_hostSize hrequired
  have hnot := (upload_ok_iff hdata start heap).1 (by rw [hupload])
  have hfit := (ImageLayout.rows_fit_iff_not_runaway hrequired).2 fun hrunaway =>
    hnot ⟨data, layout, huploads.initial, huploads.kind, hrunaway⟩
  obtain ⟨moves, hmoves, hlisted, hmem⟩ := ImageLayout.exists_moves hrow hfit
  have hbounds : ∀ z y b, z < layout.depth → y < layout.height → b < layout.rowLength →
      layout.rowStart z y + b < data.size ∧ layout.rowTarget z y + b < object.size :=
    fun z y b hz hy hb => ImageLayout.moves_in_bounds huploads.sized hrequired hlong hz hy hb
  have hmoved : ∀ move ∈ moves, move.source < data.size ∧ move.target < object.size := by
    intro move hmove
    obtain ⟨z, y, b, hz, hy, hb, rfl⟩ := (hmem move).1 hmove
    exact hbounds z y b hz hy hb
  obtain ⟨heap', hcarried, hrows⟩ := uploadRows_carried start heap hlisted hmoved
  obtain rfl : uploaded = heap' := by
    unfold upload at hupload
    simp only [huploads.initial, huploads.kind, hbytes, hrows] at hupload
    exact (Prod.mk.inj hupload).2.symm
  refine ⟨moves, hmoves, hcarried, (byte?_of_carried_apart hcarried hbacks).1, fun z y b hz hy hb => ?_⟩
  obtain ⟨hsource, htarget⟩ := hbounds z y b hz hy hb
  refine ⟨hsource, htarget, ?_⟩
  -- A byte of the device has one place in the image, and with it one byte of the data.
  have hsame : ∀ move ∈ moves, ∀ other ∈ moves, move.target = other.target → move.source = other.source := by
    intro move hmove other hother heq
    obtain ⟨z, y, b, -, hy, hb, rfl⟩ := (hmem move).1 hmove
    obtain ⟨z', y', b', -, hy', hb', rfl⟩ := (hmem other).1 hother
    obtain ⟨rfl, rfl, rfl⟩ := ImageLayout.rowTarget_inj hy hy' hb hb' heq
    rfl
  exact byte?_of_carried hcarried hbacks hsame _ ((hmem _).2 ⟨z, y, b, hz, hy, hb, rfl⟩)

/-- What is taken over from a buffer are the first bytes and no others. -/
theorem byte?_attach (memory : GlobalMemory) (hbacks : memory.heap.Backs { start, size := object.size })
    {i : Nat} (hi : memory.overlaid object ≤ i) :
    (attach memory object start).heap.byte? (start.advance i) = memory.heap.byte? (start.advance i) := by
  unfold attach
  unfold overlaid baseOf sizeOf? at hi
  cases hkind : object.kind with
  | buffer => rfl
  | image layout =>
    obtain ⟨_, _, _, _, _, _, base⟩ := layout
    rw [hkind] at hi
    cases base with
    | none => rfl
    | some buffer =>
      cases hsource : memory.mappings.find? buffer with
      | none => simp only [hsource]
      | some source =>
        simp only [hsource, Option.map_some, Option.getD_some] at hi ⊢
        let taken := memory.heap.read source.start (min source.size object.size)
        have htaken : taken.size ≤ min source.size object.size := by
          simp only [taken, Heap.read, Array.size_extract]
          omega
        have hpart : memory.heap.Backs { start, size := taken.size } := by
          intro address haddress
          obtain ⟨j, hj, rfl⟩ := Region.holds_iff.1 haddress
          apply hbacks
          refine Region.holds_iff.2 ⟨j, ?_, rfl⟩
          simp only at hj ⊢
          omega
        show (memory.heap.write start taken).byte? (start.advance i) = _
        rw [Heap.byte?_write hpart, if_neg]
        rintro ⟨-, -, hto⟩
        simp only [Address.advance] at hto
        omega

/-- A new object that needs storage of its own gets a new block. -/
theorem Outcome.owned_of_ok (houtcome : memory.Outcome object (.ok start) memory')
    (hnew : memory.mappings.find? object.id = none) (hwhole : object.parent = none)
    (hflavor : ∀ storage, object.flavor ≠ .hostOwned storage) : start = ⟨memory.heap.blocks.size, 0⟩ ∧
      (∀ buffer, baseOf object = some buffer → memory.isMapped buffer = true) ∧
      memory'.mappings = memory.mappings.insert object.id { start, size := object.size, storage := .owned } ∧
      ∃ contents, memory.heap.Grown memory'.heap contents ∧ memory.Filled object contents := by
  cases houtcome with
  | known found => simp [hnew] at found
  | inside _ part => simp [hwhole] at part
  | lent _ _ flavor => exact absurd flavor (hflavor _)
  | owned _ _ _ _ buffer grown filled => exact ⟨rfl, buffer, rfl, _, grown, filled⟩

theorem overlaid_withOwned (hnew : memory.mappings.find? object.id = none)
    (hbuffer : ∀ buffer, baseOf object = some buffer → memory.isMapped buffer = true) (heap : Heap) :
    (memory.withOwned object heap).overlaid object = memory.overlaid object := by
  unfold overlaid
  cases hbase : baseOf object with
  | none => rfl
  | some buffer =>
    obtain ⟨source, hsource⟩ := isMapped_iff.1 (hbuffer buffer hbase)
    have hne : buffer ≠ object.id := by
      rintro rfl
      simp [hnew] at hsource
    simp only [sizeOf?, withOwned, Dict.find?_insert_other _ _ hne]

theorem byteAt?_of_find? {id : ObjectId} {mapping : Mapping} (hfound : memory.mappings.find? id = some mapping)
    {i : Nat} (hi : i < mapping.size) : memory.byteAt? id i = memory.heap.byte? (mapping.start.advance i) := by
  unfold GlobalMemory.byteAt?
  rw [hfound]
  exact if_pos hi

/-- What an object made over a buffer holds at first is there in the buffer. -/
theorem Filled.base {contents : Bytes} {buffer : ObjectId} (h : memory.Filled object contents)
    (hcoherent : memory.Coherent) (howners : memory.OwnBlocks) (hbase : baseOf object = some buffer)
    (hbuffer : memory.isMapped buffer = true) (hheld : memory.HostHolds buffer) {i : Nat}
    (hi : i < memory.overlaid object) : ∃ byte, memory.byteAt? buffer i = some byte ∧ contents[i]? = some byte := by
  obtain ⟨source, hsource⟩ := isMapped_iff.1 hbuffer
  unfold overlaid sizeOf? at hi
  simp only [hbase, hsource, Option.map_some, Option.getD_some] at hi
  have hbacks := howners.backs hcoherent hsource hheld
  have hinside : i < source.size := by omega
  obtain ⟨byte, hbyte⟩ := Option.isSome_iff_exists.1 (hbacks _ (Region.holds_iff.2 ⟨i, hinside, rfl⟩))
  refine ⟨byte, ?_, ?_⟩
  · rw [byteAt?_of_find? hsource hinside]
    exact hbyte
  · rw [h.copied buffer source hbase hsource hbacks i hi]
    exact hbyte

theorem uploaded_of_map (hcoherent : memory.Coherent) (howners : memory.OwnBlocks)
    (huploads : object.Uploads layout data) (hnew : memory.mappings.find? object.id = none)
    (hmap : memory.map object = (.ok start, memory')) : memory.Uploaded object layout data start memory' := by
  have houtcome := memory.map_outcome object
  rw [hmap] at houtcome
  obtain ⟨hstart, hbuffer, hmappings, contents, hgrown, hfilled⟩ :=
    houtcome.owned_of_ok hnew huploads.whole huploads.flavor
  rw [map_eq_mapOwned hnew huploads.whole huploads.flavor] at hmap
  obtain ⟨hdata, fresh, uploaded, hallocate, hupload, hmemory⟩ := mapOwned_eq_ok hmap
  obtain ⟨-, -, -, hfresh⟩ := allocate_eq_ok_iff.1 hallocate
  have hbacks : fresh.heap.Backs { start, size := object.size } := by
    apply Heap.Backs.of_le_size
    rw [hfresh, hstart]
    simp only [withOwned, (Heap.grown_adopt memory.heap (.replicate object.size 0)).fresh, Array.size_replicate]
    omega
  obtain ⟨moves, hmoves, hcarried, hbacks', hrows⟩ := upload_carried huploads hdata hbacks hupload
  have hplaced : memory'.mappings.find? object.id = some { start, size := object.size, storage := .owned } := by
    rw [hmappings, Dict.find?_insert_self]
  constructor
  · exact hplaced
  · intro hne
    obtain ⟨required, hrequired, -⟩ := required_of_checked huploads hdata
    obtain ⟨hrow, hbytes⟩ := rowBytes_of_hostSize hrequired
    obtain ⟨hslice, -⟩ := (ImageLayout.hostSize_eq_ok_iff huploads.sized hne).1 hrequired
    exact ⟨hbytes, ImageLayout.rowPitch_eq_ok hrow, (ImageLayout.slicePitch_eq_ok_iff hrow).2 ⟨hslice, rfl⟩⟩
  · intro z y b hz hy hb hover
    obtain ⟨hsource, htarget, hmoved⟩ := hrows z y b hz hy hb
    refine ⟨data[layout.rowStart z y + b], Array.getElem?_eq_getElem hsource, ?_⟩
    have hsame : ({ fresh with heap := uploaded } : GlobalMemory).overlaid object = memory.overlaid object := by
      rw [hfresh]
      exact overlaid_withOwned hnew hbuffer uploaded
    have hkept := byte?_attach { fresh with heap := uploaded } hbacks' (hsame ▸ hover)
    rw [byteAt?_of_find? hplaced htarget, hmemory, hkept]
    exact hmoved.trans (Array.getElem?_eq_getElem hsource)
  · intro buffer hbase
    have hover : baseOf object = some buffer := by
      unfold baseOf
      rw [huploads.kind]
      exact hbase
    refine ⟨hbuffer buffer hover, fun hheld i hi => ?_⟩
    obtain ⟨byte, hold, hnew⟩ := hfilled.base hcoherent howners hover (hbuffer buffer hover) hheld hi
    have hinside : i < object.size := by
      unfold overlaid at hi
      rw [hover] at hi
      exact Nat.lt_of_lt_of_le hi (Nat.min_le_right _ _)
    refine ⟨byte, hold, ?_⟩
    rw [byteAt?_of_find? hplaced hinside, hstart, Heap.byte?, Address.advance, hgrown.fresh, Nat.zero_add]
    exact hnew
  · exact ⟨fresh, moves, uploaded, hallocate, hmoves, hcarried, hupload, hmemory⟩
  · intro number hne
    exact hgrown.others number (by simpa [hstart] using hne)

/-- An image made in the usual way is one, whatever flavor it is given but storage lent by the host. -/
theorem uploads_image {id : ObjectId} {plain : MemoryObject} (himage : MemoryObject.image id layout = .ok plain)
    {flavor : Flavor} (hflavor : ∀ storage, flavor ≠ .hostOwned storage) (data : Bytes) :
    ((plain.withFlavor flavor).withHostData data).Uploads layout data := by
  obtain ⟨size, hsize, hplain⟩ := bind_eq_ok.1 himage
  obtain rfl := Except.ok.inj hplain
  exact ⟨rfl, hsize, rfl, hflavor, rfl⟩

end Image

/-- In every state of every run an image takes over exactly the bytes it should, and its layout demands exactly
the bytes that are read. -/
theorem upload_exact : (∀ capacity ops object layout data start memory',
      MemoryObject.Uploads object layout data → (after capacity ops).isMapped object.id = false →
      (after capacity ops).map object = (.ok start, memory') →
      (after capacity ops).Uploaded object layout data start memory') ∧
    ∀ (layout : ImageLayout) size, layout.size = .ok size → size ≠ 0 → layout.DemandsExactly := by
  constructor
  · intro capacity ops object layout data start memory' huploads hnew hmap
    have hunmapped := isMapped_eq_false_iff.1 hnew
    exact uploaded_of_map (coherent_after capacity ops) (ownBlocks_after capacity ops) huploads hunmapped hmap
  · intro layout size hsize hne
    exact ImageLayout.demandsExactly hsize hne

/-- Two slices of two rows of two bytes, with pitches that make the rows and slices of the data overlap. -/
def overlappingLayout : ImageLayout :=
  { width := 2, height := 2, depth := 2, elementSize := 1, hostRowPitch := 1, hostSlicePitch := 2
    buffer := some ⟨1⟩ }

def overlappingImage : MemoryObject :=
  { id := ⟨2⟩, size := 8, kind := .image overlappingLayout, hostData := some #[1, 2, 3, 4, 5] }

/-- A buffer of three bytes to make the image over. -/
def overlappingRun : List MemoryOp :=
  [.map ((MemoryObject.buffer ⟨1⟩ 3).withHostData #[9, 8, 7])]

theorem upload_exact_overlapping : ∃ start memory',
    (after 64 overlappingRun).map overlappingImage = (.ok start, memory') ∧
    (after 64 overlappingRun).Uploaded overlappingImage overlappingLayout #[1, 2, 3, 4, 5] start memory' ∧
    memory'.read ⟨2⟩ 0 8 = .ok #[9, 8, 7, 3, 3, 4, 4, 5] ∧
    overlappingLayout.DemandsExactly ∧ overlappingLayout.hostSize = .ok 5 := by
  have himage : MemoryObject.image ⟨2⟩ overlappingLayout =
      .ok { MemoryObject.buffer ⟨2⟩ 8 with kind := .image overlappingLayout } := rfl
  have huploads : overlappingImage.Uploads overlappingLayout #[1, 2, 3, 4, 5] :=
    uploads_image himage (by simp : ∀ storage, Flavor.devicePrivate ≠ .hostOwned storage) #[1, 2, 3, 4, 5]
  refine ⟨_, _, rfl, ?_, ?_, ?_, by decide⟩
  · exact upload_exact.1 64 overlappingRun _ _ _ _ _ huploads (by decide +kernel) rfl
  · decide +kernel
  · exact upload_exact.2 _ 8 (by decide) (by decide)

end GlobalMemory

end ComputeCore
