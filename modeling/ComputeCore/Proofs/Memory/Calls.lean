import ComputeCore.Memory.Global
import ComputeCore.Proofs.Memory.Heap
/-!
# Calls of global memory

A run of global memory is a list of calls, with any objects and any ids. The host lending storage is one
of them, so that there is something to map host-owned objects over. So is the host running short of memory, or
coming by more of it: what blocks it provides can change between any two calls.

`map_outcome` is the inversion of `map`: every way a mapping can end, with the memory it leaves. `alloc`
is `map` for a plain buffer of the same id and size, so it needs no inversion of its own.
-/

namespace ComputeCore

/-- A call of global memory. -/
inductive MemoryOp where
  /-- The host lends storage that holds these bytes. -/
  | lend (contents : Bytes)
  /-- From now on the host provides blocks up to this limit. -/
  | provide (blockLimit : Fin Size.limit)
  | map (object : MemoryObject)
  | alloc (object : MemoryObject)
  | free (object : ObjectId)
  | read (object : ObjectId) (offset length : Nat)
  | write (object : ObjectId) (offset : Nat) (bytes : Bytes)
  | copy (source : ObjectId) (sourceOffset : Nat) (target : ObjectId) (targetOffset length : Nat)
  | fill (object : ObjectId) (offset : Nat) (pattern : Bytes) (length : Nat)
  deriving DecidableEq

inductive MemoryAnswer where
  | address (start : Address)
  | bytes (bytes : Bytes)
  | done
  | failure (failure : MemoryFailure)
  deriving DecidableEq

namespace GlobalMemory

/-! ## Runs -/

def answerOf : Except MemoryFailure Address → MemoryAnswer
  | .ok start => .address start
  | .error failure => .failure failure

def readAnswer : Except MemoryError Bytes → MemoryAnswer
  | .ok bytes => .bytes bytes
  | .error error => .failure (.refused error)

/-- A transfer changes memory only if it succeeds. -/
def commit (memory : GlobalMemory) : Except MemoryError GlobalMemory → MemoryAnswer × GlobalMemory
  | .ok memory => (.done, memory)
  | .error error => (.failure (.refused error), memory)

def perform (memory : GlobalMemory) : MemoryOp → MemoryAnswer × GlobalMemory
  | .lend contents => (.address (memory.lend contents).1, (memory.lend contents).2)
  | .provide blockLimit => (.done, { memory with heap := { memory.heap with blockLimit } })
  | .map object => (answerOf (memory.map object).1, (memory.map object).2)
  | .alloc object =>
    match memory.alloc object with
    | (.ok start, memory) => (.address start, memory)
    | (.error error, memory) => (.failure (.refused error), memory)
  | .free object => (.done, memory.free object)
  | .read object offset length => (readAnswer (memory.read object offset length), memory)
  | .write object offset bytes => memory.commit (memory.write object offset bytes)
  | .copy source sourceOffset target targetOffset length =>
    memory.commit (memory.copy source sourceOffset target targetOffset length)
  | .fill object offset pattern length => memory.commit (memory.fill object offset pattern length)

/-- Fresh memory of this capacity after a run. -/
def after (capacity : Nat) (ops : List MemoryOp) : GlobalMemory :=
  ops.foldl (fun memory op => (memory.perform op).2) (ofCapacity capacity)

/-- What the next call after a run is answered with. -/
def answer (capacity : Nat) (ops : List MemoryOp) (op : MemoryOp) : MemoryAnswer :=
  ((after capacity ops).perform op).1

theorem after_concat (capacity : Nat) (ops : List MemoryOp) (op : MemoryOp) :
    after capacity (ops ++ [op]) = ((after capacity ops).perform op).2 := by
  simp [after]

/-! ## How a mapping ends -/

/-- The buffer an object was made over. -/
def baseOf (object : MemoryObject) : Option ObjectId :=
  match object.kind with
  | .image layout => layout.buffer
  | .buffer => none

/-- What a mapped object with storage of its own holds at first. -/
structure Filled (memory : GlobalMemory) (object : MemoryObject) (contents : Bytes) : Prop where
  size : contents.size = object.size
  plain : object.kind = .buffer →
    contents = (object.hostData.map (·.extract 0 object.size)).getD (Bytes.zeros object.size)
  copied : ∀ buffer source, baseOf object = some buffer → memory.mappings.find? buffer = some source →
    memory.heap.Backs { start := source.start, size := source.size } → ∀ i < min source.size object.size,
      contents[i]? = memory.heap.byte? (source.start.advance i)

/-- Memory with an object mapped onto a block of its own, the next one of the heap. -/
def withOwned (memory : GlobalMemory) (object : MemoryObject) (heap : Heap) : GlobalMemory :=
  { memory with
    heap
    available := memory.available - object.size
    mappings := memory.mappings.insert object.id
      { start := ⟨memory.heap.blocks.size, 0⟩, size := object.size, storage := .owned } }

/-- The attachments once the object is recorded over the buffer it was made over. -/
def attached (memory : GlobalMemory) (object : MemoryObject) : Dict ObjectId (List ObjectId) :=
  match baseOf object with
  | some buffer => memory.attachments.insert buffer (memory.attachedImages buffer ++ [object.id])
  | none => memory.attachments

/-- All ways of mapping an object. -/
inductive Outcome (memory : GlobalMemory) (object : MemoryObject) :
    Except MemoryFailure Address → GlobalMemory → Prop
  /-- It is mapped already. -/
  | known {mapping} (found : memory.mappings.find? object.id = some mapping) :
      Outcome memory object (.ok mapping.start) memory
  | orphan {region} (new : memory.mappings.find? object.id = none) (part : object.parent = some region)
      (missing : memory.mappings.find? region.parent = none) :
      Outcome memory object (.error (.refused (.parentNotMapped object.id region.parent))) memory
  | misfit {region parent} (new : memory.mappings.find? object.id = none) (part : object.parent = some region)
      (found : memory.mappings.find? region.parent = some parent)
      (exceeds : ¬ (region.offset + object.size < Size.limit ∧ region.offset + object.size ≤ parent.size)) :
      Outcome memory object
        (.error (.refused (.invalidSubRegion region.offset object.size parent.size))) memory
  | inside {region parent} (new : memory.mappings.find? object.id = none) (part : object.parent = some region)
      (found : memory.mappings.find? region.parent = some parent)
      (fits : region.offset + object.size < Size.limit ∧ region.offset + object.size ≤ parent.size) :
      Outcome memory object (.ok (parent.start.advance region.offset))
        { memory with
          mappings := memory.mappings.insert object.id
            { start := parent.start.advance region.offset, size := object.size
              storage := .inside region.parent }
          subObjects := memory.subObjects.insert region.parent
            (memory.subObjects.findD region.parent [] ++ [object.id]) }
  | lent {storage} (new : memory.mappings.find? object.id = none) (whole : object.parent = none)
      (flavor : object.flavor = .hostOwned storage) :
      Outcome memory object (.ok storage)
        { memory with
          mappings := memory.mappings.insert object.id
            { start := storage, size := object.size, storage := .lent } }
  | rejected {failure} (new : memory.mappings.find? object.id = none) (whole : object.parent = none)
      (flavor : ∀ storage, object.flavor ≠ .hostOwned storage) :
      Outcome memory object (.error failure) memory
  /-- The upload of the initial data breaks down, with the object mapped. -/
  | broken {fault heap contents} (new : memory.mappings.find? object.id = none) (whole : object.parent = none)
      (flavor : ∀ storage, object.flavor ≠ .hostOwned storage) (room : object.size ≤ memory.available)
      (grown : memory.heap.Grown heap contents) (size : contents.size = object.size) :
      Outcome memory object (.error (.fault fault)) (memory.withOwned object heap)
  | owned {heap contents} (new : memory.mappings.find? object.id = none) (whole : object.parent = none)
      (flavor : ∀ storage, object.flavor ≠ .hostOwned storage) (room : object.size ≤ memory.available)
      (buffer : ∀ buffer, baseOf object = some buffer → memory.isMapped buffer = true)
      (grown : memory.heap.Grown heap contents) (filled : memory.Filled object contents) :
      Outcome memory object (.ok ⟨memory.heap.blocks.size, 0⟩)
        { memory.withOwned object heap with attachments := memory.attached object }

/-- All that a call can do to memory. -/
inductive Change (memory : GlobalMemory) (op : MemoryOp) : MemoryAnswer → GlobalMemory → Prop
  /-- An object is mapped, for `alloc` as a plain buffer. -/
  | maps {object result memory'}
      (call : op = .map object ∨ ∃ any, op = .alloc any ∧ object = .buffer any.id any.size)
      (outcome : memory.Outcome object result memory') : Change memory op (answerOf result) memory'
  | frees {object} (call : op = .free object) : Change memory op .done (memory.free object)
  /-- Everything but the heap stays as it is. -/
  | moves {answer} (heap) : Change memory op answer { memory with heap }

/-! ## The inversion of `map` -/

section Map
variable {memory memory' : GlobalMemory} {object : MemoryObject} {heap : Heap} {contents : Bytes}

/-- An upload writes to the new block only. By induction on the rows. -/
theorem uploadRows_grown {base heap' : Heap} (layout : ImageLayout) (data : Bytes) (row : Nat)
    (rows : List (Nat × Nat)) (h : base.Grown heap' contents) :
    ∃ contents', base.Grown (uploadRows layout data ⟨base.blocks.size, 0⟩ row rows heap').2 contents' ∧
      contents'.size = contents.size := by
  induction rows generalizing heap' contents with
  | nil => exact ⟨contents, h, rfl⟩
  | cons place rest ih =>
    obtain ⟨z, y⟩ := place
    unfold uploadRows
    split
    · exact ⟨contents, h, rfl⟩
    · split
      · exact ⟨contents, h, rfl⟩
      · obtain ⟨contents', hgrown, hsize⟩ := ih (h.write (0 + _) _)
        exact ⟨contents', hgrown, hsize.trans (size_overwrite _ _ _)⟩

theorem upload_grown {base heap' : Heap} (object : MemoryObject) (h : base.Grown heap' contents) :
    ∃ contents', base.Grown (upload object ⟨base.blocks.size, 0⟩ heap').2 contents' ∧
      contents'.size = contents.size := by
  unfold upload
  split
  · exact ⟨contents, h, rfl⟩
  · split
    · exact ⟨_, h.write 0 _, size_overwrite _ _ _⟩
    · split
      · exact ⟨contents, h, rfl⟩
      · exact uploadRows_grown _ _ _ _ h

theorem overwrite_all {block : Bytes} (bytes : Bytes) (h : bytes.size = block.size) :
    overwrite block 0 bytes.toList = bytes := by
  apply Array.ext_getElem?
  intro i
  rw [getElem?_overwrite _ _ _ _ (by simp [h])]
  by_cases hi : i < bytes.size
  · simp [hi]
  · rw [if_neg (by simpa using hi), Array.getElem?_eq_none (by omega), Array.getElem?_eq_none (by omega)]

/-- A plain buffer holds its initial data once it is uploaded. -/
theorem upload_buffer (base : Heap) (hkind : object.kind = .buffer) (hdata : checkHostData object = .ok ()) :
    base.Grown (upload object ⟨base.blocks.size, 0⟩ (base.adopt (.replicate object.size 0)).2).2
      ((object.hostData.map (·.extract 0 object.size)).getD (Bytes.zeros object.size)) := by
  have hzeros := Heap.grown_adopt base (.replicate object.size 0)
  unfold upload
  cases hhost : object.hostData with
  | none => exact hzeros
  | some data =>
    have hlong : object.size ≤ data.size := by
      simp only [checkHostData, hhost, MemoryObject.requiredData, hkind] at hdata
      split at hdata
      · assumption
      · simp at hdata
    have hupload := hzeros.write 0 (data.extract 0 object.size)
    rw [overwrite_all _ (by simp; omega)] at hupload
    simpa [hkind] using hupload

/-- An image made over a buffer takes over what the buffer holds. -/
theorem attach_grown {heap' : Heap} (hgrown : memory.heap.Grown heap' contents)
    (hsize : contents.size = object.size)
    (hplain : object.kind = .buffer →
      contents = (object.hostData.map (·.extract 0 object.size)).getD (Bytes.zeros object.size))
    (hnew : memory.mappings.find? object.id = none)
    (hbuffer : ∀ buffer, baseOf object = some buffer → memory.isMapped buffer = true) :
    ∃ heap'' contents', attach (memory.withOwned object heap') object ⟨memory.heap.blocks.size, 0⟩ =
        { memory.withOwned object heap'' with attachments := memory.attached object } ∧
      memory.heap.Grown heap'' contents' ∧ memory.Filled object contents' := by
  cases hbase : baseOf object with
  | none =>
    refine ⟨heap', contents, ?_, hgrown, hsize, hplain, by simp [hbase]⟩
    unfold baseOf at hbase
    unfold attach attached baseOf
    cases hkind : object.kind with
    | buffer => rfl
    | image layout =>
      obtain ⟨_, _, _, _, _, _, buffer⟩ := layout
      simp only [hkind] at hbase
      subst hbase
      rfl
  | some buffer =>
    obtain ⟨source, hsource⟩ := Option.isSome_iff_exists.1 (hbuffer buffer hbase)
    have hne : buffer ≠ object.id := fun heq => by simp [heq, hnew] at hsource
    have hfound : (memory.withOwned object heap').mappings.find? buffer = some source := by
      rw [withOwned, Dict.find?_insert_other _ _ hne, hsource]
    let taken := heap'.read source.start (min source.size object.size)
    refine ⟨heap'.write ⟨memory.heap.blocks.size, 0⟩ taken, overwrite contents 0 taken.toList, ?_,
      hgrown.write 0 taken, (size_overwrite _ _ _).trans hsize, ?_, ?_⟩
    · unfold attach attached
      unfold baseOf at hbase ⊢
      cases hkind : object.kind with
      | buffer => simp [hkind] at hbase
      | image layout =>
        obtain ⟨_, _, _, _, _, _, base⟩ := layout
        simp only [hkind] at hbase
        subst hbase
        simp only [hfound]
        rfl
    · intro hkind
      simp [baseOf, hkind] at hbase
    · intro buffer' source' hbase' hsource' hbacks i hi
      obtain rfl : buffer = buffer' := by simpa [hbase] using hbase'
      obtain rfl : source = source' := by simpa [hsource] using hsource'
      have hpart : heap'.Backs { start := source.start, size := min source.size object.size } := by
        intro address haddress
        obtain ⟨j, hj, rfl⟩ := Region.holds_iff.1 haddress
        have hjs : j < source.size := by
          simp only at hj
          omega
        exact hbacks.of_keeps hgrown.keeps _ (Region.holds_iff.2 ⟨j, hjs, rfl⟩)
      have htaken : taken.size = min source.size object.size := Heap.size_read hpart
      rw [getElem?_overwrite _ _ _ _ (by simp only [Array.length_toList]; omega),
        if_pos (by simp only [Array.length_toList]; omega), Nat.sub_zero, Array.getElem?_toList,
        Heap.getElem?_read, if_pos hi]
      exact hgrown.byte?_of_isSome (hbacks _ (Region.holds_iff.2 ⟨i, show i < source.size by omega, rfl⟩))

theorem checkBuffer_eq_ok_iff : memory.checkBuffer object = .ok () ↔
    ∀ buffer, baseOf object = some buffer → memory.isMapped buffer = true := by
  unfold checkBuffer baseOf
  cases object.kind with
  | buffer => simp
  | image layout =>
    obtain ⟨_, _, _, _, _, _, buffer⟩ := layout
    cases buffer <;> simp

/-- A new block of zeros, if memory and the host have room for it. -/
theorem allocate_eq_ok_iff {start : Address} : memory.allocate object.id object.size = .ok (start, memory') ↔
    object.size ≤ memory.available ∧ object.size ≤ memory.heap.blockLimit ∧ start = ⟨memory.heap.blocks.size, 0⟩ ∧
      memory' = memory.withOwned object (memory.heap.adopt (.replicate object.size 0)).2 := by
  unfold allocate Heap.allocate?
  by_cases hroom : memory.available < object.size
  · simp [hroom, Nat.not_le.2 hroom]
  · by_cases hlimit : object.size ≤ memory.heap.blockLimit
    · simp only [hroom, hlimit, if_true, if_false, Heap.adopt, withOwned, Except.ok.injEq, Prod.mk.injEq]
      constructor
      · rintro ⟨rfl, rfl⟩
        exact ⟨Nat.le_of_not_lt hroom, trivial, rfl, rfl⟩
      · rintro ⟨-, -, rfl, rfl⟩
        exact ⟨rfl, rfl⟩
    · simp [hroom, hlimit]

theorem mapOwned_outcome (hnew : memory.mappings.find? object.id = none) (hwhole : object.parent = none)
    (hflavor : ∀ storage, object.flavor ≠ .hostOwned storage) :
    Outcome memory object (memory.mapOwned object).1 (memory.mapOwned object).2 := by
  unfold mapOwned
  cases hdata : checkHostData object with
  | error failure => exact .rejected hnew hwhole hflavor
  | ok _ =>
    cases hbuffer : memory.checkBuffer object with
    | error error => exact .rejected hnew hwhole hflavor
    | ok _ =>
      have hmapped := checkBuffer_eq_ok_iff.1 hbuffer
      cases hallocate : memory.allocate object.id object.size with
      | error error => exact .rejected hnew hwhole hflavor
      | ok result =>
        obtain ⟨start, owned⟩ := result
        obtain ⟨hroom, -, rfl, rfl⟩ := allocate_eq_ok_iff.1 hallocate
        obtain ⟨contents, hgrown, hsize⟩ := upload_grown object
          (Heap.grown_adopt memory.heap (.replicate object.size 0))
        have hsize : contents.size = object.size := by simpa using hsize
        have hplain : object.kind = .buffer →
            contents = (object.hostData.map (·.extract 0 object.size)).getD (Bytes.zeros object.size) :=
          fun hkind => hgrown.fresh.symm.trans (upload_buffer memory.heap hkind hdata).fresh
        simp only [withOwned, Heap.adopt] at hgrown ⊢
        cases hupload : upload object ⟨memory.heap.blocks.size, 0⟩
            { memory.heap with blocks := memory.heap.blocks.push (.replicate object.size 0) } with
        | mk result heap =>
          rw [hupload] at hgrown
          cases result with
          | error fault => exact .broken hnew hwhole hflavor hroom hgrown hsize
          | ok _ =>
            obtain ⟨heap', contents', hattach, hgrown', hfilled⟩ :=
              attach_grown hgrown hsize hplain hnew hmapped
            have howned := Outcome.owned hnew hwhole hflavor hroom hmapped hgrown' hfilled
            rw [← hattach] at howned
            exact howned

theorem map_outcome (memory : GlobalMemory) (object : MemoryObject) :
    Outcome memory object (memory.map object).1 (memory.map object).2 := by
  unfold map addressOf?
  cases hfound : memory.mappings.find? object.id with
  | some mapping => exact .known hfound
  | none =>
    cases hpart : object.parent with
    | some region =>
      simp only [Option.map_none, mapInside]
      cases hparent : memory.mappings.find? region.parent with
      | none => exact .orphan hfound hpart hparent
      | some parent =>
        by_cases hfits : region.offset + object.size < Size.limit ∧ region.offset + object.size ≤ parent.size
        · simp only [if_pos hfits]
          exact .inside hfound hpart hparent hfits
        · simp only [if_neg hfits]
          exact .misfit hfound hpart hparent hfits
    | none =>
      cases hflavor : object.flavor with
      | hostOwned storage => exact .lent hfound hpart hflavor
      | hostAccessible => exact mapOwned_outcome hfound hpart (by simp [hflavor])
      | devicePrivate => exact mapOwned_outcome hfound hpart (by simp [hflavor])

/-- `alloc` takes no notice of an object's flavor, parent, kind and initial data. -/
theorem perform_alloc (memory : GlobalMemory) (object : MemoryObject) :
    memory.perform (.alloc object) = memory.perform (.map (.buffer object.id object.size)) := by
  simp only [perform, alloc, map, MemoryObject.buffer]
  cases memory.addressOf? object.id with
  | some start => rfl
  | none =>
    simp only [mapOwned, checkHostData, checkBuffer]
    cases memory.allocate object.id object.size with
    | error error => rfl
    | ok result => rfl

theorem commit_change {op : MemoryOp} {result : Except MemoryError GlobalMemory}
    (h : ∀ memory', result = .ok memory' → ∃ heap, memory' = { memory with heap }) :
    memory.Change op (memory.commit result).1 (memory.commit result).2 := by
  cases result with
  | error error => exact .moves memory.heap
  | ok memory' =>
    obtain ⟨heap, rfl⟩ := h memory' rfl
    exact .moves _

theorem perform_change (memory : GlobalMemory) (op : MemoryOp) :
    memory.Change op (memory.perform op).1 (memory.perform op).2 := by
  cases op with
  | lend contents => exact .moves _
  | provide blockLimit => exact .moves _
  | map object =>
    exact .maps (.inl rfl) (map_outcome memory object)
  | alloc object =>
    rw [perform_alloc]
    exact .maps (.inr ⟨object, rfl, rfl⟩) (map_outcome memory _)
  | free object => exact .frees rfl
  | read object offset length => exact .moves memory.heap
  | write object offset bytes =>
    refine commit_change fun memory' h => ?_
    unfold write at h
    cases hrange : memory.range object offset bytes.size with
    | error error => simp [hrange, bind, Except.bind] at h
    | ok start => exact ⟨_, by simpa [hrange, bind, Except.bind, pure, Except.pure] using h.symm⟩
  | copy source sourceOffset target targetOffset length =>
    refine commit_change fun memory' h => ?_
    unfold copy at h
    cases hsource : memory.range source sourceOffset length with
    | error error => simp [hsource, bind, Except.bind] at h
    | ok start =>
      cases htarget : memory.range target targetOffset length with
      | error error => simp [hsource, htarget, bind, Except.bind] at h
      | ok goal => exact ⟨_, by simpa [hsource, htarget, bind, Except.bind, pure, Except.pure] using h.symm⟩
  | fill object offset pattern length =>
    refine commit_change fun memory' h => ?_
    unfold fill at h
    cases hrange : memory.range object offset length with
    | error error => simp [hrange, bind, Except.bind] at h
    | ok start =>
      simp only [hrange, bind, Except.bind, pure, Except.pure] at h
      split at h
      · exact ⟨memory.heap, (Except.ok.inj h).symm⟩
      · split at h
        · simp [throw, throwThe, MonadExceptOf.throw] at h
        · exact ⟨_, (Except.ok.inj h).symm⟩

end Map

end GlobalMemory

end ComputeCore
