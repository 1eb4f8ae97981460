import ComputeCore.Dict
import ComputeCore.Memory.Error
/-!
# Global memory

Global memory resolves objects to addresses and accounts for the storage it provides against a
fixed capacity. Mapping an object gives it an address: its parent's address plus an offset for a
sub-object, the host's address for storage lent by the host, and otherwise a block of its own,
which is charged against the capacity and filled from the object's initial data.

Three tables describe the state: the mappings, the sub-objects mapped inside each object, and the
images mapped over each buffer. `free` takes a mapping out of all three, together with everything
mapped inside it.

Reads, writes, copies and fills check their ranges and answer with the new memory only if they
succeed, so a refused one changes nothing. `map` and `alloc` answer with the memory in any case: a
fault in the middle of an upload leaves the object mapped.
-/

namespace ComputeCore

/-- What a mapping's storage is. -/
inductive Storage where
  /-- A block of its own, counted against the capacity. -/
  | owned
  /-- Part of a parent's storage. -/
  | inside (parent : ObjectId)
  /-- Storage lent by the host. -/
  | lent
  deriving DecidableEq, Inhabited

/-- Where a mapped object lies. -/
structure Mapping where
  start : Address
  size : Nat
  storage : Storage
  deriving DecidableEq, Inhabited

/-- The state of global memory. -/
structure GlobalMemory where
  capacity : Nat
  /-- The part of the capacity no mapping is charged for. -/
  available : Nat
  heap : Heap := {}
  mappings : Dict ObjectId Mapping := {}
  /-- The sub-objects mapped inside each object, oldest first. -/
  subObjects : Dict ObjectId (List ObjectId) := {}
  /-- The images mapped over each buffer, oldest first. -/
  attachments : Dict ObjectId (List ObjectId) := {}
  deriving DecidableEq, Inhabited

namespace GlobalMemory

/-- Global memory of this capacity, with nothing mapped, on a host that provides blocks up to a limit. -/
def ofCapacity (capacity : Nat) (blockLimit : Fin Size.limit := Heap.usualLimit) : GlobalMemory :=
  { capacity, available := capacity, heap := { blockLimit } }

/-! ## Queries -/

/-- The address of a mapped object. -/
def addressOf? (memory : GlobalMemory) (object : ObjectId) : Option Address :=
  (memory.mappings.find? object).map (·.start)

/-- The size of a mapped object. -/
def sizeOf? (memory : GlobalMemory) (object : ObjectId) : Option Nat :=
  (memory.mappings.find? object).map (·.size)

/-- The bytes of a mapped object. -/
def regionOf? (memory : GlobalMemory) (object : ObjectId) : Option Region :=
  (memory.mappings.find? object).map fun mapping => { start := mapping.start, size := mapping.size }

/-- Whether an object is mapped. -/
def isMapped (memory : GlobalMemory) (object : ObjectId) : Bool :=
  memory.mappings.contains object

/-- The images mapped over a buffer, oldest first. -/
def attachedImages (memory : GlobalMemory) (buffer : ObjectId) : List ObjectId :=
  memory.attachments.findD buffer []

/-! ## Mapping -/

/-- Storage lent by the host, holding `contents`. -/
def lend (memory : GlobalMemory) (contents : Bytes) : Address × GlobalMemory :=
  let (start, heap) := memory.heap.adopt contents
  (start, { memory with heap })

/-- Maps `object` onto a zeroed block of its own, charged against the capacity. -/
def allocate (memory : GlobalMemory) (object : ObjectId) (size : Nat) :
    Except MemoryError (Address × GlobalMemory) :=
  if memory.available < size then .error (.outOfGlobalMemory size memory.available)
  else
    match memory.heap.allocate? size with
    | none => .error (.hostAllocation size)
    | some (start, heap) =>
      .ok (start, { memory with
        heap, available := memory.available - size
        mappings := memory.mappings.insert object { start, size, storage := .owned } })

/-- Maps an object onto a block of its own whatever its flavor, parent and initial data. An object
that is mapped already keeps its address. -/
def alloc (memory : GlobalMemory) (object : MemoryObject) :
    Except MemoryError Address × GlobalMemory :=
  match memory.addressOf? object.id with
  | some start => (.ok start, memory)
  | none =>
    match memory.allocate object.id object.size with
    | .error error => (.error error, memory)
    | .ok (start, memory) => (.ok start, memory)

/-- Maps a sub-object onto its part of its parent's storage. -/
def mapInside (memory : GlobalMemory) (object : MemoryObject) (region : SubRegion) :
    Except MemoryError (Address × GlobalMemory) :=
  match memory.mappings.find? region.parent with
  | none => .error (.parentNotMapped object.id region.parent)
  | some parent =>
    if region.offset + object.size < Size.limit ∧ region.offset + object.size ≤ parent.size then
      let start := parent.start.advance region.offset
      let siblings := memory.subObjects.findD region.parent []
      .ok (start, { memory with
        mappings := memory.mappings.insert object.id
          { start, size := object.size, storage := .inside region.parent }
        subObjects := memory.subObjects.insert region.parent (siblings ++ [object.id]) })
    else .error (.invalidSubRegion region.offset object.size parent.size)

/-- Initial data must reach as far as the object reads it. -/
def checkHostData (object : MemoryObject) : Except MemoryFailure Unit :=
  match object.hostData with
  | none => .ok ()
  | some data =>
    match object.requiredData with
    | .error fault => .error (.fault fault)
    | .ok required =>
      if required ≤ data.size then .ok ()
      else .error (.refused (.invalidHostData required data.size))

/-- The buffer an image lies over must be mapped. -/
def checkBuffer (memory : GlobalMemory) (object : MemoryObject) : Except MemoryError Unit :=
  match object.kind with
  | .image { buffer := some buffer, .. } =>
    if memory.isMapped buffer then .ok () else .error (.notMapped buffer)
  | _ => .ok ()

/-- Copies the given rows of an image from host data to the image at `start`, up to the first one
whose place cannot be computed. -/
def uploadRows (layout : ImageLayout) (data : Bytes) (start : Address) (row : Nat) :
    List (Nat × Nat) → Heap → Except Fault Unit × Heap
  | [], heap => (.ok (), heap)
  | (z, y) :: rest, heap =>
    match layout.hostOffset z y with
    | .error fault => (.error fault, heap)
    | .ok source =>
      match layout.deviceOffset row z y with
      | .error fault => (.error fault, heap)
      | .ok target =>
        uploadRows layout data start row rest
          (heap.write (start.advance target) (data.extract source (source + row)))

/-- Fills the block of a freshly mapped object from its initial data. -/
def upload (object : MemoryObject) (start : Address) (heap : Heap) : Except Fault Unit × Heap :=
  match object.hostData with
  | none => (.ok (), heap)
  | some data =>
    match object.kind with
    | .buffer => (.ok (), heap.write start (data.extract 0 object.size))
    | .image layout =>
      match layout.rowBytes with
      | .error fault => (.error fault, heap)
      | .ok row => uploadRows layout data start row layout.rows heap

/-- Gives an image made over a buffer the buffer's contents and records that it lies over it. -/
def attach (memory : GlobalMemory) (object : MemoryObject) (start : Address) : GlobalMemory :=
  match object.kind with
  | .image { buffer := some buffer, .. } =>
    let heap := match memory.mappings.find? buffer with
      | some source => memory.heap.copy source.start start (min source.size object.size)
      | none => memory.heap
    { memory with
      heap
      attachments :=
        memory.attachments.insert buffer (memory.attachedImages buffer ++ [object.id]) }
  | _ => memory

/-- Maps an object that needs storage of its own. All checks come before the first change. -/
def mapOwned (memory : GlobalMemory) (object : MemoryObject) :
    Except MemoryFailure Address × GlobalMemory :=
  match checkHostData object with
  | .error failure => (.error failure, memory)
  | .ok () =>
    match memory.checkBuffer object with
    | .error error => (.error (.refused error), memory)
    | .ok () =>
      match memory.allocate object.id object.size with
      | .error error => (.error (.refused error), memory)
      | .ok (start, memory) =>
        match upload object start memory.heap with
        | (.error fault, heap) => (.error (.fault fault), { memory with heap })
        | (.ok (), heap) => (.ok start, attach { memory with heap } object start)

/-- Gives an object an address. An object that is mapped already keeps the one it has. -/
def map (memory : GlobalMemory) (object : MemoryObject) :
    Except MemoryFailure Address × GlobalMemory :=
  match memory.addressOf? object.id with
  | some start => (.ok start, memory)
  | none =>
    match object.parent, object.flavor with
    | some region, _ =>
      match memory.mapInside object region with
      | .error error => (.error (.refused error), memory)
      | .ok (start, memory) => (.ok start, memory)
    | none, .hostOwned storage =>
      (.ok storage, { memory with
        mappings := memory.mappings.insert object.id
          { start := storage, size := object.size, storage := .lent } })
    | none, _ => memory.mapOwned object

/-! ## Releasing -/

/-- Takes `object` out of a table of lists, and lists that become empty out of the table. -/
def unlist (object : ObjectId) (table : Dict ObjectId (List ObjectId)) :
    Dict ObjectId (List ObjectId) :=
  table.filterMap fun objects =>
    match objects.filter (· ≠ object) with
    | [] => none
    | rest => some rest

/-- Takes `object` out of the list of its parent's sub-objects, and the list away once empty. -/
def leaveParent (subObjects : Dict ObjectId (List ObjectId)) (parent object : ObjectId) :
    Dict ObjectId (List ObjectId) :=
  match subObjects.find? parent with
  | none => subObjects
  | some siblings =>
    match siblings.filter (· ≠ object) with
    | [] => subObjects.erase parent
    | rest => subObjects.insert parent rest

/-- Gives back what a mapping held, once it is out of the table of mappings. -/
def settleStorage (memory : GlobalMemory) (object : ObjectId) (mapping : Mapping) : GlobalMemory :=
  match mapping.storage with
  | .owned =>
    { memory with
      available := memory.available + mapping.size
      heap := memory.heap.release mapping.start.block }
  | .inside parent =>
    { memory with subObjects := leaveParent memory.subObjects parent object }
  | .lent => memory

/-- Releases `object` and everything mapped inside it, to a nesting depth of `depth`. -/
def releaseTo : Nat → GlobalMemory → ObjectId → GlobalMemory
  | 0, memory, _ => memory
  | depth + 1, memory, object =>
    match memory.mappings.find? object with
    | none => memory
    | some mapping =>
      let inside := memory.subObjects.findD object []
      let alone : GlobalMemory := { memory with
        mappings := memory.mappings.erase object
        subObjects := memory.subObjects.erase object }
      let settled := (inside.foldl (releaseTo depth) alone).settleStorage object mapping
      { settled with attachments := unlist object (settled.attachments.erase object) }

/-- Releases an object's mapping and everything mapped inside it. An object that is not mapped is
ignored. Every nested release takes a mapping out first, so the number of mappings bounds the
depth. -/
def free (memory : GlobalMemory) (object : ObjectId) : GlobalMemory :=
  releaseTo memory.mappings.size memory object

/-! ## Moving bytes -/

/-- The address of `length` bytes at `offset` in a mapped object, if they lie inside it. -/
def range (memory : GlobalMemory) (object : ObjectId) (offset length : Nat) :
    Except MemoryError Address :=
  match memory.mappings.find? object with
  | none => .error (.notMapped object)
  | some mapping =>
    if offset + length < Size.limit ∧ offset + length ≤ mapping.size then
      .ok (mapping.start.advance offset)
    else .error (.outOfBounds offset length mapping.size)

/-- The `length` bytes at `offset` in an object. -/
def read (memory : GlobalMemory) (object : ObjectId) (offset length : Nat) :
    Except MemoryError Bytes := do
  let start ← memory.range object offset length
  return memory.heap.read start length

/-- Puts `bytes` at `offset` in an object. -/
def write (memory : GlobalMemory) (object : ObjectId) (offset : Nat) (bytes : Bytes) :
    Except MemoryError GlobalMemory := do
  let start ← memory.range object offset bytes.size
  return { memory with heap := memory.heap.write start bytes }

/-- Moves `length` bytes between two objects. The ranges may overlap. -/
def copy (memory : GlobalMemory) (source : ObjectId) (sourceOffset : Nat) (target : ObjectId)
    (targetOffset length : Nat) : Except MemoryError GlobalMemory := do
  let start ← memory.range source sourceOffset length
  let goal ← memory.range target targetOffset length
  return { memory with heap := memory.heap.copy start goal length }

/-- `length` bytes of a repeated pattern. -/
def repeated (pattern : Bytes) (length : Nat) : Bytes :=
  Array.ofFn fun i : Fin length => pattern.getD (i % pattern.size) 0

/-- Repeats `pattern` over `length` bytes of an object. An empty pattern writes nothing. -/
def fill (memory : GlobalMemory) (object : ObjectId) (offset : Nat) (pattern : Bytes)
    (length : Nat) : Except MemoryError GlobalMemory := do
  let start ← memory.range object offset length
  if pattern.isEmpty then return memory
  else if length % pattern.size ≠ 0 then throw (.patternMismatch length pattern.size)
  else return { memory with heap := memory.heap.write start (repeated pattern length) }

/-! ## Where an address lies -/

/-- Where the address of an object lies, seen from the host. -/
inductive Place where
  /-- This many bytes into the object's parent. -/
  | inParent (distance : Nat)
  /-- At the storage the host lent for the object. -/
  | atHostStorage
  /-- In a block of its own, this far off the alignment boundary. -/
  | inOwnBlock (misalignment : Nat)
  deriving DecidableEq, Inhabited

/-- How far an address lies inside the object's mapped parent. -/
def distanceIntoParent? (memory : GlobalMemory) (object : MemoryObject) (address : Address) :
    Option Nat := do
  let region ← object.parent
  let parent ← memory.mappings.find? region.parent
  if parent.start.block = address.block ∧ parent.start.offset ≤ address.offset ∧
      address.offset ≤ parent.start.offset + parent.size then
    some (address.offset - parent.start.offset)
  else none

/-- Where an address of `object` lies. -/
def place (memory : GlobalMemory) (object : MemoryObject) (address : Address) : Place :=
  match memory.distanceIntoParent? object address with
  | some distance => .inParent distance
  | none =>
    if object.flavor = .hostOwned address then .atHostStorage
    else .inOwnBlock (address.offset % Heap.alignment)

end GlobalMemory

end ComputeCore
