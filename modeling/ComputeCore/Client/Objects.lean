import ComputeCore.Memory.Global
/-!
# Objects by number

A client of global memory numbers the objects it makes from zero and speaks of them by number. It
describes a new object by an `ObjectSpec`, and what it wants of an old one by an `ObjectCall`;
`ObjectTable.serve` carries out either. An object is only numbered once it is made, so a call that
breaks down while making one uses up no number.
-/

namespace ComputeCore

/-- An object as a client describes it. -/
inductive ObjectSpec where
  | buffer (size : Nat) (data : Option Bytes) (accessible : Bool)
  /-- A buffer over storage lent by the host, which holds these bytes. -/
  | lent (contents : Bytes)
  /-- An image, possibly made over a buffer, possibly in storage lent by the host. -/
  | image (layout : ImageLayout) (base : Option Nat) (data storage : Option Bytes)
  | sub (parent offset size : Nat) (data : Option Bytes)

/-- What a client asks about an object or wants done with it. -/
inductive ObjectCall where
  | map
  | alloc
  | free
  | address
  | size
  | mapped
  | attached
  | read (offset length : Nat)
  | write (offset : Nat) (bytes : Bytes)
  | copyTo (offset target targetOffset length : Nat)
  | fill (offset : Nat) (pattern : Bytes) (length : Nat)
  | info

/-- A request to global memory, with objects given by number. -/
inductive MemoryCall where
  | make (spec : ObjectSpec)
  | about (object : Nat) (call : ObjectCall)
  | available
  | capacity

/-- What a request to global memory is answered with. -/
inductive MemoryReply where
  | number (n : Nat)
  | number? (n : Option Nat)
  | numbers (ns : List Nat)
  | place? (place : Option GlobalMemory.Place)
  | flag (value : Bool)
  | bytes (bytes : Bytes)
  | object (object : MemoryObject)
  | done
  | failure (failure : MemoryFailure)
  /-- The call names an object that was never made. -/
  | noSuchObject

/-- The objects a client has made, by number. -/
structure ObjectTable where
  objects : Array MemoryObject := #[]
  deriving Inhabited

namespace ObjectTable

/-- The identity the next object gets. -/
def nextId (table : ObjectTable) : ObjectId :=
  { raw := table.objects.size + 1 }

/-- The number of the object with this identity. -/
def numberOf (id : ObjectId) : Nat :=
  id.raw - 1

/-- Numbers a new object. -/
def add (table : ObjectTable) (object : MemoryObject) : MemoryReply × ObjectTable :=
  (.number table.objects.size, { objects := table.objects.push object })

/-! ## Making objects -/

/-- The given initial data, put in an object. -/
def filled (object : MemoryObject) (data : Option Bytes) : MemoryObject :=
  match data with
  | some data => object.withHostData data
  | none => object

/-- Makes an object. -/
def make (table : ObjectTable) (memory : GlobalMemory) :
    ObjectSpec → MemoryReply × ObjectTable × GlobalMemory
  | .buffer size data accessible =>
    let plain := filled (.buffer table.nextId size) data
    let object := if accessible then plain.withFlavor .hostAccessible else plain
    let (reply, table) := table.add object
    (reply, table, memory)
  | .lent contents =>
    let (storage, memory) := memory.lend contents
    let (reply, table) := table.add (.hostOwned table.nextId storage contents.size)
    (reply, table, memory)
  | .image layout base data storage =>
    let buffer := base.bind fun number => (table.objects[number]?).map (·.id)
    match MemoryObject.image table.nextId { layout with buffer } with
    | .error fault => (.failure (.fault fault), table, memory)
    | .ok image =>
      let object := filled image data
      match storage with
      | none =>
        let (reply, table) := table.add object
        (reply, table, memory)
      | some contents =>
        let (start, memory) := memory.lend contents
        let (reply, table) := table.add (object.withFlavor (.hostOwned start))
        (reply, table, memory)
  | .sub parent offset size data =>
    match table.objects[parent]? with
    | none => (.noSuchObject, table, memory)
    | some parent =>
      let object := filled (.subObject table.nextId parent offset size) data
      let (reply, table) := table.add object
      (reply, table, memory)

/-! ## Calls about an object -/

/-- The memory after a call that changes it if it succeeds, and the reply to it. -/
def commit (memory : GlobalMemory) (result : Except MemoryError GlobalMemory) :
    MemoryReply × GlobalMemory :=
  match result with
  | .ok memory => (.done, memory)
  | .error error => (.failure (.refused error), memory)

/-- The reply to a read. The client first makes room for the bytes, which must be a possible array
even if the read is going to be refused. -/
def readReply (memory : GlobalMemory) (object : ObjectId) (offset length : Nat) : MemoryReply :=
  match Size.fitsArray length 1 with
  | .error fault => .failure (.fault fault)
  | .ok () =>
    match memory.read object offset length with
    | .ok bytes => .bytes bytes
    | .error error => .failure (.refused error)

/-- Carries out a call about an object. -/
def apply (table : ObjectTable) (memory : GlobalMemory) (object : MemoryObject) :
    ObjectCall → MemoryReply × GlobalMemory
  | .map =>
    match memory.map object with
    | (.ok start, memory) => (.place? (memory.place object start), memory)
    | (.error failure, memory) => (.failure failure, memory)
  | .alloc =>
    match memory.alloc object with
    | (.ok start, memory) => (.place? (memory.place object start), memory)
    | (.error error, memory) => (.failure (.refused error), memory)
  | .free => (.done, memory.free object.id)
  | .address => (.place? ((memory.addressOf? object.id).map (memory.place object)), memory)
  | .size => (.number? (memory.sizeOf? object.id), memory)
  | .mapped => (.flag (memory.isMapped object.id), memory)
  | .attached => (.numbers ((memory.attachedImages object.id).map numberOf), memory)
  | .read offset length => (readReply memory object.id offset length, memory)
  | .write offset bytes => commit memory (memory.write object.id offset bytes)
  | .copyTo offset target targetOffset length =>
    match table.objects[target]? with
    | none => (.noSuchObject, memory)
    | some target => commit memory (memory.copy object.id offset target.id targetOffset length)
  | .fill offset pattern length => commit memory (memory.fill object.id offset pattern length)
  | .info => (.object object, memory)

/-- Carries out a request. -/
def serve (table : ObjectTable) (memory : GlobalMemory) :
    MemoryCall → MemoryReply × ObjectTable × GlobalMemory
  | .make spec => table.make memory spec
  | .about number call =>
    match table.objects[number]? with
    | none => (.noSuchObject, table, memory)
    | some object =>
      let (reply, memory) := table.apply memory object call
      (reply, table, memory)
  | .available => (.number memory.available, table, memory)
  | .capacity => (.number memory.capacity, table, memory)

end ObjectTable

end ComputeCore
