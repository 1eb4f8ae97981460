import ComputeCore.Proofs.Memory.Calls
/-!
# Objects as views of roots

What a client of global memory may think of: every mapped object is a range of the bytes of some root, and
every root has bytes of its own. There are no addresses, no tables and no capacity here. `ByteStore.Serves`
says what each call does to such a store.

A store does not say what a mapping with storage of its own is refused for, nor which bytes it finds in
storage lent by the host.
-/

namespace ComputeCore

/-- What an object stands for: a range of a root's bytes. -/
structure View where
  root : ObjectId
  offset : Nat
  size : Nat
  /-- The objects it lies in, itself first and its root last. -/
  within : List ObjectId

/-- The views of the mapped objects, and the bytes of each root. -/
structure ByteStore where
  views : ObjectId → Option View := fun _ => none
  bytes : ObjectId → Bytes := fun _ => #[]

structure Spot where
  root : ObjectId
  offset : Nat

namespace ByteStore

/-! ## Moving bytes -/

/-- Where `length` bytes at `offset` in an object are, if they lie inside it. -/
def locate (store : ByteStore) (object : ObjectId) (offset length : Nat) : Except MemoryError Spot :=
  match store.views object with
  | none => .error (.notMapped object)
  | some view =>
    if offset + length < Size.limit ∧ offset + length ≤ view.size then
      .ok { root := view.root, offset := view.offset + offset }
    else .error (.outOfBounds offset length view.size)

def take (store : ByteStore) (spot : Spot) (length : Nat) : Bytes :=
  (store.bytes spot.root).extract spot.offset (spot.offset + length)

def put (store : ByteStore) (spot : Spot) (data : Bytes) : ByteStore :=
  { store with
    bytes := fun root =>
      if root = spot.root then (store.bytes root).splice spot.offset data else store.bytes root }

/-- What a write, copy or fill puts where. A fill with an empty pattern puts nothing anywhere. -/
def puts (store : ByteStore) : MemoryOp → Except MemoryError (Option (Spot × Bytes))
  | .write object offset data =>
    match store.locate object offset data.size with
    | .error error => .error error
    | .ok spot => .ok (some (spot, data))
  | .copy source sourceOffset target targetOffset length =>
    match store.locate source sourceOffset length, store.locate target targetOffset length with
    | .error error, _ => .error error
    | .ok _, .error error => .error error
    | .ok start, .ok goal => .ok (some (goal, store.take start length))
  | .fill object offset pattern length =>
    match store.locate object offset length with
    | .error error => .error error
    | .ok spot =>
      if pattern.size = 0 then .ok none
      else if length % pattern.size ≠ 0 then .error (.patternMismatch length pattern.size)
      else .ok (some (spot, Array.ofFn fun i : Fin length => pattern.getD (i % pattern.size) 0))
  | _ => .ok none

def byteAt? (store : ByteStore) (object : ObjectId) (i : Nat) : Option UInt8 :=
  match store.views object with
  | none => none
  | some view => if i < view.size then (store.bytes view.root)[view.offset + i]? else none

/-! ## Mapping and releasing -/

/-- The store with a new root that holds `contents`. -/
def addRoot (store : ByteStore) (id : ObjectId) (contents : Bytes) : ByteStore where
  views := fun object =>
    if object = id then some { root := id, offset := 0, size := contents.size, within := [id] }
    else store.views object
  bytes := fun root => if root = id then contents else store.bytes root

/-- The store with a new view of part of another one. -/
def addInside (store : ByteStore) (id : ObjectId) (outer : View) (offset size : Nat) : ByteStore :=
  { store with
    views := fun object =>
      if object = id then
        some { root := outer.root, offset := outer.offset + offset, size, within := id :: outer.within }
      else store.views object }

/-- The store without an object and everything that lies in it. -/
def drop (store : ByteStore) (object : ObjectId) : ByteStore :=
  { store with views := fun id => (store.views id).filter (object ∉ ·.within) }

/-- What an object with storage of its own holds at first: a buffer its initial data or zeros, and an image
made over a buffer what that buffer holds. -/
structure Initial (store : ByteStore) (object : MemoryObject) (contents : Bytes) : Prop where
  size : contents.size = object.size
  plain : object.kind = .buffer →
    contents = (object.hostData.map (·.extract 0 object.size)).getD (Bytes.zeros object.size)
  copied : ∀ buffer view, GlobalMemory.baseOf object = some buffer → store.views buffer = some view →
    ∀ i < min view.size object.size, contents[i]? = store.byteAt? buffer i

/-- How a store maps an object. -/
inductive Maps (store : ByteStore) (object : MemoryObject) : MemoryAnswer → ByteStore → Prop
  | known {view start} (found : store.views object.id = some view) : Maps store object (.address start) store
  | orphan {region} (new : store.views object.id = none) (part : object.parent = some region)
      (missing : store.views region.parent = none) :
      Maps store object (.failure (.refused (.parentNotMapped object.id region.parent))) store
  | misfit {region outer} (new : store.views object.id = none) (part : object.parent = some region)
      (found : store.views region.parent = some outer)
      (exceeds : ¬ (region.offset + object.size < Size.limit ∧ region.offset + object.size ≤ outer.size)) :
      Maps store object (.failure (.refused (.invalidSubRegion region.offset object.size outer.size))) store
  | inside {region outer start} (new : store.views object.id = none) (part : object.parent = some region)
      (found : store.views region.parent = some outer)
      (fits : region.offset + object.size < Size.limit ∧ region.offset + object.size ≤ outer.size) :
      Maps store object (.address start) (store.addInside object.id outer region.offset object.size)
  | lent {storage contents} (new : store.views object.id = none) (whole : object.parent = none)
      (flavor : object.flavor = .hostOwned storage) (size : contents.size = object.size) :
      Maps store object (.address storage) (store.addRoot object.id contents)
  | rejected {failure} (new : store.views object.id = none) (whole : object.parent = none)
      (flavor : ∀ storage, object.flavor ≠ .hostOwned storage) : Maps store object (.failure failure) store
  | broken {fault contents} (new : store.views object.id = none) (whole : object.parent = none)
      (flavor : ∀ storage, object.flavor ≠ .hostOwned storage) (size : contents.size = object.size) :
      Maps store object (.failure (.fault fault)) (store.addRoot object.id contents)
  | owned {start contents} (new : store.views object.id = none) (whole : object.parent = none)
      (flavor : ∀ storage, object.flavor ≠ .hostOwned storage) (initial : store.Initial object contents) :
      Maps store object (.address start) (store.addRoot object.id contents)

def Transfers (store : ByteStore) (op : MemoryOp) (answer : MemoryAnswer) (store' : ByteStore) : Prop :=
  match store.puts op with
  | .error error => answer = .failure (.refused error) ∧ store' = store
  | .ok none => answer = .done ∧ store' = store
  | .ok (some (spot, data)) => answer = .done ∧ store' = store.put spot data

/-- How a store answers a call, and what it is afterwards. -/
def Serves (store : ByteStore) (op : MemoryOp) (answer : MemoryAnswer) (store' : ByteStore) : Prop :=
  match op with
  | .lend _ => store' = store
  | .provide _ => answer = .done ∧ store' = store
  | .map object => store.Maps object answer store'
  | .alloc object => store.Maps (.buffer object.id object.size) answer store'
  | .free object => answer = .done ∧ store' = store.drop object
  | .read object offset length =>
    store' = store ∧ answer = match store.locate object offset length with
      | .error error => .failure (.refused error)
      | .ok spot => .bytes (store.take spot length)
  | .write .. => store.Transfers op answer store'
  | .copy .. => store.Transfers op answer store'
  | .fill .. => store.Transfers op answer store'

section Put
variable {store : ByteStore} {spot : Spot} {data : Bytes} {object : ObjectId} {view : View} {i : Nat}

/-- Whatever views the root sees the new bytes at its own distance from them, and nothing else. -/
theorem byteAt?_put (hfits : spot.offset + data.size ≤ (store.bytes spot.root).size)
    (hview : store.views object = some view) (hi : i < view.size) :
    (store.put spot data).byteAt? object i =
      if view.root = spot.root ∧ spot.offset ≤ view.offset + i ∧ view.offset + i < spot.offset + data.size then
        data[view.offset + i - spot.offset]?
      else store.byteAt? object i := by
  simp only [byteAt?, put, hview, if_pos hi]
  by_cases hroot : view.root = spot.root
  · rw [if_pos hroot, hroot, Bytes.getElem?_splice hfits]
    simp
  · rw [if_neg hroot, if_neg (by simp [hroot])]

end Put

end ByteStore

end ComputeCore
