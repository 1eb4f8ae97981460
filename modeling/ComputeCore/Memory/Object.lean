import ComputeCore.Memory.Image
/-!
# Memory objects

A memory object describes storage: its size, where the storage comes from, whether it is a buffer
or an image, whether it is part of another object, and what it holds at first. It has no address of
its own; global memory gives it one when it is mapped.
-/

namespace ComputeCore

/-- Where the storage of an object lives. -/
inductive Flavor where
  /-- Storage lent by the host, at this address. -/
  | hostOwned (storage : Address)
  /-- Storage of the runtime that the host may look at. -/
  | hostAccessible
  /-- Storage of the runtime that only kernels touch. -/
  | devicePrivate
  deriving DecidableEq, Inhabited

/-- The part of another object that a sub-object stands for. -/
structure SubRegion where
  parent : ObjectId
  offset : Nat
  deriving DecidableEq, Inhabited

/-- What an object is. -/
inductive ObjectKind where
  | buffer
  | image (layout : ImageLayout)
  deriving DecidableEq, Inhabited

/-- A buffer or image, or a part of one. -/
structure MemoryObject where
  id : ObjectId
  size : Nat
  flavor : Flavor := .devicePrivate
  kind : ObjectKind := .buffer
  parent : Option SubRegion := none
  /-- What the object holds at first, if that is given. -/
  hostData : Option Bytes := none
  deriving DecidableEq, Inhabited

namespace MemoryObject

/-- A buffer only kernels touch. -/
def buffer (id : ObjectId) (size : Nat) : MemoryObject :=
  { id, size }

/-- A buffer over storage lent by the host. -/
def hostOwned (id : ObjectId) (storage : Address) (size : Nat) : MemoryObject :=
  { buffer id size with flavor := .hostOwned storage }

/-- An image, as large as its layout says. -/
def image (id : ObjectId) (layout : ImageLayout) : Except Fault MemoryObject := do
  let size ← layout.size
  return { buffer id size with kind := .image layout }

/-- The `size` bytes of `parent` from `offset` on, as an object. -/
def subObject (id : ObjectId) (parent : MemoryObject) (offset size : Nat) : MemoryObject :=
  { id, size, flavor := parent.flavor, kind := parent.kind
    parent := some { parent := parent.id, offset } }

/-- The same object with another flavor. -/
def withFlavor (object : MemoryObject) (flavor : Flavor) : MemoryObject :=
  { object with flavor }

/-- The same object holding `data` at first. -/
def withHostData (object : MemoryObject) (data : Bytes) : MemoryObject :=
  { object with hostData := some data }

/-- Whether the object is part of another one. -/
def isSubObject (object : MemoryObject) : Bool :=
  object.parent.isSome

/-- The bytes of initial data the object reads when it is mapped. -/
def requiredData (object : MemoryObject) : Except Fault Nat :=
  match object.kind with
  | .buffer => .ok object.size
  | .image layout => layout.hostSize

end MemoryObject

end ComputeCore
