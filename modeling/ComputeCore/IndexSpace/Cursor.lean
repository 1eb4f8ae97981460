import ComputeCore.IndexSpace.Basic
/-!
# Cursors over an index space

A cursor stands on one work-item. It visits the space group by group: inside a group the local id
of dimension 0 advances fastest, then 1, then 2; when the local ids wrap round, the group ids
advance in the same order. One step past the last work-item it lands on the sentinel, whose first
group id is the group count of that dimension and whose other ids are zero.
-/

namespace ComputeCore

/-- A place in an index space, with its own copy of that space. -/
structure Cursor where
  space : IndexSpace
  /-- The work-item inside its group, dimension 0 first. -/
  localIds : List Nat
  /-- The group, dimension 0 first. -/
  groupIds : List Nat
  deriving DecidableEq, Inhabited

/-- The identity of one work-item: its local and its group ids. -/
structure ItemId where
  localIds : List Nat
  groupIds : List Nat
  deriving DecidableEq, Inhabited

namespace IndexSpace

/-- The first work-item of a group. -/
def atGroup (space : IndexSpace) (groupIds : List Nat) : Cursor :=
  { space, localIds := space.axes.map fun _ => 0, groupIds }

/-- The first work-item of the first group. -/
def first (space : IndexSpace) : Cursor :=
  space.atGroup (space.axes.map fun _ => 0)

/-- The place one past the last work-item. -/
def sentinel (space : IndexSpace) : Cursor :=
  space.atGroup (space.numGroups 0 :: space.axes.tail.map fun _ => 0)

/-- The first work-item of the group with linear id `group`, the sentinel if there is none. -/
def groupStart (space : IndexSpace) (group : Nat) : Except Fault Cursor := do
  let total ← space.totalGroups
  if group < total then .ok (space.atGroup (Radix.digits space.groupCounts group))
  else .ok space.sentinel

end IndexSpace

namespace Cursor

/-- Whether the cursor is past the last work-item. -/
def atEnd (cursor : Cursor) : Bool :=
  cursor.groupIds.headD 0 = cursor.space.numGroups 0

/-- Whether the cursor is on the first work-item of a group. -/
def isGroupStart (cursor : Cursor) : Bool :=
  cursor.localIds.all (· = 0)

/-- Moves the cursor forward by `n` work-items. What carries out of the last group dimension, or
out of the 64-bit range on the way, lands on the sentinel; the sentinel stays where it is. -/
def advance (cursor : Cursor) (n : Nat) : Cursor :=
  if n = 0 ∨ cursor.atEnd then cursor
  else
    match Radix.addCarry cursor.space.localSizes cursor.localIds n with
    | none => cursor.space.sentinel
    | some (localIds, groupsOn) =>
      match Radix.addCarry cursor.space.groupCounts cursor.groupIds groupsOn with
      | some (groupIds, 0) => { cursor with localIds, groupIds }
      | _ => cursor.space.sentinel

/-! ## Where the cursor stands -/

/-- The local id in one dimension, zero beyond the dimensions of the space. -/
def localId (cursor : Cursor) (dim : Nat) : Nat :=
  cursor.localIds.getD dim 0

/-- The group id in one dimension, zero beyond the dimensions of the space. -/
def groupId (cursor : Cursor) (dim : Nat) : Nat :=
  cursor.groupIds.getD dim 0

/-- The global id in one dimension: `group * local size + local id + offset`. -/
def globalId (cursor : Cursor) (dim : Nat) : Except Fault Nat :=
  if dim < cursor.space.dims then do
    let groupBase ← Size.mul (cursor.groupId dim) (cursor.space.localSize dim)
    let relative ← Size.add groupBase (cursor.localId dim)
    Size.add relative (cursor.space.globalOffset dim)
  else .ok 0

/-- The linear id of the work-item inside its group. -/
def localLinear (cursor : Cursor) : Except Fault Nat :=
  Radix.value cursor.space.localSizes cursor.localIds

/-- The linear id of the group. -/
def groupLinear (cursor : Cursor) : Except Fault Nat :=
  Radix.value cursor.space.groupCounts cursor.groupIds

/-- The number of work-items visited before this one. -/
def position (cursor : Cursor) : Except Fault Nat :=
  if cursor.atEnd then cursor.space.totalItems
  else do
    let group ← cursor.groupLinear
    let perGroup ← cursor.space.itemsPerGroup
    let before ← Size.mul group perGroup
    let inGroup ← cursor.localLinear
    Size.add before inGroup

/-- The number of work-items from this one on. -/
def remaining (cursor : Cursor) : Except Fault Nat := do
  let total ← cursor.space.totalItems
  let position ← cursor.position
  Size.sub total position

/-! ## Visiting work-items -/

/-- The identity of the work-item the cursor is on. -/
def item (cursor : Cursor) : ItemId :=
  { localIds := cursor.localIds, groupIds := cursor.groupIds }

/-- The work-item the cursor is on and the cursor one step further, none at the end. -/
def next? (cursor : Cursor) : Option (ItemId × Cursor) :=
  if cursor.atEnd then none else some (cursor.item, cursor.advance 1)

/-- Up to `n` work-items from the cursor on, and the cursor after them. -/
def take (cursor : Cursor) : Nat → List ItemId × Cursor
  | 0 => ([], cursor)
  | n + 1 =>
    match cursor.next? with
    | none => ([], cursor)
    | some (item, following) =>
      let (items, last) := following.take n
      (item :: items, last)

end Cursor

end ComputeCore
