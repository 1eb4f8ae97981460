import ComputeCore.Memory.Heap
/-!
# Image layouts

An image is `depth` slices of `height` rows of `width` elements. On the device its rows lie tightly
packed. The host data it is filled from may space rows and slices further apart, or closer
together; a host pitch of zero means tightly packed.
-/

namespace ComputeCore

/-- The identity of a memory object. -/
structure ObjectId where
  raw : Nat
  deriving DecidableEq, Inhabited

/-- The identity as it reads in messages. -/
def ObjectId.describe (id : ObjectId) : String :=
  s!"mem#{id.raw}"

/-- The geometry of an image. -/
structure ImageLayout where
  width : Nat
  height : Nat
  depth : Nat
  elementSize : Nat
  /-- Bytes from one row of the host data to the next, zero for none between them. -/
  hostRowPitch : Nat := 0
  /-- Bytes from one slice of the host data to the next, zero for none between them. -/
  hostSlicePitch : Nat := 0
  /-- The buffer a one-dimensional image was made over. -/
  buffer : Option ObjectId := none
  deriving DecidableEq, Inhabited

namespace ImageLayout

/-- The layout of an image of this shape: a missing height or depth counts as one. -/
def ofShape (width height depth elementSize : Nat) : ImageLayout :=
  { width, height := max height 1, depth := max depth 1, elementSize }

/-- The bytes of one row on the device. -/
def rowBytes (layout : ImageLayout) : Except Fault Nat :=
  Size.mul layout.width layout.elementSize

/-- Bytes from one row of the host data to the next. -/
def rowPitch (layout : ImageLayout) : Except Fault Nat :=
  if layout.hostRowPitch = 0 then layout.rowBytes else .ok layout.hostRowPitch

/-- Bytes from one slice of the host data to the next. -/
def slicePitch (layout : ImageLayout) : Except Fault Nat :=
  if layout.hostSlicePitch = 0 then do
    let row ← layout.rowPitch
    Size.mul row layout.height
  else .ok layout.hostSlicePitch

/-- The bytes of the image on the device. -/
def size (layout : ImageLayout) : Except Fault Nat := do
  let row ← layout.rowBytes
  let slice ← Size.mul row layout.height
  Size.mul slice layout.depth

/-- The host bytes a row-by-row upload reads. -/
def hostSize (layout : ImageLayout) : Except Fault Nat := do
  if (← layout.size) = 0 then return 0
  let slicesBefore ← Size.sub layout.depth 1
  let slices ← Size.mul slicesBefore (← layout.slicePitch)
  let rowsBefore ← Size.sub layout.height 1
  let rows ← Size.mul rowsBefore (← layout.rowPitch)
  let lastRow ← Size.add slices rows
  Size.add lastRow (← layout.rowBytes)

/-- Where row `y` of slice `z` starts in the host data. -/
def hostOffset (layout : ImageLayout) (z y : Nat) : Except Fault Nat := do
  let slices ← Size.mul z (← layout.slicePitch)
  let rows ← Size.mul y (← layout.rowPitch)
  Size.add slices rows

/-- Where row `y` of slice `z` starts on the device, for rows of `row` bytes. -/
def deviceOffset (layout : ImageLayout) (row z y : Nat) : Except Fault Nat := do
  let rowsBefore ← Size.mul z layout.height
  let rows ← Size.add rowsBefore y
  Size.mul rows row

/-- The rows of the image as pairs of slice and row number, in storage order. -/
def rows (layout : ImageLayout) : List (Nat × Nat) :=
  (List.range layout.depth).flatMap fun z => (List.range layout.height).map fun y => (z, y)

end ImageLayout

end ComputeCore
