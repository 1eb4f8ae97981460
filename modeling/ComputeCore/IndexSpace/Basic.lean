import ComputeCore.IndexSpace.Radix
/-!
# Index spaces

A kernel dispatch runs one work-item for every point of a box of one to three dimensions. The box
is cut into equal work-groups: each dimension has a global size, a group-local size that divides
it, and an offset added to the global ids.

`IndexSpace.make` accepts exactly the descriptions with one to three dimensions, three size lists
of equal length, no zero size, and local sizes that divide the global ones. Queries about a
dimension the space does not have answer zero.
-/

namespace ComputeCore

/-- The most dimensions an index space may have. -/
def maxDims : Nat := 3

/-- One dimension of an index space. -/
structure Axis where
  /-- Work-items along this dimension. -/
  globalSize : Nat
  /-- Work-items of one group along this dimension. -/
  localSize : Nat
  /-- What the global ids of this dimension start from. -/
  offset : Nat
  deriving DecidableEq, Inhabited

/-- The number of work-groups along a dimension. -/
def Axis.groups (axis : Axis) : Nat :=
  axis.globalSize / axis.localSize

/-- A box of work-items cut into work-groups, dimension 0 first. -/
structure IndexSpace where
  axes : List Axis
  deriving DecidableEq, Inhabited

namespace IndexSpace

/-- Why a description is not an index space. -/
inductive Error where
  | invalidDims (dims : Nat)
  | lengthMismatch (dims localDims offsetDims : Nat)
  | zeroSize (dim : Nat)
  | notDivisible (dim globalSize localSize : Nat)
  deriving DecidableEq, Inhabited

/-- The text a rejection is reported with. -/
def Error.message : Error → String
  | .invalidDims dims => s!"invalid work dimension {dims}: expected 1, 2 or 3"
  | .lengthMismatch dims localDims offsetDims =>
    s!"dimension count mismatch: global has {dims}, local has {localDims}, offset has {offsetDims}"
  | .zeroSize dim => s!"zero-sized dimension {dim}"
  | .notDivisible dim globalSize localSize =>
    s!"global size {globalSize} is not a multiple of local size {localSize} in dimension {dim}"

/-- The dimensions from `dim` on, checked one after the other. -/
def makeAxes (dim : Nat) : List Nat → List Nat → List Nat → Except Error (List Axis)
  | globalSize :: globals, localSize :: locals, offset :: offsets =>
    if globalSize = 0 ∨ localSize = 0 then .error (.zeroSize dim)
    else if globalSize % localSize ≠ 0 then .error (.notDivisible dim globalSize localSize)
    else do
      let rest ← makeAxes (dim + 1) globals locals offsets
      .ok ({ globalSize, localSize, offset } :: rest)
  | _, _, _ => .ok []

/-- The index space with these global sizes, local sizes and offsets. -/
def make (globals locals offsets : List Nat) : Except Error IndexSpace :=
  if globals.length = 0 ∨ maxDims < globals.length then .error (.invalidDims globals.length)
  else if locals.length ≠ globals.length ∨ offsets.length ≠ globals.length then
    .error (.lengthMismatch globals.length locals.length offsets.length)
  else do
    let axes ← makeAxes 0 globals locals offsets
    .ok { axes }

/-- A one-dimensional index space without offset. -/
def linear (globalSize localSize : Nat) : Except Error IndexSpace :=
  make [globalSize] [localSize] [0]

/-- The index space of a task: one work-item in one group. -/
def single : IndexSpace :=
  { axes := [{ globalSize := 1, localSize := 1, offset := 0 }] }

/-! ## Queries -/

/-- The number of dimensions. -/
def dims (space : IndexSpace) : Nat :=
  space.axes.length

/-- What `f` says about dimension `dim`, zero if there is no such dimension. -/
def query (space : IndexSpace) (f : Axis → Nat) (dim : Nat) : Nat :=
  (space.axes[dim]?.map f).getD 0

/-- The global size of a dimension. -/
def globalSize (space : IndexSpace) (dim : Nat) : Nat :=
  space.query Axis.globalSize dim

/-- The group-local size of a dimension. -/
def localSize (space : IndexSpace) (dim : Nat) : Nat :=
  space.query Axis.localSize dim

/-- The global offset of a dimension. -/
def globalOffset (space : IndexSpace) (dim : Nat) : Nat :=
  space.query Axis.offset dim

/-- The number of work-groups along a dimension. -/
def numGroups (space : IndexSpace) (dim : Nat) : Nat :=
  space.query Axis.groups dim

/-- The group-local sizes, the radices of local ids. -/
def localSizes (space : IndexSpace) : List Nat :=
  space.axes.map Axis.localSize

/-- The group counts, the radices of group ids. -/
def groupCounts (space : IndexSpace) : List Nat :=
  space.axes.map Axis.groups

/-- The number of work-items in every work-group. -/
def itemsPerGroup (space : IndexSpace) : Except Fault Nat :=
  Size.product space.localSizes

/-- The number of work-groups. -/
def totalGroups (space : IndexSpace) : Except Fault Nat :=
  Size.product space.groupCounts

/-- The number of work-items. -/
def totalItems (space : IndexSpace) : Except Fault Nat :=
  Size.product (space.axes.map Axis.globalSize)

end IndexSpace

end ComputeCore
