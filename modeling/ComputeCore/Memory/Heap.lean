import ComputeCore.Size
/-!
# The heap

Storage comes in blocks. An address is a block and an offset into it, so two blocks never share a
byte, and arithmetic on an address never leaves its block. Every view of memory in the runtime is
a range of some block: objects with storage of their own, sub-objects inside their parent's block,
storage lent by the host, and the local arenas of workers.

How large a block the host provides is up to the host, so it is part of the heap.

The main facts are the laws of `Heap.write`: it decides exactly the bytes of its range, and no
write changes the length of a block.
-/

namespace ComputeCore

/-- A sequence of bytes. -/
abbrev Bytes := Array UInt8

/-- A place in the heap. -/
structure Address where
  /-- The block the address lies in. -/
  block : Nat
  /-- How many bytes into the block. -/
  offset : Nat
  deriving DecidableEq, Inhabited

/-- The address `distance` bytes further on. -/
def Address.advance (address : Address) (distance : Nat) : Address :=
  { address with offset := address.offset + distance }

/-- A range of bytes in one block. -/
structure Region where
  start : Address
  size : Nat
  deriving DecidableEq, Inhabited

namespace Region

/-- Whether `size` bytes at `offset` lie inside the region. -/
def covers (region : Region) (offset size : Nat) : Bool :=
  offset + size ≤ region.size

/-- The bytes `[start, start + size)` of two regions meet. -/
def overlaps (a b : Region) : Bool :=
  a.start.block = b.start.block ∧
    a.start.offset < b.start.offset + b.size ∧ b.start.offset < a.start.offset + a.size

end Region

/-- Writes `bytes` over a block from `offset` on. What would fall past its end is dropped. -/
def overwrite (block : Bytes) (offset : Nat) : List UInt8 → Bytes
  | [] => block
  | byte :: bytes => overwrite (block.setIfInBounds offset byte) (offset + 1) bytes

/-- The largest block most hosts provide: one byte less than a quarter of all addresses. -/
def Heap.usualLimit : Fin Size.limit :=
  ⟨0x3FFFFFFFFFFFFFFF, by decide⟩

/-- All blocks, by number. A released block keeps its number and loses its bytes. -/
structure Heap where
  blocks : Array Bytes := #[]
  /-- The size of the largest block the host provides. -/
  blockLimit : Fin Size.limit := Heap.usualLimit
  deriving DecidableEq

instance : Inhabited Heap :=
  ⟨{}⟩

namespace Heap

/-- The boundary every block starts on. -/
def alignment : Nat := 64

/-- The bytes of a block. -/
def block (heap : Heap) (number : Nat) : Bytes :=
  heap.blocks.getD number #[]

/-- The byte at an address, none outside its block. -/
def byte? (heap : Heap) (address : Address) : Option UInt8 :=
  (heap.block address.block)[address.offset]?

/-- A new block with these contents. -/
def adopt (heap : Heap) (contents : Bytes) : Address × Heap :=
  ({ block := heap.blocks.size, offset := 0 }, { heap with blocks := heap.blocks.push contents })

/-- A new block of zeros, none if the host cannot provide one of this size. -/
def allocate? (heap : Heap) (size : Nat) : Option (Address × Heap) :=
  if size ≤ heap.blockLimit then some (heap.adopt (Array.replicate size 0)) else none

/-- Gives the bytes of a block back to the host. -/
def release (heap : Heap) (number : Nat) : Heap :=
  { heap with blocks := heap.blocks.setIfInBounds number #[] }

/-- The `size` bytes from an address on. -/
def read (heap : Heap) (start : Address) (size : Nat) : Bytes :=
  (heap.block start.block).extract start.offset (start.offset + size)

/-- Puts `bytes` at an address. -/
def write (heap : Heap) (start : Address) (bytes : Bytes) : Heap :=
  { heap with blocks := heap.blocks.modify start.block (overwrite · start.offset bytes.toList) }

/-- Moves `size` bytes from one address to another; the ranges may overlap. -/
def copy (heap : Heap) (source target : Address) (size : Nat) : Heap :=
  heap.write target (heap.read source size)

end Heap

/-! ## What a write changes -/

theorem size_overwrite (block : Bytes) (offset : Nat) (bytes : List UInt8) :
    (overwrite block offset bytes).size = block.size := by
  induction bytes generalizing block offset with
  | nil => rfl
  | cons byte bytes ih => simp [overwrite, ih]

/-- A byte of an overwritten block is the new one inside the range and the old one outside. -/
theorem getElem?_overwrite (block : Bytes) (offset : Nat) (bytes : List UInt8) (i : Nat)
    (h : offset + bytes.length ≤ block.size) :
    (overwrite block offset bytes)[i]? =
      if offset ≤ i ∧ i < offset + bytes.length then bytes[i - offset]? else block[i]? := by
  induction bytes generalizing block offset with
  | nil =>
    have : ¬ (offset ≤ i ∧ i < offset) := by omega
    simp [overwrite, this]
  | cons byte bytes ih =>
    simp only [List.length_cons] at h
    rw [overwrite, ih _ _ (by simp; omega)]
    by_cases hi : i = offset
    · subst hi
      have hlt : i < block.size := by omega
      rw [if_neg (by omega), if_pos (by simp), Array.getElem?_setIfInBounds_self_of_lt hlt]
      simp
    · rw [Array.getElem?_setIfInBounds_ne (by omega)]
      by_cases hr : offset + 1 ≤ i ∧ i < offset + 1 + bytes.length
      · have hs : i - offset = (i - (offset + 1)) + 1 := by omega
        rw [if_pos hr, if_pos (by simp only [List.length_cons]; omega), hs,
          List.getElem?_cons_succ]
      · rw [if_neg hr, if_neg (by simp only [List.length_cons]; omega)]

end ComputeCore
