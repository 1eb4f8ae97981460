import ComputeCore.Memory.Heap
/-!
# The bytes of a heap

A heap is what `Heap.byte?` answers at each address, together with the sizes of its blocks. Every change
of a heap is described by what it does to these two.
-/

namespace ComputeCore

/-- The bytes of `old` with `data` put over those from `offset` on. -/
def Bytes.splice (old : Bytes) (offset : Nat) (data : Bytes) : Bytes :=
  old.extract 0 offset ++ data ++ old.extract (offset + data.size) old.size

def Bytes.zeros (size : Nat) : Bytes :=
  Array.replicate size 0

namespace Bytes
variable {old data : Bytes} {offset : Nat}

theorem getElem?_splice (h : offset + data.size ≤ old.size) (i : Nat) :
    (old.splice offset data)[i]? =
      if offset ≤ i ∧ i < offset + data.size then data[i - offset]? else old[i]? := by
  have hstart : (old.extract 0 offset).size = offset := by rw [Array.size_extract]; omega
  have hmiddle : (old.extract 0 offset ++ data).size = offset + data.size := by
    rw [Array.size_append, hstart]
  unfold splice
  by_cases hinside : i < offset + data.size
  · rw [Array.getElem?_append_left (by omega)]
    by_cases hfrom : offset ≤ i
    · rw [Array.getElem?_append_right (by omega), hstart, if_pos ⟨hfrom, hinside⟩]
    · rw [Array.getElem?_append_left (by omega), Array.getElem?_extract, if_pos (by omega),
        if_neg (by omega), Nat.zero_add]
  · rw [Array.getElem?_append_right (by omega), hmiddle, if_neg (by omega), Array.getElem?_extract]
    by_cases hend : i < old.size
    · rw [if_pos (by omega)]
      congr 1
      omega
    · rw [if_neg (by omega), Array.getElem?_eq_none (by omega)]

end Bytes

/-- The addresses of a range. -/
def Region.Holds (region : Region) (address : Address) : Prop :=
  address.block = region.start.block ∧ region.start.offset ≤ address.offset ∧
    address.offset < region.start.offset + region.size

instance (region : Region) (address : Address) : Decidable (region.Holds address) :=
  inferInstanceAs (Decidable (_ ∧ _ ∧ _))

theorem Region.holds_iff {region : Region} {address : Address} :
    region.Holds address ↔ ∃ i, i < region.size ∧ address = region.start.advance i := by
  constructor
  · rintro ⟨hblock, hfrom, hto⟩
    refine ⟨address.offset - region.start.offset, by omega, ?_⟩
    obtain ⟨block, offset⟩ := address
    simp only [Address.advance, Address.mk.injEq] at hblock hfrom ⊢
    exact ⟨hblock, by omega⟩
  · rintro ⟨i, hi, rfl⟩
    exact ⟨rfl, Nat.le_add_right _ _, Nat.add_lt_add_left hi _⟩

theorem Address.advance_advance (address : Address) (distance more : Nat) :
    (address.advance distance).advance more = address.advance (distance + more) := by
  simp only [advance, Nat.add_assoc]

namespace Heap
variable {heap : Heap} {start : Address}

/-- All bytes of a range exist. -/
def Backs (heap : Heap) (region : Region) : Prop :=
  ∀ address, region.Holds address → (heap.byte? address).isSome = true

theorem overwrite_empty (offset : Nat) (bytes : List UInt8) : overwrite #[] offset bytes = #[] :=
  Array.eq_empty_of_size_eq_zero (size_overwrite #[] offset bytes)

/-! ## Blocks -/

theorem block_write (heap : Heap) (start : Address) (bytes : Bytes) (number : Nat) :
    (heap.write start bytes).block number =
      if number = start.block then overwrite (heap.block number) start.offset bytes.toList
      else heap.block number := by
  simp only [block, write, Array.getD_eq_getD_getElem?, Array.getElem?_modify]
  by_cases h : start.block = number
  · rw [if_pos h, if_pos h.symm]
    cases heap.blocks[number]? with
    | none => simp [overwrite_empty]
    | some bytes => rfl
  · rw [if_neg h, if_neg (Ne.symm h)]

theorem block_adopt (heap : Heap) (contents : Bytes) (number : Nat) :
    (heap.adopt contents).2.block number = if number = heap.blocks.size then contents else heap.block number := by
  simp only [block, adopt, Array.getD_eq_getD_getElem?, Array.getElem?_push]
  split <;> rfl

theorem block_release (heap : Heap) (released number : Nat) :
    (heap.release released).block number = if number = released then #[] else heap.block number := by
  simp only [block, release, Array.getD_eq_getD_getElem?, Array.getElem?_setIfInBounds]
  by_cases h : released = number
  · rw [if_pos h, if_pos h.symm]
    split <;> rfl
  · rw [if_neg h, if_neg (Ne.symm h)]

theorem block_of_size_le {number : Nat} (h : heap.blocks.size ≤ number) : heap.block number = #[] := by
  simp [block, Array.getD_eq_getD_getElem?, Array.getElem?_eq_none h]

theorem size_blocks_write (heap : Heap) (start : Address) (bytes : Bytes) :
    (heap.write start bytes).blocks.size = heap.blocks.size :=
  Array.size_modify

theorem size_block_write (heap : Heap) (start : Address) (bytes : Bytes) (number : Nat) :
    ((heap.write start bytes).block number).size = (heap.block number).size := by
  rw [block_write]
  split
  · rw [size_overwrite]
  · rfl

/-! ## Bytes -/

/-- A range that is backed lies in its block. -/
theorem Backs.le_size {region : Region} (h : heap.Backs region) (hne : 0 < region.size) :
    region.start.offset + region.size ≤ (heap.block region.start.block).size := by
  have hlast := h (region.start.advance (region.size - 1)) (Region.holds_iff.2 ⟨_, by omega, rfl⟩)
  simp only [byte?, Address.advance, isSome_getElem?] at hlast
  omega

theorem Backs.of_le_size {region : Region}
    (h : region.start.offset + region.size ≤ (heap.block region.start.block).size) : heap.Backs region := by
  rintro address ⟨hblock, -, hto⟩
  rw [byte?, hblock]
  simp only [isSome_getElem?]
  omega

/-- A write to a backed range decides the bytes of the range and no others. -/
theorem byte?_write {bytes : Bytes} (h : heap.Backs { start, size := bytes.size }) (address : Address) :
    (heap.write start bytes).byte? address =
      if Region.Holds { start, size := bytes.size } address then bytes[address.offset - start.offset]?
      else heap.byte? address := by
  rw [byte?, byte?, block_write]
  by_cases hblock : address.block = start.block
  · rw [if_pos hblock]
    rcases Nat.eq_zero_or_pos bytes.size with hnone | hsome
    · obtain rfl : bytes = #[] := Array.eq_empty_of_size_eq_zero hnone
      rw [if_neg fun hholds => by have := hholds.2; simp at this; omega]
      rfl
    · have hfits : start.offset + bytes.toList.length ≤ (heap.block address.block).size := by
        rw [hblock]
        exact h.le_size hsome
      rw [getElem?_overwrite _ _ _ _ hfits]
      simp [Region.Holds, hblock]
  · rw [if_neg hblock, if_neg fun hholds => hblock hholds.1]

theorem size_read {size : Nat} (h : heap.Backs { start, size }) : (heap.read start size).size = size := by
  rw [read, Array.size_extract]
  rcases Nat.eq_zero_or_pos size with rfl | hpos
  · omega
  · have hfits : start.offset + size ≤ (heap.block start.block).size := h.le_size hpos
    omega

theorem getElem?_read (heap : Heap) (start : Address) (size i : Nat) :
    (heap.read start size)[i]? = if i < size then heap.byte? (start.advance i) else none := by
  simp only [read, byte?, Address.advance, Array.getElem?_extract]
  by_cases hi : i < size
  · rw [if_pos hi]
    by_cases hend : start.offset + i < (heap.block start.block).size
    · rw [if_pos (by omega)]
    · rw [if_neg (by omega), Array.getElem?_eq_none (by omega)]
  · rw [if_neg hi, if_neg (by omega)]

theorem isSome_byte? (heap : Heap) (address : Address) :
    (heap.byte? address).isSome = true ↔ address.offset < (heap.block address.block).size := by
  simp only [byte?, isSome_getElem?]

/-- Only blocks of the heap have bytes. -/
theorem block_lt_of_isSome {address : Address} (h : (heap.byte? address).isSome = true) :
    address.block < heap.blocks.size := by
  refine Nat.lt_of_not_le fun hge => ?_
  rw [byte?, block_of_size_le hge] at h
  simp at h

/-- The blocks of a heap are all there in another one, as large as they were. -/
structure Keeps (heap heap' : Heap) : Prop where
  count : heap.blocks.size ≤ heap'.blocks.size
  sizes : ∀ number, number < heap.blocks.size → (heap'.block number).size = (heap.block number).size

theorem Keeps.refl (heap : Heap) : heap.Keeps heap :=
  ⟨Nat.le_refl _, fun _ _ => rfl⟩

theorem keeps_write (heap : Heap) (start : Address) (bytes : Bytes) : heap.Keeps (heap.write start bytes) where
  count := Nat.le_of_eq (size_blocks_write heap start bytes).symm
  sizes number _ := size_block_write heap start bytes number

theorem Backs.of_keeps {heap' : Heap} {region : Region} (h : heap.Backs region) (hkeeps : heap.Keeps heap') :
    heap'.Backs region := by
  intro address haddress
  have hbyte := h address haddress
  rw [isSome_byte?, hkeeps.sizes _ (block_lt_of_isSome hbyte), ← isSome_byte?]
  exact hbyte

theorem Backs.of_bytes {heap' : Heap} {region : Region} (h : heap.Backs region)
    (hbytes : ∀ address, region.Holds address → heap'.byte? address = heap.byte? address) : heap'.Backs region := by
  intro address haddress
  rw [hbytes address haddress]
  exact h address haddress

theorem read_congr {heap' : Heap} {size : Nat}
    (h : ∀ address, Region.Holds { start, size } address → heap'.byte? address = heap.byte? address) :
    heap'.read start size = heap.read start size := by
  apply Array.ext_getElem?
  intro i
  rw [getElem?_read, getElem?_read]
  by_cases hi : i < size
  · rw [if_pos hi, if_pos hi, h _ (Region.holds_iff.2 ⟨i, hi, rfl⟩)]
  · rw [if_neg hi, if_neg hi]

/-- Part of a range is part of its bytes. -/
theorem read_advance {size distance length : Nat} (h : heap.Backs { start, size })
    (hfits : distance + length ≤ size) :
    heap.read (start.advance distance) length = (heap.read start size).extract distance (distance + length) := by
  have hsize := size_read h
  apply Array.ext_getElem?
  intro i
  rw [getElem?_read, Array.getElem?_extract, getElem?_read, hsize]
  by_cases hi : i < length
  · rw [if_pos hi, if_pos (by omega), if_pos (by omega), Address.advance_advance]
  · rw [if_neg hi, if_neg (by omega)]

theorem Backs.advance {size distance length : Nat} (h : heap.Backs { start, size })
    (hfits : distance + length ≤ size) : heap.Backs { start := start.advance distance, size := length } := by
  intro address haddress
  obtain ⟨i, hi, rfl⟩ := Region.holds_iff.1 haddress
  refine h _ (Region.holds_iff.2 ⟨distance + i, ?_, by rw [Address.advance_advance]⟩)
  exact Nat.lt_of_lt_of_le (Nat.add_lt_add_left hi distance) hfits

/-- Writing over part of a range is splicing its bytes. -/
theorem read_write {size distance : Nat} {bytes : Bytes} (h : heap.Backs { start, size })
    (hfits : distance + bytes.size ≤ size) :
    (heap.write (start.advance distance) bytes).read start size =
      (heap.read start size).splice distance bytes := by
  have hsize := size_read h
  apply Array.ext_getElem?
  intro i
  rw [getElem?_read, Bytes.getElem?_splice (by omega), getElem?_read, byte?_write (h.advance hfits)]
  by_cases hi : i < size
  · rw [if_pos hi, if_pos hi]
    by_cases hrange : distance ≤ i ∧ i < distance + bytes.size
    · rw [if_pos hrange, if_pos ⟨rfl, Nat.add_le_add_left hrange.1 _, by simp only [Address.advance]; omega⟩]
      simp only [Address.advance]
      congr 1
      omega
    · rw [if_neg hrange, if_neg]
      rintro ⟨-, hfrom, hto⟩
      simp only [Address.advance] at hfrom hto
      omega
  · rw [if_neg hi, if_neg hi, if_neg (by omega)]

/-- What was written is read back. -/
theorem read_write_self {bytes : Bytes} (h : heap.Backs { start, size := bytes.size }) :
    (heap.write start bytes).read start bytes.size = bytes := by
  apply Array.ext_getElem?
  intro i
  rw [getElem?_read]
  by_cases hi : i < bytes.size
  · rw [if_pos hi, byte?_write h, if_pos (Region.holds_iff.2 ⟨i, hi, rfl⟩)]
    simp [Address.advance]
  · rw [if_neg hi, Array.getElem?_eq_none (Nat.le_of_not_lt hi)]

/-- A write leaves what it does not meet. -/
theorem read_write_apart {bytes : Bytes} (h : heap.Backs { start, size := bytes.size })
    {start' : Address} {size : Nat} (hapart : ∀ address, Region.Holds { start := start', size } address →
      ¬ Region.Holds { start, size := bytes.size } address) :
    (heap.write start bytes).read start' size = heap.read start' size :=
  read_congr fun address haddress => by rw [byte?_write h, if_neg (hapart address haddress)]

/-! ## Bytes that others leave alone -/

/-- `heap'` has the same bytes as `heap` at the addresses that are `kept`. -/
def Agrees (kept : Address → Prop) (heap heap' : Heap) : Prop :=
  ∀ address, kept address → heap'.byte? address = heap.byte? address

section Agrees
variable {kept : Address → Prop} {heap' heap'' : Heap} {region : Region}

theorem Agrees.refl (kept : Address → Prop) (heap : Heap) : heap.Agrees kept heap :=
  fun _ _ => rfl

theorem Agrees.trans (h : heap.Agrees kept heap') (h' : heap'.Agrees kept heap'') :
    heap.Agrees kept heap'' :=
  fun address hkept => (h' address hkept).trans (h address hkept)

theorem Agrees.read (h : heap.Agrees kept heap') {size : Nat}
    (hkept : ∀ address, Region.Holds { start, size } address → kept address) :
    heap'.read start size = heap.read start size :=
  read_congr fun address haddress => h address (hkept address haddress)

theorem Agrees.backs (h : heap.Agrees kept heap') (hkept : ∀ address, region.Holds address → kept address)
    (hbacks : heap.Backs region) : heap'.Backs region :=
  hbacks.of_bytes fun address haddress => h address (hkept address haddress)

end Agrees

/-! ## One block more -/

/-- The heap has one block more, which holds `contents`. -/
structure Grown (heap heap' : Heap) (contents : Bytes) : Prop where
  size : heap'.blocks.size = heap.blocks.size + 1
  fresh : heap'.block heap.blocks.size = contents
  others : ∀ number, number ≠ heap.blocks.size → heap'.block number = heap.block number

theorem grown_adopt (heap : Heap) (contents : Bytes) : heap.Grown (heap.adopt contents).2 contents where
  size := Array.size_push _
  fresh := by rw [block_adopt, if_pos rfl]
  others number hne := by rw [block_adopt, if_neg hne]

section Grown
variable {heap' : Heap} {contents : Bytes}

theorem Grown.write (h : heap.Grown heap' contents) (offset : Nat) (bytes : Bytes) :
    heap.Grown (heap'.write ⟨heap.blocks.size, offset⟩ bytes) (overwrite contents offset bytes.toList) where
  size := by rw [size_blocks_write, h.size]
  fresh := by rw [block_write, if_pos rfl, h.fresh]
  others number hne := by rw [block_write, if_neg hne, h.others number hne]

/-- A byte that exists stays where it is. -/
theorem Grown.byte?_of_isSome (h : heap.Grown heap' contents) {address : Address}
    (hbyte : (heap.byte? address).isSome = true) : heap'.byte? address = heap.byte? address := by
  rw [byte?, byte?, h.others _ (Nat.ne_of_lt (block_lt_of_isSome hbyte))]

theorem Grown.keeps (h : heap.Grown heap' contents) : heap.Keeps heap' where
  count := by rw [h.size]; exact Nat.le_succ _
  sizes number hlt := by rw [h.others number (Nat.ne_of_lt hlt)]

end Grown

end Heap

end ComputeCore
