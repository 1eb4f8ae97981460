import ComputeCore.Proofs.Memory.Coherence
/-!
# Roots share no bytes

An object that is not part of another one has its bytes to itself, as long as the host lends storage that
is in no other use. `Apart` says so, and is kept by every call; what is left of a released block is in no
root's way.
-/

namespace ComputeCore.GlobalMemory

def regionOf (mapping : Mapping) : Region :=
  { start := mapping.start, size := mapping.size }

/-- Every byte of a root exists, and belongs to no other root. -/
structure Apart (memory : GlobalMemory) : Prop where
  backed : ∀ root base, memory.IsRoot root base → memory.heap.Backs (regionOf base)
  apart : ∀ root base other base', memory.IsRoot root base → memory.IsRoot other base' → root ≠ other →
    ∀ address, (regionOf base).Holds address → ¬ (regionOf base').Holds address
  /-- An owned block is its owner's from the first byte to the last. -/
  owned : ∀ id mapping, memory.mappings.find? id = some mapping → mapping.storage = .owned →
    mapping.start.block < memory.heap.blocks.size ∧ mapping.start.offset = 0 ∧
      (memory.heap.block mapping.start.block).size = mapping.size

/-- The storage lent for an object that is going to be mapped over it exists, and is in no other use. -/
def HostApart (memory : GlobalMemory) (op : MemoryOp) : Prop :=
  ∀ object storage, op = .map object → memory.mappings.find? object.id = none → object.parent = none →
    object.flavor = .hostOwned storage → memory.heap.Backs { start := storage, size := object.size } ∧
      ∀ id mapping, memory.mappings.find? id = some mapping → ∀ address,
        Region.Holds { start := storage, size := object.size } address → ¬ (regionOf mapping).Holds address

section Apart
variable {memory memory' : GlobalMemory} {id root : ObjectId} {mapping base : Mapping}

theorem IsRoot.of_adds (hadds : Adds memory memory' id mapping) (h : memory'.IsRoot root base) :
    (root = id ∧ base = mapping) ∨ memory.IsRoot root base := by
  obtain ⟨hfound, hroot⟩ := h
  rw [hadds.find?] at hfound
  split at hfound
  · next heq => exact .inl ⟨heq, (Option.some.inj hfound).symm⟩
  · exact .inr ⟨hfound, hroot⟩

theorem IsRoot.adds (hadds : Adds memory memory' id mapping) (h : memory.IsRoot root base) :
    memory'.IsRoot root base :=
  ⟨hadds.keeps h.1, h.2⟩

theorem apart_empty (h : ∀ id, memory.mappings.find? id = none) : memory.Apart := by
  constructor
  · simp [IsRoot, h]
  · simp [IsRoot, h]
  · simp [h]

theorem Apart.of_tables (h : memory.Apart) (hmappings : memory'.mappings = memory.mappings)
    (hheap : memory.heap.Keeps memory'.heap) : memory'.Apart := by
  constructor
  · intro root base hroot
    rw [IsRoot, hmappings] at hroot
    exact (h.backed root base hroot).of_keeps hheap
  · intro root base other base' hroot hother
    rw [IsRoot, hmappings] at hroot hother
    exact h.apart root base other base' hroot hother
  · intro id mapping hfound hstorage
    rw [hmappings] at hfound
    obtain ⟨hblock, hoffset, hsize⟩ := h.owned id mapping hfound hstorage
    exact ⟨Nat.lt_of_lt_of_le hblock hheap.count, hoffset, (hheap.sizes _ hblock).trans hsize⟩

/-- A new object that is a root must have its bytes to itself. -/
theorem Apart.adds (h : memory.Apart) (hadds : Adds memory memory' id mapping)
    (hheap : memory.heap.Keeps memory'.heap)
    (hnew : (∀ parent, mapping.storage ≠ .inside parent) → memory'.heap.Backs (regionOf mapping) ∧
      ∀ root base, memory.IsRoot root base → ∀ address, (regionOf mapping).Holds address →
        ¬ (regionOf base).Holds address)
    (howned : mapping.storage = .owned → mapping.start.block < memory'.heap.blocks.size ∧
      mapping.start.offset = 0 ∧ (memory'.heap.block mapping.start.block).size = mapping.size) :
    memory'.Apart := by
  constructor
  · intro root base hroot
    rcases IsRoot.of_adds hadds hroot with ⟨-, rfl⟩ | hold
    · exact (hnew hroot.2).1
    · exact (h.backed root base hold).of_keeps hheap
  · intro root base other base' hroot hother hne address haddress haddress'
    rcases IsRoot.of_adds hadds hroot with ⟨rfl, rfl⟩ | hold <;>
      rcases IsRoot.of_adds hadds hother with ⟨rfl, rfl⟩ | hold'
    · exact hne rfl
    · exact (hnew hroot.2).2 other base' hold' address haddress haddress'
    · exact (hnew hother.2).2 root base hold address haddress' haddress
    · exact h.apart root base other base' hold hold' hne address haddress haddress'
  · intro other found hfound hstorage
    rw [hadds.find?] at hfound
    split at hfound
    · obtain rfl := Option.some.inj hfound
      exact howned hstorage
    · obtain ⟨hblock, hoffset, hsize⟩ := h.owned other found hfound hstorage
      exact ⟨Nat.lt_of_lt_of_le hblock hheap.count, hoffset, (hheap.sizes _ hblock).trans hsize⟩

/-- A fresh block is in nobody's way. -/
theorem Apart.addsFresh {contents : Bytes} {size : Nat} (h : memory.Apart)
    (hadds : Adds memory memory' id { start := ⟨memory.heap.blocks.size, 0⟩, size, storage := .owned })
    (hgrown : memory.heap.Grown memory'.heap contents) (hsize : contents.size = size) : memory'.Apart := by
  subst hsize
  refine h.adds hadds hgrown.keeps (fun _ => ⟨?_, ?_⟩) fun _ => ⟨?_, rfl, ?_⟩
  · refine Heap.Backs.of_le_size ?_
    simp only [regionOf, hgrown.fresh]
    omega
  · intro root base hroot address haddress hheld
    have hlt := Heap.block_lt_of_isSome (h.backed root base hroot address hheld)
    rw [haddress.1] at hlt
    exact Nat.lt_irrefl _ hlt
  · simp only [hgrown.size]
    omega
  · simp only [hgrown.fresh]

/-! ## Blocks that are given back -/

section Release
variable {gone : List ObjectId} {object : ObjectId}

theorem IsRoot.of_released (h : Releases memory memory' object gone) (hroot : memory'.IsRoot root base) :
    root ∉ gone ∧ memory.IsRoot root base :=
  ⟨(h.tables.of_find? hroot.1).1, (h.tables.of_find? hroot.1).2, hroot.2⟩

/-- The block of a root is no other root's. -/
theorem Apart.not_in_block {owner : Mapping} {address : Address} (h : memory.Apart)
    (howner : memory.mappings.find? object = some owner) (hstorage : owner.storage = .owned)
    (hroot : memory.IsRoot root base) (hne : root ≠ object) (haddress : (regionOf base).Holds address) :
    address.block ≠ owner.start.block := by
  intro hblock
  obtain ⟨-, hoffset, hsize⟩ := h.owned object owner howner hstorage
  have hbyte := h.backed root base hroot address haddress
  rw [Heap.isSome_byte?, hblock, hsize] at hbyte
  refine h.apart root base object owner hroot ⟨howner, by simp [hstorage]⟩ hne address haddress ?_
  exact ⟨hblock, by simp [regionOf, hoffset], by simpa [regionOf, hoffset] using hbyte⟩

/-- A release leaves the bytes of all other roots. -/
theorem Apart.byte?_release {address : Address} (h : memory.Apart) (hreleases : Releases memory memory' object gone)
    (hroot : memory.IsRoot root base) (hkept : root ∉ gone) (haddress : (regionOf base).Holds address) :
    memory'.heap.byte? address = memory.heap.byte? address := by
  rw [hreleases.heap]
  unfold heapWithout
  split
  · next owner howner =>
    split
    · next hstorage =>
      have hne : root ≠ object := fun heq =>
        hkept (heq ▸ hreleases.top (isMapped_iff.2 ⟨owner, howner⟩))
      have hblock := h.not_in_block howner hstorage hroot hne haddress
      rw [Heap.byte?, Heap.block_release, if_neg hblock, Heap.byte?]
    · rfl
  · rfl

theorem Apart.release (h : memory.Apart) (hreleases : Releases memory memory' object gone) : memory'.Apart := by
  constructor
  · intro root base hroot
    obtain ⟨hkept, hold⟩ := hroot.of_released hreleases
    exact (h.backed root base hold).of_bytes fun address => h.byte?_release hreleases hold hkept
  · intro root base other base' hroot hother
    exact h.apart root base other base' (hroot.of_released hreleases).2 (hother.of_released hreleases).2
  · intro id mapping hfound hstorage
    obtain ⟨hkept, hfound⟩ := hreleases.tables.of_find? hfound
    obtain ⟨hblock, hoffset, hsize⟩ := h.owned id mapping hfound hstorage
    rw [hreleases.heap]
    unfold heapWithout
    split
    · next owner howner =>
      split
      · next howned =>
        refine ⟨by simpa [Heap.release] using hblock, hoffset, ?_⟩
        rw [Heap.block_release]
        split
        · -- Two owners of one block have no byte between them.
          next hsame =>
          have hne : id ≠ object := fun heq => hkept (heq ▸ hreleases.top (isMapped_iff.2 ⟨owner, howner⟩))
          rcases Nat.eq_zero_or_pos mapping.size with hzero | hpos
          · simp [hzero]
          · have hstart : (regionOf mapping).Holds mapping.start := Region.holds_iff.2 ⟨0, hpos, rfl⟩
            exact absurd hsame (h.not_in_block howner howned ⟨hfound, by simp [hstorage]⟩ hne hstart)
        · exact hsize
      · exact ⟨hblock, hoffset, hsize⟩
    · exact ⟨hblock, hoffset, hsize⟩

end Release

end Apart

end ComputeCore.GlobalMemory
