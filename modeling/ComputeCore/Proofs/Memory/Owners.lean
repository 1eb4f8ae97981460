import ComputeCore.Proofs.Memory.Coherence
import ComputeCore.Proofs.Memory.Layout
import ComputeCore.Proofs.Memory.Roots
/-!
# Who owns which block

An object with storage of its own has a block of the heap to itself, as large as the object, whatever the host
lends: a new owner gets a new block, and blocks keep their numbers and sizes until they are given back
(`keeps_perform`).
-/

namespace ComputeCore.GlobalMemory

/-- The object has this block of the heap for its own. -/
def Owns (memory : GlobalMemory) (object : ObjectId) (number : Nat) : Prop :=
  ∃ mapping, memory.mappings.find? object = some mapping ∧ mapping.storage = .owned ∧
    mapping.start.block = number

/-- Owned blocks are whole, and no two objects own the same one. -/
structure OwnBlocks (memory : GlobalMemory) : Prop where
  whole : ∀ id mapping, memory.mappings.find? id = some mapping → mapping.storage = .owned →
    mapping.start.block < memory.heap.blocks.size ∧ mapping.start.offset = 0 ∧
      (memory.heap.block mapping.start.block).size = mapping.size
  apart : ∀ id other number, memory.Owns id number → memory.Owns other number → id = other

/-- If the object stands on storage lent by the host, the host has as many bytes there as were mapped. -/
def HostHolds (memory : GlobalMemory) (object : ObjectId) : Prop :=
  ∀ root base, memory.IsRoot root base → base.storage = .lent → memory.Below root object →
    memory.heap.Backs (regionOf base)

section Owners
variable {memory memory' : GlobalMemory} {object id : ObjectId} {gone : List ObjectId} {number : Nat}
  {mapping : Mapping}

theorem Owns.mono (h : memory'.Owns id number)
    (hsub : ∀ mapping, memory'.mappings.find? id = some mapping → memory.mappings.find? id = some mapping) :
    memory.Owns id number := by
  obtain ⟨mapping, hfound, hplace⟩ := h
  exact ⟨mapping, hsub mapping hfound, hplace⟩

/-- What is mapped inside another object owns nothing. -/
theorem Owns.eq_top (h : memory.Owns id number) (hbelow : memory.Below object id) : id = object := by
  obtain ⟨mapping, hfound, hstorage, -⟩ := h
  cases hbelow with
  | self => rfl
  | inside _ hfound' hstorage' =>
    obtain rfl := Option.some.inj (hfound.symm.trans hfound')
    rw [hstorage] at hstorage'
    cases hstorage'

theorem OwnBlocks.lt (h : memory.OwnBlocks) (howns : memory.Owns id number) : number < memory.heap.blocks.size := by
  obtain ⟨mapping, hfound, hstorage, rfl⟩ := howns
  exact (h.whole id mapping hfound hstorage).1

/-- Every byte of a mapped object exists, if the host keeps to what it lent. -/
theorem OwnBlocks.backs (h : memory.OwnBlocks) (hcoherent : memory.Coherent)
    (hfound : memory.mappings.find? id = some mapping) (hheld : memory.HostHolds id) :
    memory.heap.Backs (regionOf mapping) := by
  obtain ⟨root, base, hroot, hbelow⟩ := hcoherent.rooted id mapping hfound
  obtain ⟨distance, hstart, hfits⟩ := hcoherent.within hroot hbelow hfound
  have hbase : memory.heap.Backs (regionOf base) := by
    cases hstorage : base.storage with
    | inside parent => exact absurd hstorage (hroot.2 parent)
    | lent => exact hheld root base hroot hstorage hbelow
    | owned =>
      obtain ⟨-, hoffset, hsize⟩ := h.whole root base hroot.1 hstorage
      apply Heap.Backs.of_le_size
      simp only [regionOf, hoffset, hsize]
      omega
  have hpart := Heap.Backs.advance hbase hfits
  rwa [← hstart] at hpart

/-! ## What a release does to blocks -/

theorem Owns.of_released (howns : memory'.Owns id number) (h : Released memory memory' gone) :
    memory.Owns id number :=
  howns.mono fun _ hfound => (h.of_find? hfound).2

theorem Owns.released (howns : memory.Owns id number) (h : Released memory memory' gone) (hkept : id ∉ gone) :
    memory'.Owns id number := by
  obtain ⟨mapping, hfound, hplace⟩ := howns
  refine ⟨mapping, ?_, hplace⟩
  rw [h.find?, if_neg hkept, hfound]

theorem Releases.block_of_owns (h : Releases memory memory' object gone) (howns : memory.Owns object number) :
    memory'.heap.block number = #[] := by
  obtain ⟨mapping, hfound, hstorage, rfl⟩ := howns
  rw [h.heap, heapWithout, hfound]
  simp only [if_pos hstorage, Heap.block_release, if_true]

theorem Releases.block_of_not_owns (h : Releases memory memory' object gone) (howns : ¬ memory.Owns object number) :
    memory'.heap.block number = memory.heap.block number := by
  rw [h.heap]
  unfold heapWithout
  split
  · next mapping hfound =>
    split
    · next hstorage => rw [Heap.block_release, if_neg fun heq => howns ⟨mapping, hfound, hstorage, heq.symm⟩]
    · rfl
  · rfl

theorem Releases.size_blocks (h : Releases memory memory' object gone) :
    memory'.heap.blocks.size = memory.heap.blocks.size := by
  rw [h.heap]
  unfold heapWithout
  split
  · split
    · exact Array.size_setIfInBounds
    · rfl
  · rfl

theorem OwnBlocks.release (h : memory.OwnBlocks) (hreleases : Releases memory memory' object gone) :
    memory'.OwnBlocks := by
  constructor
  · intro id mapping hfound hstorage
    obtain ⟨hkept, hfound⟩ := hreleases.tables.of_find? hfound
    obtain ⟨hblock, hoffset, hsize⟩ := h.whole id mapping hfound hstorage
    have hother : ¬ memory.Owns object mapping.start.block := by
      intro howns
      obtain rfl := h.apart id object _ ⟨mapping, hfound, hstorage, rfl⟩ howns
      exact hkept (hreleases.top (isMapped_iff.2 ⟨mapping, hfound⟩))
    rw [hreleases.size_blocks, hreleases.block_of_not_owns hother]
    exact ⟨hblock, hoffset, hsize⟩
  · intro id other number howns howns'
    exact h.apart id other number (howns.of_released hreleases.tables) (howns'.of_released hreleases.tables)

/-! ## Every other call keeps the blocks -/

/-- A transfer writes to a block that is there, or nowhere. -/
theorem keeps_commit {result : Except MemoryError GlobalMemory}
    (h : ∀ after, result = .ok after → after.heap = memory.heap ∨
      ∃ start data, after.heap = memory.heap.write start data) :
    memory.heap.Keeps (memory.commit result).2.heap := by
  cases result with
  | error error => exact .refl _
  | ok after =>
    obtain hsame | ⟨start, data, hwrite⟩ := h after rfl
    · rw [commit, hsame]
      exact .refl _
    · rw [commit, hwrite]
      exact Heap.keeps_write _ _ _

theorem Outcome.keeps {object : MemoryObject} {result : Except MemoryFailure Address}
    (houtcome : memory.Outcome object result memory') : memory.heap.Keeps memory'.heap := by
  cases houtcome with
  | known | orphan | misfit | inside | lent | rejected => exact .refl _
  | broken _ _ _ _ grown => exact grown.keeps
  | owned _ _ _ _ _ grown => exact grown.keeps

theorem keeps_perform (memory : GlobalMemory) (op : MemoryOp) (hop : ∀ object, op ≠ .free object) :
    memory.heap.Keeps (memory.perform op).2.heap := by
  cases op with
  | lend contents => exact (Heap.grown_adopt memory.heap contents).keeps
  | provide => exact ⟨Nat.le_refl _, fun _ _ => rfl⟩
  | map object => exact (memory.map_outcome object).keeps
  | alloc object =>
    rw [perform_alloc]
    exact (memory.map_outcome _).keeps
  | free object => exact absurd rfl (hop object)
  | read => exact .refl _
  | write object offset data =>
    apply keeps_commit
    intro after h
    unfold write at h
    obtain ⟨start, -, hafter⟩ := bind_eq_ok.1 h
    obtain rfl := Except.ok.inj hafter
    exact .inr ⟨start, data, rfl⟩
  | copy source sourceOffset target targetOffset length =>
    apply keeps_commit
    intro after h
    unfold copy at h
    obtain ⟨start, -, hrest⟩ := bind_eq_ok.1 h
    obtain ⟨goal, -, hafter⟩ := bind_eq_ok.1 hrest
    obtain rfl := Except.ok.inj hafter
    exact .inr ⟨goal, memory.heap.read start length, rfl⟩
  | fill object offset pattern length =>
    apply keeps_commit
    intro after h
    unfold fill at h
    obtain ⟨start, -, hrest⟩ := bind_eq_ok.1 h
    split at hrest
    · obtain rfl := Except.ok.inj hrest
      exact .inl rfl
    · split at hrest
      · cases hrest
      · obtain rfl := Except.ok.inj hrest
        exact .inr ⟨start, repeated pattern length, rfl⟩

/-! ## Every state of a run -/

/-- The mappings are the same, and so are the blocks but for their bytes. -/
theorem OwnBlocks.of_keeps (h : memory.OwnBlocks) (hmappings : memory'.mappings = memory.mappings)
    (hkeeps : memory.heap.Keeps memory'.heap) : memory'.OwnBlocks := by
  have hsame : ∀ {id number}, memory'.Owns id number → memory.Owns id number :=
    fun howns => howns.mono fun _ hfound => hmappings ▸ hfound
  constructor
  · intro id mapping hfound hstorage
    rw [hmappings] at hfound
    obtain ⟨hblock, hoffset, hsize⟩ := h.whole id mapping hfound hstorage
    exact ⟨Nat.lt_of_lt_of_le hblock hkeeps.count, hoffset, (hkeeps.sizes _ hblock).trans hsize⟩
  · intro id other number howns howns'
    exact h.apart id other number (hsame howns) (hsame howns')

/-- If a new object is an owner, then of a new block. -/
theorem OwnBlocks.adds (h : memory.OwnBlocks) (hadds : Adds memory memory' id mapping)
    (hkeeps : memory.heap.Keeps memory'.heap)
    (hnew : mapping.storage = .owned → mapping.start = ⟨memory.heap.blocks.size, 0⟩ ∧
      memory.heap.blocks.size < memory'.heap.blocks.size ∧
      (memory'.heap.block memory.heap.blocks.size).size = mapping.size) : memory'.OwnBlocks := by
  have hcases : ∀ {other number}, memory'.Owns other number →
      memory.Owns other number ∨ other = id ∧ number = memory.heap.blocks.size := by
    rintro other number ⟨found, hfound, hstorage, rfl⟩
    rw [hadds.find?] at hfound
    split at hfound
    · next heq =>
      obtain rfl := Option.some.inj hfound
      exact .inr ⟨heq, by rw [(hnew hstorage).1]⟩
    · exact .inl ⟨found, hfound, hstorage, rfl⟩
  constructor
  · intro other found hfound hstorage
    rw [hadds.find?] at hfound
    split at hfound
    · obtain rfl := Option.some.inj hfound
      obtain ⟨hstart, hlt, hsize⟩ := hnew hstorage
      rw [hstart]
      exact ⟨hlt, rfl, hsize⟩
    · obtain ⟨hblock, hoffset, hsize⟩ := h.whole other found hfound hstorage
      exact ⟨Nat.lt_of_lt_of_le hblock hkeeps.count, hoffset, (hkeeps.sizes _ hblock).trans hsize⟩
  · intro other another number howns howns'
    -- An old block does not have the new number.
    rcases hcases howns with hold | ⟨rfl, hfresh⟩ <;> rcases hcases howns' with hold' | ⟨rfl, hfresh'⟩
    · exact h.apart other another number hold hold'
    · have hlt := h.lt hold
      omega
    · have hlt := h.lt hold'
      omega
    · rfl

theorem OwnBlocks.map {object : MemoryObject} {result : Except MemoryFailure Address} (h : memory.OwnBlocks)
    (houtcome : memory.Outcome object result memory') : memory'.OwnBlocks := by
  have hkeeps := houtcome.keeps
  have hfresh : ∀ {heap : Heap} {contents : Bytes}, memory.heap.Grown heap contents →
      contents.size = object.size → memory.heap.blocks.size < heap.blocks.size ∧
        (heap.block memory.heap.blocks.size).size = object.size := by
    intro heap contents hgrown hsize
    rw [hgrown.size, hgrown.fresh]
    exact ⟨Nat.lt_succ_self _, hsize⟩
  cases houtcome with
  | known | orphan | misfit | rejected => exact h
  | inside new => exact h.adds ⟨new, rfl⟩ hkeeps (by simp)
  | lent new => exact h.adds ⟨new, rfl⟩ hkeeps (by simp)
  | broken new _ _ _ grown size => exact h.adds ⟨new, rfl⟩ hkeeps fun _ => ⟨rfl, hfresh grown size⟩
  | owned new _ _ _ _ grown filled => exact h.adds ⟨new, rfl⟩ hkeeps fun _ => ⟨rfl, hfresh grown filled.size⟩

theorem OwnBlocks.perform (h : memory.OwnBlocks) (hlisted : memory.Listed) (op : MemoryOp) :
    (memory.perform op).2.OwnBlocks := by
  by_cases hfree : ∃ object, op = .free object
  · obtain ⟨object, rfl⟩ := hfree
    obtain ⟨gone, hreleases⟩ := free_spec hlisted object
    exact h.release hreleases
  · have hkeeps := memory.keeps_perform op fun object heq => hfree ⟨object, heq⟩
    have hchange := memory.perform_change op
    generalize (memory.perform op).1 = answer at hchange
    generalize (memory.perform op).2 = memory' at hchange hkeeps
    cases hchange with
    | maps call outcome => exact h.map outcome
    | frees call => exact absurd ⟨_, call⟩ hfree
    | moves => exact h.of_keeps rfl hkeeps

theorem ownBlocks_after (capacity : Nat) (ops : List MemoryOp) : (after capacity ops).OwnBlocks := by
  induction ops using List.reverseRecOn with
  | nil =>
    constructor
    · intro id mapping hfound
      cases hfound
    · rintro id other number ⟨mapping, hfound, -⟩
      cases hfound
  | append_singleton ops op ih =>
    rw [after_concat]
    exact ih.perform (coherent_after capacity ops).toListed op

end Owners

end ComputeCore.GlobalMemory
