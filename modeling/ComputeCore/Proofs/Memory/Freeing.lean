import ComputeCore.Proofs.Memory.Accounting
import ComputeCore.Proofs.Memory.Owners
import ComputeCore.Proofs.Memory.Refinement
/-!
# What freeing gives back

Freeing an object takes away the object and what is mapped inside it, at any depth, and nothing else. Of the
bytes it takes one block at most, the object's own. Which objects go and which blocks is decided by the
mappings before the first call, so the order of several calls does not matter (`FreesAll.alike`).

Blocks are numbered in the order they are made, and no number is used again. Memory after a call and memory
after a mapping that was taken back are therefore compared block by block (`Alike`), not by the length of the
heap.
-/

namespace ComputeCore.GlobalMemory

/-! ## What is stated -/

/-- The release of the listed objects, one after the other, comes to an end. A mapping is taken out before the
objects listed inside it are released, and its bytes are given back after them. -/
inductive Releasing : GlobalMemory → List ObjectId → GlobalMemory → Prop
  | done {memory} : Releasing memory [] memory
  | skip {memory memory' object rest} (unmapped : memory.mappings.find? object = none)
      (later : Releasing memory rest memory') : Releasing memory (object :: rest) memory'
  | free {memory emptied memory' object mapping rest} (found : memory.mappings.find? object = some mapping)
      (inside : Releasing (memory.takeOut object) (memory.subObjects.findD object []) emptied)
      (room : emptied.available + charge mapping < Size.limit)
      (later : Releasing (emptied.finish object mapping) rest memory') :
      Releasing memory (object :: rest) memory'

/-- The host keeps storage alive for as long as it is lent: if another object stands on such storage, it is not
part of the block that `object` gives back. -/
def KeptAlive (memory : GlobalMemory) (object other : ObjectId) : Prop :=
  ∀ root base, memory.IsRoot root base → base.storage = .lent → memory.Below root other → 0 < base.size →
    ¬ memory.Owns object base.start.block

/-- What freeing an object does, and what it leaves alone. -/
structure Frees (memory : GlobalMemory) (object : ObjectId) (gone : List ObjectId) : Prop where
  terminates : memory.Releasing [object] (memory.free object)
  aliases : ∀ id, id ∈ gone ↔ memory.Below object id
  /-- The others keep their address and size. -/
  mappings : ∀ id, (memory.free object).mappings.find? id =
    if id ∈ gone then none else memory.mappings.find? id
  subObjects : ∀ parent, (memory.free object).subObjects.findD parent [] =
    if parent ∈ gone then [] else (memory.subObjects.findD parent []).filter (· ∉ gone)
  attachments : ∀ buffer, (memory.free object).attachedImages buffer =
    if buffer ∈ gone then [] else (memory.attachedImages buffer).filter (· ∉ gone)
  /-- The others keep their bytes. -/
  contents : ∀ id, id ∉ gone → memory.KeptAlive object id →
    ∀ i, (memory.free object).byteAt? id i = memory.byteAt? id i
  owned : ∀ mapping, memory.mappings.find? object = some mapping → mapping.storage = .owned →
    (memory.free object).available = memory.available + mapping.size
  unowned : memory.OwnsNothing object → (memory.free object).available = memory.available
  capacity : (memory.free object).capacity = memory.capacity

/-- The two memories have the same tables, but for the order of their entries, and the same bytes at every
address. -/
structure Alike (memory memory' : GlobalMemory) : Prop where
  capacity : memory.capacity = memory'.capacity
  available : memory.available = memory'.available
  mappings : ∀ id, memory.mappings.find? id = memory'.mappings.find? id
  subObjects : ∀ parent, memory.subObjects.find? parent = memory'.subObjects.find? parent
  attachments : ∀ buffer, memory.attachments.find? buffer = memory'.attachments.find? buffer
  blocks : ∀ number, memory.heap.block number = memory'.heap.block number

/-- All calls of `free` in this state give back what their object was given, and no more. -/
structure ReleasesExactly (memory : GlobalMemory) : Prop where
  frees : ∀ object, ∃ gone, memory.Frees object gone
  commutes : ∀ object other, Alike ((memory.free object).free other) ((memory.free other).free object)
  restores : ∀ object start memory', memory.isMapped object.id = false → memory.map object = (.ok start, memory') →
    Alike (memory'.free object.id) memory
  empties : ∀ objects : List ObjectId, (∀ id, memory.isMapped id = true → id ∈ objects) →
    (objects.foldl free memory).available = memory.capacity ∧ (objects.foldl free memory).mappings = {} ∧
      (objects.foldl free memory).subObjects = {} ∧ (objects.foldl free memory).attachments = {}

section Freeing
variable {memory memory' : GlobalMemory} {object id : ObjectId} {gone : List ObjectId} {depth number : Nat}

/-! ## The end of a release -/

/-- Objects without storage of their own are released one after the other. By induction on the list, with
what a single release does as the hypothesis. -/
theorem releasing_foldl (hone : ∀ memory object rest memory', Listed memory → memory.mappings.size ≤ depth →
      memory.available + memory.chargeOf object < Size.limit →
      Releasing (releaseTo depth memory object) rest memory' → Releasing memory (object :: rest) memory')
    (ids : List ObjectId) (hlisted : memory.Listed) (hdepth : memory.mappings.size ≤ depth)
    (hids : ∀ id ∈ ids, memory.OwnsNothing id) (hroom : memory.available < Size.limit) :
    memory.Releasing ids (ids.foldl (releaseTo depth) memory) := by
  induction ids generalizing memory with
  | nil => exact .done
  | cons id ids ih =>
    have hown : memory.chargeOf id = 0 := chargeOf_eq_zero (hids id List.mem_cons_self)
    obtain ⟨gone, hfirst⟩ := releaseTo_spec depth memory id hlisted hdepth
    apply hone memory id ids _ hlisted hdepth (by rwa [hown, Nat.add_zero])
    apply ih (hfirst.tables.listed hlisted)
    · rw [hfirst.tables.mappings]
      exact Nat.le_trans (Dict.size_without_le _ _) hdepth
    · intro other hother mapping hmapping
      exact hids other (List.mem_cons_of_mem _ hother) mapping (hfirst.tables.of_find? hmapping).2
    · rwa [hfirst.available, hown, Nat.add_zero]

/-- The depth is never used up, and no sum wraps. By induction on the depth. -/
theorem releasing_releaseTo (depth : Nat) (memory : GlobalMemory) (object : ObjectId) (rest : List ObjectId)
    (memory' : GlobalMemory) (hlisted : memory.Listed) (hdepth : memory.mappings.size ≤ depth)
    (hroom : memory.available + memory.chargeOf object < Size.limit)
    (hlater : Releasing (releaseTo depth memory object) rest memory') : memory.Releasing (object :: rest) memory' := by
  induction depth generalizing memory object rest memory' with
  | zero =>
    have hempty : memory.mappings.entries = [] := List.length_eq_zero_iff.1 (Nat.le_zero.1 hdepth)
    exact .skip (by simp [Dict.find?, hempty, Dict.search]) hlater
  | succ depth ih =>
    cases hobject : memory.mappings.find? object with
    | none =>
      rw [releaseTo_of_unmapped _ hobject] at hlater
      exact .skip hobject hlater
    | some mapping =>
      rw [chargeOf_of_find? hobject] at hroom
      rw [releaseTo_succ depth hobject] at hlater
      have hinside : ∀ id ∈ memory.subObjects.findD object [], (memory.takeOut object).OwnsNothing id := by
        intro id hid found hfound
        simp [hlisted.inside hid (find?_of_takeOut hfound)]
      have hsmaller := size_takeOut_lt hobject
      obtain ⟨gone, hall⟩ := releasesAll_foldl (releaseTo_spec depth) (memory.subObjects.findD object [])
        (hlisted.takeOut object) (by omega) hinside
      refine .free hobject (releasing_foldl ih _ (hlisted.takeOut object) (by omega) hinside ?_) ?_ hlater
      · exact Nat.lt_of_le_of_lt (Nat.le_add_right _ _) hroom
      · -- Nothing inside gave anything back, so there is as much room as at the start.
        rw [hall.available]
        exact hroom

/-! ## One release -/

/-- An object that stays keeps its bytes: its root has another block, or the host keeps it alive. -/
theorem Releases.byteAt? (h : Releases memory memory' object gone) (hcoherent : memory.Coherent)
    (howners : memory.OwnBlocks) (hkept : id ∉ gone) (halive : memory.KeptAlive object id) (i : Nat) :
    memory'.byteAt? id i = memory.byteAt? id i := by
  unfold GlobalMemory.byteAt?
  rw [h.tables.find?, if_neg hkept]
  cases hfound : memory.mappings.find? id with
  | none => rfl
  | some mapping =>
    by_cases hi : i < mapping.size
    · obtain ⟨root, base, hroot, hbelow⟩ := hcoherent.rooted id mapping hfound
      obtain ⟨distance, hstart, hfits⟩ := hcoherent.within hroot hbelow hfound
      have hother : ¬ memory.Owns object base.start.block := by
        intro howns
        cases hstorage : base.storage with
        | inside parent => exact hroot.2 parent hstorage
        | lent => exact halive root base hroot hstorage hbelow (by omega) howns
        | owned =>
          obtain rfl := howners.apart root object _ ⟨base, hroot.1, hstorage, rfl⟩ howns
          exact (hbelow.of_released hcoherent h hkept).1 (h.top (isMapped_iff.2 ⟨base, hroot.1⟩))
      have hblock := h.block_of_not_owns hother
      simp only [hi, if_true, hstart, Heap.byte?, Address.advance, hblock]
    · simp only [if_neg hi]

/-- While roots share no bytes, the host has lent nothing that a mapped object owns. -/
theorem Apart.keptAlive (h : memory.Apart) (object other : ObjectId) : memory.KeptAlive object other := by
  rintro root base hroot hlent - hpos ⟨owner, howner, hstorage, hblock⟩
  have hfirst : (regionOf base).Holds base.start := Region.holds_iff.2 ⟨0, hpos, rfl⟩
  refine h.not_in_block howner hstorage hroot ?_ hfirst hblock.symm
  rintro rfl
  obtain rfl := Option.some.inj (hroot.1.symm.trans howner)
  rw [hlent] at hstorage
  cases hstorage

theorem findD_of_find? {table table' : Dict ObjectId (List ObjectId)} {key : ObjectId}
    (h : table'.find? key = if key ∈ gone then none else prune gone (table.find? key)) :
    table'.findD key [] = if key ∈ gone then [] else (table.findD key []).filter (· ∉ gone) := by
  unfold Dict.findD
  rw [h]
  split
  · rfl
  · cases table.find? key with
    | none => rfl
    | some ids =>
      simp only [prune, Option.map_some, Option.filter_some, Option.getD_some]
      split
      · rfl
      · next hnil => simpa using hnil

theorem exists_frees (hcoherent : memory.Coherent) (howners : memory.OwnBlocks)
    (hroom : memory.available + memory.ownedBytes < Size.limit) (object : ObjectId) :
    ∃ gone, memory.Frees object gone := by
  have hcharge := chargeOf_le_ownedBytes hcoherent.distinct object
  obtain ⟨gone, h⟩ := free_spec hcoherent.toListed object
  refine ⟨gone, ?_⟩
  constructor
  · exact releasing_releaseTo _ memory object [] _ hcoherent.toListed (Nat.le_refl _) (by omega) .done
  · exact fun id => h.mem_gone_iff hcoherent
  · exact h.tables.find?
  · exact fun parent => findD_of_find? (h.tables.subObjects parent)
  · exact fun buffer => findD_of_find? (h.tables.attachments buffer)
  · exact fun id => h.byteAt? hcoherent howners
  · intro mapping hfound hstorage
    rw [h.available, chargeOf_of_find? hfound, charge, if_pos hstorage]
  · intro hnothing
    rw [h.available, chargeOf_eq_zero hnothing, Nat.add_zero]
  · exact h.capacity

/-! ## Several releases -/

/-- What releasing a list of objects does. -/
structure FreesAll (memory : GlobalMemory) (objects : List ObjectId) (memory' : GlobalMemory)
    (gone : List ObjectId) : Prop where
  tables : Released memory memory' gone
  aliases : ∀ id, id ∈ gone ↔ ∃ top ∈ objects, memory.Below top id
  emptied : ∀ number, (∃ top ∈ objects, memory.Owns top number) → memory'.heap.block number = #[]
  others : ∀ number, (∀ top ∈ objects, ¬ memory.Owns top number) →
    memory'.heap.block number = memory.heap.block number

/-- An object that the first call took away is one that lies below its object. -/
theorem FreesAll.cons {memory'' : GlobalMemory} {objects more : List ObjectId} (hcoherent : memory.Coherent)
    (hfirst : Releases memory memory' object gone) (hrest : FreesAll memory' objects memory'' more) :
    FreesAll memory (object :: objects) memory'' (gone ++ more) := by
  constructor
  · exact hfirst.tables.trans hrest.tables
  · intro id
    rw [List.mem_append, hfirst.mem_gone_iff hcoherent, hrest.aliases]
    constructor
    · rintro (hbelow | ⟨top, htop, hbelow⟩)
      · exact ⟨object, List.mem_cons_self, hbelow⟩
      · refine ⟨top, List.mem_cons_of_mem _ htop, ?_⟩
        exact hbelow.mono fun _ _ hfound => (hfirst.tables.of_find? hfound).2
    · rintro ⟨top, htop, hbelow⟩
      by_cases hgone : id ∈ gone
      · exact .inl ((hfirst.mem_gone_iff hcoherent).1 hgone)
      · rcases List.mem_cons.1 htop with rfl | htop
        · exact .inl hbelow
        · exact .inr ⟨top, htop, (hbelow.of_released hcoherent hfirst hgone).2⟩
  · rintro number ⟨top, htop, howns⟩
    by_cases hlater : ∃ other ∈ objects, memory'.Owns other number
    · exact hrest.emptied number hlater
    · rw [hrest.others number fun other hother howns' => hlater ⟨other, hother, howns'⟩]
      apply hfirst.block_of_owns
      rcases List.mem_cons.1 htop with rfl | htop
      · exact howns
      · -- It does not own the block any more, so the first call took it away. Then it is the first object.
        have hgone : top ∈ gone := by
          by_contra hkept
          exact hlater ⟨top, htop, howns.released hfirst.tables hkept⟩
        exact howns.eq_top (hfirst.below top hgone) ▸ howns
  · intro number hnone
    have hlater : ∀ other ∈ objects, ¬ memory'.Owns other number := by
      intro other hother howns
      exact hnone other (List.mem_cons_of_mem _ hother) (howns.of_released hfirst.tables)
    rw [hrest.others number hlater]
    exact hfirst.block_of_not_owns (hnone object List.mem_cons_self)

/-- By induction on the calls, each in the memory that the one before it left. -/
theorem freesAll_foldl (hcoherent : memory.Coherent) (objects : List ObjectId) :
    ∃ gone, FreesAll memory objects (objects.foldl free memory) gone := by
  induction objects generalizing memory with
  | nil => exact ⟨[], .refl hcoherent.toListed, by simp, by simp, fun _ _ => rfl⟩
  | cons object objects ih =>
    obtain ⟨gone, hfirst⟩ := free_spec hcoherent.toListed object
    obtain ⟨more, hrest⟩ := ih (hcoherent.release hfirst)
    exact ⟨gone ++ more, hrest.cons hcoherent hfirst⟩

theorem prune_congr {gone' : List ObjectId} (h : ∀ id, id ∈ gone ↔ id ∈ gone') (ids : Option (List ObjectId)) :
    prune gone ids = prune gone' ids := by
  simp only [prune, h]

/-- The capacity and the mappings decide what is available. -/
theorem Balanced.available {capacity : Nat} (h : Balanced capacity memory) (h' : Balanced capacity memory')
    (hmappings : memory.mappings = memory'.mappings) : memory.available = memory'.available := by
  have hbalance := h.balance
  have hbalance' := h'.balance
  rw [ownedBytes, hmappings] at hbalance
  rw [ownedBytes] at hbalance'
  omega

/-- Objects may be released in any order. -/
theorem FreesAll.alike {capacity : Nat} {objects objects' gone' : List ObjectId} {memory'' : GlobalMemory}
    (h : FreesAll memory objects memory' gone) (h' : FreesAll memory objects' memory'' gone')
    (hbalanced : Balanced capacity memory') (hbalanced' : Balanced capacity memory'')
    (hsame : ∀ id, id ∈ objects ↔ id ∈ objects') : Alike memory' memory'' := by
  have hgone : ∀ id, id ∈ gone ↔ id ∈ gone' := by
    intro id
    simp only [h.aliases, h'.aliases, hsame]
  have hmappings : memory'.mappings = memory''.mappings := by
    rw [h.tables.mappings, h'.tables.mappings, Dict.without_congr _ hgone]
  constructor
  · rw [hbalanced.constant, hbalanced'.constant]
  · exact hbalanced.available hbalanced' hmappings
  · intro id
    rw [hmappings]
  · intro parent
    simp only [h.tables.subObjects, h'.tables.subObjects, hgone, prune_congr hgone]
  · intro buffer
    simp only [h.tables.attachments, h'.tables.attachments, hgone, prune_congr hgone]
  · intro number
    by_cases hown : ∃ top ∈ objects, memory.Owns top number
    · rw [h.emptied number hown, h'.emptied number (by simpa only [hsame] using hown)]
    · have hnone : ∀ top ∈ objects, ¬ memory.Owns top number := fun top htop howns => hown ⟨top, htop, howns⟩
      rw [h.others number hnone, h'.others number (by simpa only [hsame] using hnone)]

/-- An object that is not mapped is in no list and has none. -/
theorem Coherent.unlisted (h : memory.Coherent) (hnew : memory.mappings.find? object = none) :
    (memory.subObjects.find? object = none ∧
        ∀ parent ids, memory.subObjects.find? parent = some ids → ids ≠ [] ∧ object ∉ ids) ∧
      memory.attachments.find? object = none ∧
        ∀ buffer ids, memory.attachments.find? buffer = some ids → ids ≠ [] ∧ object ∉ ids := by
  have hunmapped : memory.isMapped object ≠ true := by
    rw [isMapped_eq_false_iff.2 hnew]
    exact Bool.false_ne_true
  refine ⟨⟨?_, fun parent ids hids => ?_⟩, ?_, fun buffer ids hids => ?_⟩
  · cases hids : memory.subObjects.find? object with
    | none => rfl
    | some ids =>
      -- The parent of what is listed is mapped.
      obtain ⟨hne, -, hmembers⟩ := h.listed object ids hids
      obtain ⟨id, hid⟩ := List.exists_mem_of_ne_nil ids hne
      obtain ⟨mapping, hfound, hstorage⟩ := hmembers id hid
      obtain ⟨-, outer, -, houter, -⟩ := h.inside id mapping object hfound hstorage
      simp [hnew] at houter
  · obtain ⟨hne, -, hmembers⟩ := h.listed parent ids hids
    refine ⟨hne, fun hid => ?_⟩
    obtain ⟨mapping, hfound, -⟩ := hmembers object hid
    simp [hnew] at hfound
  · cases hids : memory.attachments.find? object with
    | none => rfl
    | some ids => exact absurd (h.attached object ids hids).2.2.1 hunmapped
  · obtain ⟨hne, -, -, himages⟩ := h.attached buffer ids hids
    exact ⟨hne, fun hid => hunmapped (himages object hid)⟩

/-- Once all that was mapped is released, no table has an entry left. -/
theorem FreesAll.empties {objects : List ObjectId} (h : FreesAll memory objects memory' gone)
    (hcoherent' : memory'.Coherent) (hall : ∀ id, memory.isMapped id = true → id ∈ objects) :
    memory'.mappings = {} ∧ memory'.subObjects = {} ∧ memory'.attachments = {} := by
  have hnone : ∀ id, memory'.mappings.find? id = none := by
    intro id
    rw [h.tables.find?]
    split
    · rfl
    · next hkept =>
      cases hfound : memory.mappings.find? id with
      | none => rfl
      | some mapping =>
        have hlisted := hall id (isMapped_iff.2 ⟨mapping, hfound⟩)
        exact absurd ((h.aliases id).2 ⟨id, hlisted, .self hfound⟩) hkept
  refine ⟨Dict.eq_empty_of_forall hnone, Dict.eq_empty_of_forall fun id => ?_, Dict.eq_empty_of_forall fun id => ?_⟩
  · exact (hcoherent'.unlisted (hnone id)).1.1
  · exact (hcoherent'.unlisted (hnone id)).2.1

/-! ## A mapping that is taken back -/

/-- Lists that do not name the object stay as they are without it. -/
theorem prune_unlisted {table : Dict ObjectId (List ObjectId)}
    (h : ∀ key ids, table.find? key = some ids → ids ≠ [] ∧ object ∉ ids) (key : ObjectId) :
    prune [object] (table.find? key) = table.find? key := by
  apply prune_of_forall
  intro ids hids
  obtain ⟨hne, hout⟩ := h key ids hids
  refine ⟨hne, fun id hid hsingle => ?_⟩
  rw [List.mem_singleton] at hsingle
  exact hout (hsingle ▸ hid)

/-- The list that gained the object as its last member is as it was before. -/
theorem prune_insert {table : Dict ObjectId (List ObjectId)}
    (h : ∀ key ids, table.find? key = some ids → ids ≠ [] ∧ object ∉ ids) (key other : ObjectId) :
    prune [object] ((table.insert key (table.findD key [] ++ [object])).find? other) = table.find? other := by
  rw [Dict.find?_insert]
  split
  · next heq =>
    subst heq
    rw [prune_singleton, Dict.findD]
    cases hids : table.find? other with
    | none => simp
    | some ids =>
      obtain ⟨hne, hout⟩ := h other ids hids
      have hothers : ids.filter (· ≠ object) = ids := by
        rw [List.filter_eq_self]
        intro id hid
        simpa using ne_of_mem_of_not_mem hid hout
      rw [Option.getD_some, List.filter_append, hothers]
      simp [hne]
  · exact prune_unlisted h other

/-- All that mapping an object changes is about that object. -/
structure MapsOnly (memory memory' : GlobalMemory) (object : ObjectId) : Prop where
  adds : ∃ mapping, Adds memory memory' object mapping
  subObjects : ∀ parent, prune [object] (memory'.subObjects.find? parent) = memory.subObjects.find? parent
  attachments : ∀ buffer, prune [object] (memory'.attachments.find? buffer) = memory.attachments.find? buffer
  fresh : ∀ number, memory'.Owns object number → memory.heap.block number = #[]
  others : ∀ number, ¬ memory'.Owns object number → memory'.heap.block number = memory.heap.block number

theorem Outcome.mapsOnly {object : MemoryObject} {start : Address} (hcoherent : memory.Coherent)
    (houtcome : memory.Outcome object (.ok start) memory') (hnew : memory.mappings.find? object.id = none) :
    MapsOnly memory memory' object.id := by
  obtain ⟨⟨-, hsubs⟩, -, hattached⟩ := hcoherent.unlisted hnew
  cases houtcome with
  | known found => simp [hnew] at found
  | @inside region parent _ part found fits =>
    refine ⟨⟨_, hnew, rfl⟩, prune_insert hsubs region.parent, prune_unlisted hattached, ?_, fun _ _ => rfl⟩
    rintro number ⟨mapping, hfound, hstorage, -⟩
    obtain rfl := Option.some.inj ((Dict.find?_insert_self memory.mappings object.id _).symm.trans hfound)
    cases hstorage
  | lent =>
    refine ⟨⟨_, hnew, rfl⟩, prune_unlisted hsubs, prune_unlisted hattached, ?_, fun _ _ => rfl⟩
    rintro number ⟨mapping, hfound, hstorage, -⟩
    obtain rfl := Option.some.inj ((Dict.find?_insert_self memory.mappings object.id _).symm.trans hfound)
    cases hstorage
  | owned _ _ _ _ _ grown =>
    have hself := Dict.find?_insert_self memory.mappings object.id
      { start := ⟨memory.heap.blocks.size, 0⟩, size := object.size, storage := .owned }
    refine ⟨⟨_, hnew, rfl⟩, prune_unlisted hsubs, ?_, ?_, ?_⟩
    · intro buffer
      unfold GlobalMemory.attached
      split
      · exact prune_insert hattached _ buffer
      · exact prune_unlisted hattached buffer
    · rintro number ⟨mapping, hfound, -, rfl⟩
      obtain rfl := Option.some.inj (hself.symm.trans hfound)
      exact Heap.block_of_size_le (Nat.le_refl _)
    · intro number hother
      refine grown.others number fun heq => hother ⟨_, hself, rfl, heq.symm⟩

theorem MapsOnly.restored {capacity : Nat} (h : MapsOnly memory memory' object) (hcoherent : memory.Coherent)
    (hcoherent' : memory'.Coherent) (hbalanced : Balanced capacity memory)
    (hbalanced' : Balanced capacity (memory'.free object)) : Alike (memory'.free object) memory := by
  obtain ⟨mapping, hadds⟩ := h.adds
  obtain ⟨gone, hfree⟩ := free_spec hcoherent'.toListed object
  have hgone : ∀ id, id ∈ gone ↔ id ∈ [object] := by
    intro id
    rw [hfree.mem_gone_iff hcoherent', List.mem_singleton]
    constructor
    · intro hbelow
      by_contra hne
      obtain ⟨_, hfound⟩ := (hbelow.of_adds hcoherent hadds hne).top_mapped
      simp [hadds.new] at hfound
    · rintro rfl
      exact .self (by rw [hadds.find?, if_pos rfl])
  obtain ⟨⟨hsubs, -⟩, hattached, -⟩ := hcoherent.unlisted hadds.new
  have hmappings : (memory'.free object).mappings = memory.mappings := by
    rw [hfree.tables.mappings, Dict.without_congr _ hgone, ← Dict.erase_eq_without, hadds.mappings,
      Dict.erase_insert hadds.new]
  constructor
  · rw [hbalanced.constant, hbalanced'.constant]
  · exact hbalanced'.available hbalanced hmappings
  · intro id
    rw [hmappings]
  · intro parent
    rw [hfree.tables.subObjects, prune_congr hgone, h.subObjects]
    split
    · next hself => rw [List.mem_singleton.1 ((hgone parent).1 hself), hsubs]
    · rfl
  · intro buffer
    rw [hfree.tables.attachments, prune_congr hgone, h.attachments]
    split
    · next hself => rw [List.mem_singleton.1 ((hgone buffer).1 hself), hattached]
    · rfl
  · intro number
    by_cases hown : memory'.Owns object number
    · rw [hfree.block_of_owns hown, h.fresh number hown]
    · rw [hfree.block_of_not_owns hown, h.others number hown]

end Freeing

/-! ## Every state of a run -/

theorem after_frees (capacity : Nat) (ops : List MemoryOp) (objects : List ObjectId) :
    objects.foldl free (after capacity ops) = after capacity (ops ++ objects.map .free) := by
  simp only [after, List.foldl_append, List.foldl_map]
  rfl

/-- In every state of every run an object gives back what it was given, and no more. -/
theorem frees_exactly (capacity : Nat) (hcapacity : capacity < Size.limit) (ops : List MemoryOp) :
    (after capacity ops).ReleasesExactly := by
  have hcoherent := coherent_after capacity ops
  have hbalanced := balanced_after capacity ops
  have hroom : (after capacity ops).available + (after capacity ops).ownedBytes < Size.limit := by
    rw [hbalanced.balance]
    exact hcapacity
  -- Memory after some releases is memory after a longer run.
  have hreleased : ∀ objects : List ObjectId, Balanced capacity (objects.foldl free (after capacity ops)) := by
    intro objects
    rw [after_frees]
    exact balanced_after capacity _
  constructor
  · intro object
    exact exists_frees hcoherent (ownBlocks_after capacity ops) hroom object
  · intro object other
    obtain ⟨gone, hone⟩ := freesAll_foldl hcoherent [object, other]
    obtain ⟨gone', hother⟩ := freesAll_foldl hcoherent [other, object]
    exact hone.alike hother (hreleased [object, other]) (hreleased [other, object]) fun id => by simp [or_comm]
  · intro object start memory' hnew hmap
    have hstep : memory' = after capacity (ops ++ [.map object]) := by
      rw [after_concat, perform, hmap]
    have hcoherent' : memory'.Coherent := hstep ▸ coherent_after capacity _
    have hbalanced' : Balanced capacity (memory'.free object.id) := by
      have hfreed := balanced_after capacity (ops ++ [.map object] ++ [.free object.id])
      rw [after_concat] at hfreed
      rw [hstep]
      exact hfreed
    have houtcome := (after capacity ops).map_outcome object
    rw [hmap] at houtcome
    exact (houtcome.mapsOnly hcoherent (isMapped_eq_false_iff.1 hnew)).restored hcoherent hcoherent' hbalanced hbalanced'
  · intro objects hall
    have hafter := hreleased objects
    have hcoherent' : (objects.foldl free (after capacity ops)).Coherent := by
      rw [after_frees]
      exact coherent_after capacity _
    obtain ⟨gone, hgone⟩ := freesAll_foldl hcoherent objects
    obtain ⟨hmappings, hlists⟩ := hgone.empties hcoherent' hall
    refine ⟨?_, hmappings, hlists⟩
    have hbalance := hafter.balance
    rw [ownedBytes, hmappings] at hbalance
    rw [hbalanced.constant]
    exact hbalance

/-- A buffer with a part that has a part, an image made over the buffer, and another buffer. -/
def nestedRun : List MemoryOp :=
  [.map (.buffer ⟨1⟩ 300), .map (.subObject ⟨2⟩ (.buffer ⟨1⟩ 300) 10 100),
    .map (.subObject ⟨3⟩ (.subObject ⟨2⟩ (.buffer ⟨1⟩ 300) 10 100) 5 20), .alloc (.buffer ⟨4⟩ 200),
    .map { MemoryObject.buffer ⟨5⟩ 64 with
      kind := .image { width := 16, height := 1, depth := 1, elementSize := 4, buffer := some ⟨1⟩ } }]

/-- The buffer goes with both parts, and the image over it stays. -/
theorem frees_exactly_nestedRun : 1024 < Size.limit ∧ (after 1024 nestedRun).ReleasesExactly ∧
    ((after 1024 nestedRun).free ⟨1⟩).mappings.keys = [⟨4⟩, ⟨5⟩] ∧
    (after 1024 nestedRun).attachedImages ⟨1⟩ = [⟨5⟩] ∧
    ((after 1024 nestedRun).free ⟨1⟩).attachedImages ⟨1⟩ = [] ∧
    ((after 1024 nestedRun).free ⟨1⟩).available = (after 1024 nestedRun).available + 300 :=
  ⟨by decide, frees_exactly 1024 (by decide) nestedRun, by decide +kernel, by decide +kernel, by decide +kernel,
    by decide +kernel⟩

end ComputeCore.GlobalMemory
