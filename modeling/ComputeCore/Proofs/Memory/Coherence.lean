import Mathlib.Data.List.Induction
import ComputeCore.Proofs.Memory.Calls
import ComputeCore.Proofs.Memory.Release
/-!
# The tables agree

The mappings, the lists of sub-objects and the lists of attached images describe one forest, in every
state of every run. `Coherent` says how they fit together. Of what a call can do, only mapping and freeing
change the tables: a mapping adds one object that was in none of them, and a release takes out whole
subtrees.
-/

namespace ComputeCore.GlobalMemory

/-- The mapping is some part of the parent's. -/
def LiesIn (memory : GlobalMemory) (parent : ObjectId) (mapping : Mapping) : Prop :=
  ∃ outer distance, memory.mappings.find? parent = some outer ∧
    mapping.start = outer.start.advance distance ∧ distance + mapping.size ≤ outer.size

/-- The storage of an object that is not part of another one. -/
def IsRoot (memory : GlobalMemory) (root : ObjectId) (base : Mapping) : Prop :=
  memory.mappings.find? root = some base ∧ ∀ parent, base.storage ≠ .inside parent

/-- How the three tables fit together. -/
structure Coherent (memory : GlobalMemory) : Prop where
  distinct : memory.mappings.Distinct
  attachmentsDistinct : memory.attachments.Distinct
  inside : ∀ id mapping parent, memory.mappings.find? id = some mapping → mapping.storage = .inside parent →
    id ∈ memory.subObjects.findD parent [] ∧ memory.LiesIn parent mapping
  listed : ∀ parent ids, memory.subObjects.find? parent = some ids → ids ≠ [] ∧ ids.Nodup ∧
    ∀ id ∈ ids, ∃ mapping, memory.mappings.find? id = some mapping ∧ mapping.storage = .inside parent
  attached : ∀ buffer ids, memory.attachments.find? buffer = some ids → ids ≠ [] ∧ ids.Nodup ∧
    memory.isMapped buffer = true ∧ ∀ id ∈ ids, memory.isMapped id = true
  rooted : ∀ id mapping, memory.mappings.find? id = some mapping →
    ∃ root base, memory.IsRoot root base ∧ memory.Below root id

section Coherent
variable {memory memory' : GlobalMemory} {id : ObjectId} {mapping : Mapping}

theorem Coherent.toListed (h : memory.Coherent) : memory.Listed where
  distinct := h.attachmentsDistinct
  members parent ids hids := by
    refine ⟨(h.listed parent ids hids).1, fun id hid mapping hmapping => ?_⟩
    obtain ⟨found, hfound, hstorage⟩ := (h.listed parent ids hids).2.2 id hid
    obtain rfl : found = mapping := by simpa [hfound] using hmapping
    exact hstorage
  images buffer ids hids := (h.attached buffer ids hids).1

theorem LiesIn.mono {parent : ObjectId} (h : memory.LiesIn parent mapping)
    (hparent : ∀ outer, memory.mappings.find? parent = some outer → memory'.mappings.find? parent = some outer) :
    memory'.LiesIn parent mapping := by
  obtain ⟨outer, distance, houter, hplace⟩ := h
  exact ⟨outer, distance, hparent _ houter, hplace⟩

/-- Through any nesting, an object lies in the storage of its root. By induction on the nesting. -/
theorem Coherent.within {root : ObjectId} {base : Mapping} (h : memory.Coherent)
    (hroot : memory.IsRoot root base) (hbelow : memory.Below root id)
    (hfound : memory.mappings.find? id = some mapping) :
    ∃ distance, mapping.start = base.start.advance distance ∧ distance + mapping.size ≤ base.size := by
  induction hbelow generalizing mapping with
  | self =>
    obtain rfl : base = mapping := by simpa [hroot.1] using hfound
    exact ⟨0, rfl, by omega⟩
  | inside _ hlower hstorage ih =>
    obtain rfl : _ = mapping := by simpa [hlower] using hfound
    obtain ⟨_, outer, offset, houter, hplace, hfits⟩ := h.inside _ _ _ hlower hstorage
    obtain ⟨distance, hstart, hsize⟩ := ih houter
    refine ⟨distance + offset, ?_, by omega⟩
    rw [hplace, hstart, Address.advance_advance]

/-- Nothing of what `Coherent` says depends on the bytes. -/
theorem Coherent.of_tables (h : memory.Coherent)
    (hmappings : memory'.mappings = memory.mappings) (hsubs : memory'.subObjects = memory.subObjects)
    (hattached : memory'.attachments = memory.attachments) : memory'.Coherent := by
  have hmono : ∀ top id, memory.Below top id → memory'.Below top id := fun top id hbelow =>
    hbelow.mono fun id mapping hfound => hmappings ▸ hfound
  constructor
  · exact hmappings ▸ h.distinct
  · exact hattached ▸ h.attachmentsDistinct
  · intro id mapping parent hfound hstorage
    rw [hmappings] at hfound
    obtain ⟨hmem, hplaced⟩ := h.inside id mapping parent hfound hstorage
    exact ⟨hsubs ▸ hmem, hplaced.mono fun _ houter => hmappings ▸ houter⟩
  · rw [hsubs, hmappings]
    exact h.listed
  · rw [hattached]
    unfold isMapped
    rw [hmappings]
    exact h.attached
  · intro id mapping hfound
    rw [hmappings] at hfound
    obtain ⟨root, base, ⟨hbase, hroot⟩, hbelow⟩ := h.rooted id mapping hfound
    exact ⟨root, base, ⟨hmappings ▸ hbase, hroot⟩, hmono root id hbelow⟩

/-! ## One object more -/

/-- An object that was not mapped is mapped now, and nothing else changes among the mappings. -/
structure Adds (memory memory' : GlobalMemory) (id : ObjectId) (mapping : Mapping) : Prop where
  new : memory.mappings.find? id = none
  mappings : memory'.mappings = memory.mappings.insert id mapping

theorem Adds.find? (h : Adds memory memory' id mapping) (other : ObjectId) :
    memory'.mappings.find? other = if other = id then some mapping else memory.mappings.find? other := by
  rw [h.mappings, Dict.find?_insert]

theorem Adds.keeps (h : Adds memory memory' id mapping) {other : ObjectId} {found : Mapping}
    (hfound : memory.mappings.find? other = some found) : memory'.mappings.find? other = some found := by
  rw [h.find?, if_neg, hfound]
  rintro rfl
  simp [h.new] at hfound

theorem Adds.isMapped (h : Adds memory memory' id mapping) {other : ObjectId}
    (hmapped : memory.isMapped other = true) : memory'.isMapped other = true := by
  obtain ⟨found, hfound⟩ := isMapped_iff.1 hmapped
  exact isMapped_iff.2 ⟨found, h.keeps hfound⟩

theorem Adds.below (h : Adds memory memory' id mapping) {top other : ObjectId}
    (hbelow : memory.Below top other) : memory'.Below top other :=
  hbelow.mono fun _ _ => h.keeps

/-- What holds of the mappings and attachments whatever the storage of the new object. -/
theorem Coherent.attached_of_adds (h : memory.Coherent) (hadds : Adds memory memory' id mapping)
    (hattached : memory'.attachments = memory.attachments) :
    ∀ buffer ids, memory'.attachments.find? buffer = some ids → ids ≠ [] ∧ ids.Nodup ∧
      memory'.isMapped buffer = true ∧ ∀ image ∈ ids, memory'.isMapped image = true := by
  intro buffer ids hids
  rw [hattached] at hids
  obtain ⟨hne, hnodup, hbuffer, himages⟩ := h.attached buffer ids hids
  exact ⟨hne, hnodup, hadds.isMapped hbuffer, fun image himage => hadds.isMapped (himages image himage)⟩

/-- A new root is listed nowhere. -/
theorem Coherent.addRoot (h : memory.Coherent)
    (hadds : Adds memory memory' id mapping) (hroot : ∀ parent, mapping.storage ≠ .inside parent)
    (hsubs : memory'.subObjects = memory.subObjects) (hattached : memory'.attachments = memory.attachments) :
    memory'.Coherent := by
  constructor
  · exact hadds.mappings ▸ h.distinct.insert id mapping
  · exact hattached ▸ h.attachmentsDistinct
  · intro other found parent hfound hstorage
    rw [hadds.find?] at hfound
    split at hfound
    · obtain rfl : mapping = found := by simpa using hfound
      exact absurd hstorage (hroot parent)
    · obtain ⟨hmem, hplaced⟩ := h.inside other found parent hfound hstorage
      exact ⟨hsubs ▸ hmem, hplaced.mono fun _ => hadds.keeps⟩
  · intro parent ids hids
    rw [hsubs] at hids
    obtain ⟨hne, hnodup, hmembers⟩ := h.listed parent ids hids
    refine ⟨hne, hnodup, fun other hother => ?_⟩
    obtain ⟨found, hfound, hstorage⟩ := hmembers other hother
    exact ⟨found, hadds.keeps hfound, hstorage⟩
  · exact h.attached_of_adds hadds hattached
  · intro other found hfound
    rw [hadds.find?] at hfound
    split at hfound
    · next heq =>
      have hself : memory'.mappings.find? id = some mapping := by rw [hadds.find?, if_pos rfl]
      subst heq
      exact ⟨other, mapping, ⟨hself, hroot⟩, .self hself⟩
    · obtain ⟨root, base, ⟨hbase, hbaseRoot⟩, hbelow⟩ := h.rooted other found hfound
      exact ⟨root, base, ⟨hadds.keeps hbase, hbaseRoot⟩, hadds.below hbelow⟩

/-- A new sub-object comes last in the list of its parent. -/
theorem Coherent.addInside {parent : ObjectId} (h : memory.Coherent)
    (hadds : Adds memory memory' id mapping) (hstorage : mapping.storage = .inside parent)
    (hplaced : memory.LiesIn parent mapping)
    (hsubs : memory'.subObjects = memory.subObjects.insert parent (memory.subObjects.findD parent [] ++ [id]))
    (hattached : memory'.attachments = memory.attachments) : memory'.Coherent := by
  have hself : memory'.mappings.find? id = some mapping := by rw [hadds.find?, if_pos rfl]
  -- The lists only gain the new object.
  have hlists : ∀ other, memory'.subObjects.findD other [] =
      if other = parent then memory.subObjects.findD parent [] ++ [id] else memory.subObjects.findD other [] := by
    intro other
    simp only [Dict.findD, hsubs, Dict.find?_insert]
    split <;> rfl
  constructor
  · exact hadds.mappings ▸ h.distinct.insert id mapping
  · exact hattached ▸ h.attachmentsDistinct
  · intro other found outer hfound hinside
    rw [hadds.find?] at hfound
    split at hfound
    · next heq =>
      obtain rfl : mapping = found := by simpa using hfound
      obtain rfl : parent = outer := by simpa [hstorage] using hinside
      rw [heq, hlists, if_pos rfl]
      exact ⟨by simp, hplaced.mono fun _ => hadds.keeps⟩
    · obtain ⟨hmem, hold⟩ := h.inside other found outer hfound hinside
      refine ⟨?_, hold.mono fun _ => hadds.keeps⟩
      rw [hlists]
      split
      · next heq => exact List.mem_append_left _ (heq ▸ hmem)
      · exact hmem
  · intro outer ids hids
    rw [hsubs, Dict.find?_insert] at hids
    split at hids
    · next heq =>
      obtain rfl : memory.subObjects.findD parent [] ++ [id] = ids := by simpa using hids
      have hmembers : ∀ other ∈ memory.subObjects.findD parent [], ∃ found,
          memory.mappings.find? other = some found ∧ found.storage = .inside parent := by
        intro other hother
        obtain ⟨ids, hids, hmem⟩ := mem_findD_iff.1 hother
        exact (h.listed parent ids hids).2.2 other hmem
      have hnodup : (memory.subObjects.findD parent []).Nodup := by
        unfold Dict.findD
        cases hold : memory.subObjects.find? parent with
        | none => exact List.nodup_nil
        | some ids => exact (h.listed parent ids hold).2.1
      refine ⟨by simp, List.nodup_append.2 ⟨hnodup, by simp, ?_⟩, fun other hother => ?_⟩
      · intro other hother last hlast heq
        obtain rfl : last = id := by simpa using hlast
        obtain ⟨found, hfound, -⟩ := hmembers other hother
        simp [heq, hadds.new] at hfound
      · rcases List.mem_append.1 hother with hother | hother
        · obtain ⟨found, hfound, hin⟩ := hmembers other hother
          exact ⟨found, hadds.keeps hfound, heq ▸ hin⟩
        · obtain rfl : other = id := by simpa using hother
          exact ⟨mapping, hself, heq ▸ hstorage⟩
    · obtain ⟨hne, hnodup, hmembers⟩ := h.listed outer ids hids
      refine ⟨hne, hnodup, fun other hother => ?_⟩
      obtain ⟨found, hfound, hin⟩ := hmembers other hother
      exact ⟨found, hadds.keeps hfound, hin⟩
  · exact h.attached_of_adds hadds hattached
  · intro other found hfound
    rw [hadds.find?] at hfound
    split at hfound
    · next heq =>
      obtain ⟨outer, -, houter, -⟩ := hplaced
      obtain ⟨root, base, ⟨hbase, hroot⟩, hbelow⟩ := h.rooted parent outer houter
      subst heq
      exact ⟨root, base, ⟨hadds.keeps hbase, hroot⟩, .inside (hadds.below hbelow) hself hstorage⟩
    · obtain ⟨root, base, ⟨hbase, hroot⟩, hbelow⟩ := h.rooted other found hfound
      exact ⟨root, base, ⟨hadds.keeps hbase, hroot⟩, hadds.below hbelow⟩

/-- An image that was attached nowhere is attached to a buffer. -/
theorem Coherent.attach {buffer : ObjectId} (h : memory.Coherent)
    (hmapped : memory.isMapped id = true) (hbuffer : memory.isMapped buffer = true)
    (hnew : id ∉ memory.attachedImages buffer) :
    Coherent { memory with
      attachments := memory.attachments.insert buffer (memory.attachedImages buffer ++ [id]) } := by
  refine ⟨h.distinct, h.attachmentsDistinct.insert _ _, fun other found parent hfound hstorage => ?_,
    h.listed, ?_, fun other found hfound => ?_⟩
  · obtain ⟨hmem, hplaced⟩ := h.inside other found parent hfound hstorage
    exact ⟨hmem, hplaced.mono fun _ houter => houter⟩
  · intro other ids hids
    rw [Dict.find?_insert] at hids
    split at hids
    · next heq =>
      obtain rfl : memory.attachedImages buffer ++ [id] = ids := by simpa using hids
      have hold : (memory.attachedImages buffer).Nodup ∧
          ∀ image ∈ memory.attachedImages buffer, memory.isMapped image = true := by
        unfold attachedImages Dict.findD
        cases hfound : memory.attachments.find? buffer with
        | none => exact ⟨List.nodup_nil, by simp⟩
        | some images => exact ⟨(h.attached buffer images hfound).2.1, (h.attached buffer images hfound).2.2.2⟩
      refine ⟨by simp, List.nodup_append.2 ⟨hold.1, by simp, ?_⟩, heq ▸ hbuffer, fun image himage => ?_⟩
      · intro image himage last hlast hsame
        obtain rfl : last = id := by simpa using hlast
        exact hnew (hsame ▸ himage)
      · rcases List.mem_append.1 himage with himage | himage
        · exact hold.2 image himage
        · obtain rfl : image = id := by simpa using himage
          exact hmapped
    · exact h.attached other ids hids
  · obtain ⟨root, base, hroot, hbelow⟩ := h.rooted other found hfound
    exact ⟨root, base, hroot, hbelow.mono fun _ _ hfound => hfound⟩

/-! ## A subtree less -/

section Free
variable {gone : List ObjectId} {object : ObjectId}

/-- What lies below an object that stays, stays below it. -/
theorem Below.of_released {top : ObjectId} (hbelow : memory.Below top id) (hcoherent : memory.Coherent)
    (h : Releases memory memory' object gone) (hkept : id ∉ gone) : top ∉ gone ∧ memory'.Below top id := by
  induction hbelow with
  | self hfound => exact ⟨hkept, .self (by rw [h.tables.find?, if_neg hkept, hfound])⟩
  | inside _ hfound hstorage ih =>
    have hparent : _ ∉ gone := fun hparent => hkept
      (h.closed _ _ hparent (hcoherent.inside _ _ _ hfound hstorage).1 (isMapped_iff.2 ⟨_, hfound⟩))
    obtain ⟨htop, hbelow⟩ := ih hparent
    exact ⟨htop, .inside hbelow (by rw [h.tables.find?, if_neg hkept, hfound]) hstorage⟩

theorem Coherent.release (hcoherent : memory.Coherent) (h : Releases memory memory' object gone) :
    memory'.Coherent := by
  have hkeeps : ∀ id mapping, id ∉ gone → memory.mappings.find? id = some mapping →
      memory'.mappings.find? id = some mapping := by
    intro id mapping hkept hfound
    rw [h.tables.find?, if_neg hkept, hfound]
  constructor
  · exact h.tables.mappings ▸ hcoherent.distinct.without gone
  · exact h.tables.distinct
  · intro id mapping parent hfound hstorage
    obtain ⟨hkept, hfound⟩ := h.tables.of_find? hfound
    obtain ⟨hmem, hplaced⟩ := hcoherent.inside id mapping parent hfound hstorage
    have hparent : parent ∉ gone := fun hparent =>
      hkept (h.closed parent id hparent hmem (isMapped_iff.2 ⟨mapping, hfound⟩))
    refine ⟨?_, hplaced.mono fun outer => hkeeps parent outer hparent⟩
    obtain ⟨ids, hids, hmem⟩ := mem_findD_iff.1 hmem
    have hstays : id ∈ ids.filter (· ∉ gone) := List.mem_filter.2 ⟨hmem, by simpa using hkept⟩
    refine mem_findD_iff.2 ⟨_, ?_, hstays⟩
    rw [h.tables.subObjects, if_neg hparent, prune_eq_some_iff]
    exact ⟨ids, hids, rfl, List.ne_nil_of_mem hstays⟩
  · intro parent ids hids
    rw [h.tables.subObjects] at hids
    split at hids
    · simp at hids
    · obtain ⟨all, hall, rfl, hne⟩ := prune_eq_some_iff.1 hids
      obtain ⟨-, hnodup, hmembers⟩ := hcoherent.listed parent all hall
      refine ⟨hne, hnodup.filter _, fun id hid => ?_⟩
      obtain ⟨hid, hkept⟩ := List.mem_filter.1 hid
      obtain ⟨mapping, hfound, hstorage⟩ := hmembers id hid
      exact ⟨mapping, hkeeps id mapping (by simpa using hkept) hfound, hstorage⟩
  · intro buffer ids hids
    rw [h.tables.attachments] at hids
    split at hids
    · simp at hids
    · next hbuffer =>
      obtain ⟨all, hall, rfl, hne⟩ := prune_eq_some_iff.1 hids
      obtain ⟨-, hnodup, hmapped, himages⟩ := hcoherent.attached buffer all hall
      have hstays : ∀ id, id ∉ gone → memory.isMapped id = true → memory'.isMapped id = true := by
        intro id hkept hmapped
        obtain ⟨mapping, hfound⟩ := isMapped_iff.1 hmapped
        exact isMapped_iff.2 ⟨mapping, hkeeps id mapping hkept hfound⟩
      refine ⟨hne, hnodup.filter _, hstays buffer hbuffer hmapped, fun id hid => ?_⟩
      obtain ⟨hid, hkept⟩ := List.mem_filter.1 hid
      exact hstays id (by simpa using hkept) (himages id hid)
  · intro id mapping hfound
    obtain ⟨hkept, hfound⟩ := h.tables.of_find? hfound
    obtain ⟨root, base, ⟨hbase, hroot⟩, hbelow⟩ := hcoherent.rooted id mapping hfound
    obtain ⟨hstays, hbelow⟩ := hbelow.of_released hcoherent h hkept
    exact ⟨root, base, ⟨hkeeps root base hstays hbase, hroot⟩, hbelow⟩

end Free

/-! ## Every state of a run -/

theorem coherent_ofCapacity (capacity : Nat) : (ofCapacity capacity).Coherent := by
  constructor
  · exact Dict.distinct_empty
  · exact Dict.distinct_empty
  all_goals
    intros
    simp_all [ofCapacity, Dict.find?, Dict.search]

/-- Mapping an object keeps the tables coherent, however it ends. -/
theorem Coherent.map {object : MemoryObject} {result : Except MemoryFailure Address} (h : memory.Coherent)
    (houtcome : memory.Outcome object result memory') : memory'.Coherent := by
  cases houtcome with
  | known | orphan | misfit | rejected => exact h.of_tables rfl rfl rfl
  | @inside region parent new part found fits =>
    exact h.addInside ⟨new, rfl⟩ rfl ⟨parent, region.offset, found, rfl, fits.2⟩ rfl rfl
  | lent new => exact h.addRoot ⟨new, rfl⟩ (by simp) rfl rfl
  | broken new => exact h.addRoot ⟨new, rfl⟩ (by simp) rfl rfl
  | @owned heap _ new _ _ _ buffer =>
    have hadds : Adds memory (memory.withOwned object heap) object.id
        { start := ⟨memory.heap.blocks.size, 0⟩, size := object.size, storage := .owned } := ⟨new, rfl⟩
    have hroot : (memory.withOwned object heap).Coherent := h.addRoot hadds (by simp) rfl rfl
    unfold GlobalMemory.attached
    cases hbase : baseOf object with
    | none => exact hroot
    | some base =>
      have hself : (memory.withOwned object heap).isMapped object.id = true :=
        isMapped_iff.2 ⟨_, by rw [hadds.find?, if_pos rfl]⟩
      refine hroot.attach hself (hadds.isMapped (buffer base hbase)) ?_
      -- What is attached was mapped before, and the object was not.
      intro hold
      obtain ⟨ids, hids, hmem⟩ := mem_findD_iff.1 hold
      obtain ⟨found, hfound⟩ := isMapped_iff.1 ((h.attached base ids hids).2.2.2 _ hmem)
      simp [new] at hfound

theorem Coherent.perform (h : memory.Coherent) (op : MemoryOp) : (memory.perform op).2.Coherent := by
  have hchange := memory.perform_change op
  generalize (memory.perform op).1 = answer at hchange
  generalize (memory.perform op).2 = memory' at hchange
  cases hchange with
  | maps call outcome => exact h.map outcome
  | frees =>
    obtain ⟨gone, hgone⟩ := free_spec h.toListed _
    exact h.release hgone
  | moves => exact h.of_tables rfl rfl rfl

theorem coherent_after (capacity : Nat) (ops : List MemoryOp) : (after capacity ops).Coherent := by
  induction ops using List.reverseRecOn with
  | nil => exact coherent_ofCapacity capacity
  | append_singleton ops op ih =>
    rw [after_concat]
    exact ih.perform op

end Coherent

end ComputeCore.GlobalMemory
