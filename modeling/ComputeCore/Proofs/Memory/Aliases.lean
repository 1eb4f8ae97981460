import ComputeCore.Proofs.Memory.Coherence
/-!
# No dangling alias

Sub-objects stand on their parents' storage, and images remember the buffer they were made over. The tables
never let go of that storage, or forget the buffer, before the object that stands on it.

The tables are set against the history of the run: a sub-object lies where the call put it that mapped it, and
each list of images names them in the order of the calls that mapped them.
-/

namespace ComputeCore.GlobalMemory

/-- Call number `time` mapped the object, and it has been mapped ever since. -/
def MappedAt (capacity : Nat) (ops : List MemoryOp) (id : ObjectId) (time : Nat) : Prop :=
  time < ops.length ∧ (after capacity (ops.take time)).isMapped id = false ∧
    ∀ n, time < n → n ≤ ops.length → (after capacity (ops.take n)).isMapped id = true

/-- The call maps an object as a sub-object of `parent`, and the mapping lies where it wants it to: at its offset
in the parent, which is mapped, and completely inside it. -/
def PlacedBy (memory : GlobalMemory) (op : MemoryOp) (id parent : ObjectId) (mapping : Mapping) : Prop :=
  ∃ object offset outer, op = .map object ∧ object.id = id ∧ object.parent = some { parent, offset } ∧
    memory.mappings.find? parent = some outer ∧ offset + object.size ≤ outer.size ∧
    mapping = { start := outer.start.advance offset, size := object.size, storage := .inside parent }

/-- Call number `time` mapped the sub-object, and it still lies where that call wanted it. -/
structure MappedInside (capacity : Nat) (ops : List MemoryOp) (id parent : ObjectId) (mapping : Mapping)
    (time : Nat) : Prop where
  mapped : MappedAt capacity ops id time
  place : ∃ op, ops[time]? = some op ∧ (after capacity ops).PlacedBy op id parent mapping

/-- Call number `time` mapped the image over the buffer, which was mapped then, and both have been mapped
ever since. -/
structure MappedOver (capacity : Nat) (ops : List MemoryOp) (image buffer : ObjectId) (time : Nat) : Prop where
  mapped : MappedAt capacity ops image time
  call : ∃ object start, ops[time]? = some (.map object) ∧ object.id = image ∧ baseOf object = some buffer ∧
    answer capacity (ops.take time) (.map object) = .address start
  base : ∀ n, time ≤ n → n ≤ ops.length → (after capacity (ops.take n)).isMapped buffer = true

/-- One image was mapped over the buffer before another one. -/
def MappedBefore (capacity : Nat) (ops : List MemoryOp) (buffer first second : ObjectId) : Prop :=
  ∃ time later, time < later ∧ MappedOver capacity ops first buffer time ∧
    MappedOver capacity ops second buffer later

/-- Nothing stands on storage that is gone. -/
structure Grounded (capacity : Nat) (ops : List MemoryOp) : Prop where
  /-- A sub-object lies in its parent, where it was mapped to lie. -/
  inside : ∀ id mapping parent, (after capacity ops).mappings.find? id = some mapping →
    mapping.storage = .inside parent → ∃ time, MappedInside capacity ops id parent mapping time
  /-- Through any nesting, it lies in the storage of an object that is not part of another one. -/
  rooted : ∀ id mapping, (after capacity ops).mappings.find? id = some mapping →
    ∃ root base distance, (after capacity ops).IsRoot root base ∧ (after capacity ops).Below root id ∧
      mapping.start = base.start.advance distance ∧ distance + mapping.size ≤ base.size
  /-- It is listed once with its parent and nowhere else. -/
  once : ∀ id mapping parent, (after capacity ops).mappings.find? id = some mapping →
    mapping.storage = .inside parent → ((after capacity ops).subObjects.findD parent []).count id = 1 ∧
      ∀ other, other ≠ parent → id ∉ (after capacity ops).subObjects.findD other []
  /-- Nothing else is listed, and no list is empty. -/
  listed : ∀ parent ids, (after capacity ops).subObjects.find? parent = some ids → ids ≠ [] ∧
    ∀ id ∈ ids, ∃ mapping, (after capacity ops).mappings.find? id = some mapping ∧
      mapping.storage = .inside parent
  /-- An attached image is mapped, over a buffer that is mapped, and was mapped over it. -/
  attached : ∀ buffer, ∀ image ∈ (after capacity ops).attachedImages buffer,
    (after capacity ops).isMapped image = true ∧ (after capacity ops).isMapped buffer = true ∧
      ∃ time, MappedOver capacity ops image buffer time
  /-- Attached images are listed once, in mapping order. -/
  ordered : ∀ buffer, ((after capacity ops).attachedImages buffer).Nodup ∧
    ((after capacity ops).attachedImages buffer).Pairwise (MappedBefore capacity ops buffer)

section Runs
variable {capacity time : Nat} {ops : List MemoryOp} {op : MemoryOp} {id image buffer : ObjectId}

/-! ## The history goes on -/

theorem after_take_concat {n : Nat} (h : n ≤ ops.length) :
    after capacity ((ops ++ [op]).take n) = after capacity (ops.take n) := by
  rw [List.take_append_of_le_length h]

theorem after_take_length : after capacity ((ops ++ [op]).take (ops.length + 1)) = after capacity (ops ++ [op]) := by
  rw [List.take_of_length_le (by simp)]

theorem MappedAt.concat (h : MappedAt capacity ops id time)
    (hmapped : (after capacity (ops ++ [op])).isMapped id = true) : MappedAt capacity (ops ++ [op]) id time := by
  obtain ⟨htime, hbefore, hsince⟩ := h
  refine ⟨by simp only [List.length_append]; omega, ?_, fun n hn hle => ?_⟩
  · rw [after_take_concat (by omega)]
    exact hbefore
  · rcases Nat.lt_or_ge ops.length n with hlast | hold
    · obtain rfl : n = ops.length + 1 := by
        simp only [List.length_append, List.length_singleton] at hle
        omega
      rw [after_take_length]
      exact hmapped
    · rw [after_take_concat hold]
      exact hsince n hn hold

theorem mappedAt_last (hnew : (after capacity ops).isMapped id = false)
    (hmapped : (after capacity (ops ++ [op])).isMapped id = true) :
    MappedAt capacity (ops ++ [op]) id ops.length := by
  refine ⟨by simp, ?_, fun n hn hle => ?_⟩
  · rw [after_take_concat (Nat.le_refl _), List.take_length]
    exact hnew
  · obtain rfl : n = ops.length + 1 := by
      simp only [List.length_append, List.length_singleton] at hle
      omega
    rw [after_take_length]
    exact hmapped

theorem MappedOver.concat (h : MappedOver capacity ops image buffer time)
    (himage : (after capacity (ops ++ [op])).isMapped image = true)
    (hbuffer : (after capacity (ops ++ [op])).isMapped buffer = true) :
    MappedOver capacity (ops ++ [op]) image buffer time := by
  have htime := h.mapped.1
  obtain ⟨object, start, hcall, hid, hbase, hanswer⟩ := h.call
  refine ⟨h.mapped.concat himage, ⟨object, start, ?_, hid, hbase, ?_⟩, fun n hn hle => ?_⟩
  · rw [List.getElem?_append_left htime, hcall]
  · rw [List.take_append_of_le_length (Nat.le_of_lt htime)]
    exact hanswer
  · rcases Nat.lt_or_ge ops.length n with hlast | hold
    · obtain rfl : n = ops.length + 1 := by
        simp only [List.length_append, List.length_singleton] at hle
        omega
      rw [after_take_length]
      exact hbuffer
    · rw [after_take_concat hold]
      exact h.base n hn hold

/-! ## Sub-objects where their calls put them -/

/-- A mapping was there before the call, or the call made it. -/
theorem find?_perform {memory : GlobalMemory} {mapping : Mapping} (hlisted : memory.Listed)
    (h : (memory.perform op).2.mappings.find? id = some mapping) :
    memory.mappings.find? id = some mapping ∨
      memory.mappings.find? id = none ∧
        ∀ parent, mapping.storage = .inside parent → memory.PlacedBy op id parent mapping := by
  have hchange := memory.perform_change op
  generalize (memory.perform op).1 = answer at hchange
  generalize (memory.perform op).2 = memory' at hchange h
  cases hchange with
  | moves => exact .inl h
  | frees =>
    obtain ⟨gone, hgone⟩ := free_spec hlisted _
    exact .inl (hgone.tables.of_find? h).2
  | @maps object _ _ call outcome =>
    -- A new mapping that is no part of another one has nothing to answer for.
    have hroot : ∀ new : Mapping, memory.mappings.find? object.id = none → (∀ parent, new.storage ≠ .inside parent) →
        (memory.mappings.insert object.id new).find? id = some mapping →
          memory.mappings.find? id = some mapping ∨
            memory.mappings.find? id = none ∧
              ∀ parent, mapping.storage = .inside parent → memory.PlacedBy op id parent mapping := by
      intro new hnew hstorage hfound
      rw [Dict.find?_insert] at hfound
      split at hfound
      · next heq =>
        obtain rfl := Option.some.inj hfound
        exact .inr ⟨heq ▸ hnew, fun parent hinside => absurd hinside (hstorage parent)⟩
      · exact .inl hfound
    cases outcome with
    | known | orphan | misfit | rejected => exact .inl h
    | lent new => exact hroot _ new (by simp) h
    | broken new => exact hroot _ new (by simp) h
    | owned new => exact hroot _ new (by simp) h
    | @inside region outer new part found fits =>
      rw [Dict.find?_insert] at h
      split at h
      · next heq =>
        obtain rfl := Option.some.inj h
        refine .inr ⟨heq ▸ new, fun parent hstorage => ?_⟩
        obtain rfl : region.parent = parent := by simpa using hstorage
        rcases call with rfl | ⟨any, rfl, rfl⟩
        · exact ⟨object, region.offset, outer, rfl, heq.symm, part, found, fits.2, rfl⟩
        · simp [MemoryObject.buffer] at part
      · exact .inl h

theorem mappedInside_after (capacity : Nat) (ops : List MemoryOp) {mapping : Mapping} {parent : ObjectId}
    (hfound : (after capacity ops).mappings.find? id = some mapping) (hstorage : mapping.storage = .inside parent) :
    ∃ time, MappedInside capacity ops id parent mapping time := by
  induction ops using List.reverseRecOn generalizing id with
  | nil => simp [after, ofCapacity, Dict.find?, Dict.search] at hfound
  | append_singleton ops op ih =>
    have hlisted := (coherent_after capacity ops).toListed
    have hmapped := isMapped_iff.2 ⟨mapping, hfound⟩
    obtain ⟨-, outer, -, houter, -⟩ := (coherent_after capacity (ops ++ [op])).inside id mapping parent hfound hstorage
    -- The parent is a mapping from before the call in any case, so it is where it was.
    have hsame : ∀ old, (after capacity ops).mappings.find? parent = some old → old = outer := by
      intro old hold
      rw [after_concat] at houter
      rcases find?_perform hlisted houter with hkept | ⟨hnew, -⟩
      · exact Option.some.inj (hold.symm.trans hkept)
      · simp [hold] at hnew
    rw [after_concat] at hfound
    rcases find?_perform hlisted hfound with hold | ⟨hnew, hmade⟩
    · obtain ⟨time, htime, call, hcall, object, offset, old, hmap, hid, hpart, hparent, hplace⟩ := ih hold
      obtain rfl := hsame old hparent
      refine ⟨time, htime.concat hmapped, call, ?_, object, offset, old, hmap, hid, hpart, houter, hplace⟩
      rw [List.getElem?_append_left htime.1, hcall]
    · obtain ⟨object, offset, old, hmap, hid, hpart, hparent, hplace⟩ := hmade parent hstorage
      obtain rfl := hsame old hparent
      have hbefore : (after capacity ops).isMapped id = false := by simp [isMapped, Dict.contains, hnew]
      refine ⟨ops.length, mappedAt_last hbefore hmapped, op, by simp, ?_⟩
      exact ⟨object, offset, old, hmap, hid, hpart, houter, hplace⟩

/-! ## Attached images in the order of their calls -/

/-- The list of a buffer's images against the history. -/
def Chronological (capacity : Nat) (ops : List MemoryOp) (buffer : ObjectId) (images : List ObjectId) : Prop :=
  (∀ image ∈ images, ∃ time, MappedOver capacity ops image buffer time) ∧
    images.Pairwise (MappedBefore capacity ops buffer)

theorem Chronological.concat {images : List ObjectId} (h : Chronological capacity ops buffer images)
    (hbuffer : (after capacity (ops ++ [op])).isMapped buffer = true)
    (himages : ∀ image ∈ images, (after capacity (ops ++ [op])).isMapped image = true) :
    Chronological capacity (ops ++ [op]) buffer images := by
  constructor
  · intro image himage
    obtain ⟨time, htime⟩ := h.1 image himage
    exact ⟨time, htime.concat (himages image himage) hbuffer⟩
  · refine List.Pairwise.imp_of_mem (fun hfirst hsecond hbefore => ?_) h.2
    obtain ⟨time, later, hlt, htime, hlater⟩ := hbefore
    exact ⟨time, later, hlt, htime.concat (himages _ hfirst) hbuffer, hlater.concat (himages _ hsecond) hbuffer⟩

theorem Chronological.sublist {images fewer : List ObjectId} (h : Chronological capacity ops buffer images)
    (hfewer : fewer.Sublist images) : Chronological capacity ops buffer fewer :=
  ⟨fun image himage => h.1 image (hfewer.subset himage), h.2.sublist hfewer⟩

/-- A new image comes after all others, as all of their calls did. -/
theorem Chronological.snoc {images : List ObjectId} (h : Chronological capacity ops buffer images)
    (hbuffer : (after capacity (ops ++ [op])).isMapped buffer = true)
    (himages : ∀ image ∈ images, (after capacity (ops ++ [op])).isMapped image = true)
    (hnew : MappedOver capacity (ops ++ [op]) image buffer ops.length) :
    Chronological capacity (ops ++ [op]) buffer (images ++ [image]) := by
  have hold := h.concat hbuffer himages
  constructor
  · intro other hother
    rcases List.mem_append.1 hother with hother | hother
    · exact hold.1 other hother
    · obtain rfl : other = image := by simpa using hother
      exact ⟨ops.length, hnew⟩
  · refine List.pairwise_append.2 ⟨hold.2, List.pairwise_singleton _ _, fun first hfirst last hlast => ?_⟩
    obtain rfl : last = image := by simpa using hlast
    obtain ⟨time, htime⟩ := h.1 first hfirst
    exact ⟨time, ops.length, htime.mapped.1, htime.concat (himages first hfirst) hbuffer, hnew⟩

/-- A call leaves of each list of images a part, or puts the image it mapped behind it. -/
theorem attachments_perform {memory : GlobalMemory} (hlisted : memory.Listed) (op : MemoryOp) (buffer : ObjectId) :
    (((memory.perform op).2.attachedImages buffer).Sublist (memory.attachedImages buffer)) ∨
      ∃ object start, op = .map object ∧ baseOf object = some buffer ∧ memory.isMapped object.id = false ∧
        memory.isMapped buffer = true ∧ (memory.perform op).1 = .address start ∧
        (memory.perform op).2.attachedImages buffer = memory.attachedImages buffer ++ [object.id] := by
  have hchange := memory.perform_change op
  generalize (memory.perform op).1 = answer at hchange
  generalize (memory.perform op).2 = memory' at hchange
  cases hchange with
  | moves => exact .inl (List.Sublist.refl _)
  | @frees object =>
    obtain ⟨gone, hgone⟩ := free_spec hlisted object
    refine .inl ?_
    unfold attachedImages Dict.findD
    rw [hgone.tables.attachments]
    split
    · exact List.nil_sublist _
    · cases hbefore : memory.attachments.find? buffer with
      | none => exact List.nil_sublist _
      | some images =>
        cases hafter : prune gone (some images) with
        | none => exact List.nil_sublist _
        | some rest =>
          obtain ⟨_, hall, rfl, -⟩ := prune_eq_some_iff.1 hafter
          obtain rfl := Option.some.inj hall
          exact List.filter_sublist
  | @maps object _ _ call outcome =>
    cases outcome with
    | known | orphan | misfit | inside | lent | rejected | broken => exact .inl (List.Sublist.refl _)
    | @owned heap _ new _ _ _ hbuffer =>
      unfold attachedImages Dict.findD attached
      cases hbase : baseOf object with
      | none => exact .inl (List.Sublist.refl _)
      | some base =>
        simp only [Dict.find?_insert]
        by_cases heq : buffer = base
        · rcases call with rfl | ⟨any, rfl, rfl⟩
          · refine .inr ⟨object, _, rfl, by rw [hbase, heq], ?_, heq ▸ hbuffer base hbase, rfl, ?_⟩
            · simp [isMapped, Dict.contains, new]
            · simp [heq, attachedImages, Dict.findD]
          · simp [baseOf, MemoryObject.buffer] at hbase
        · refine .inl ?_
          rw [if_neg heq]

theorem chronological_after (capacity : Nat) (ops : List MemoryOp) (buffer : ObjectId) :
    Chronological capacity ops buffer ((after capacity ops).attachedImages buffer) := by
  induction ops using List.reverseRecOn generalizing buffer with
  | nil => exact ⟨fun _ h => absurd h List.not_mem_nil, List.Pairwise.nil⟩
  | append_singleton ops op ih =>
    have hcoherent := coherent_after capacity (ops ++ [op])
    have hmapped : ∀ image ∈ (after capacity (ops ++ [op])).attachedImages buffer,
        (after capacity (ops ++ [op])).isMapped image = true ∧
          (after capacity (ops ++ [op])).isMapped buffer = true := by
      intro image himage
      obtain ⟨ids, hids, hmem⟩ := mem_findD_iff.1 himage
      obtain ⟨-, -, hbuffer, himages⟩ := hcoherent.attached buffer ids hids
      exact ⟨himages image hmem, hbuffer⟩
    rcases attachments_perform (coherent_after capacity ops).toListed op buffer with
      hless | ⟨object, start, rfl, hbase, hnew, hbuffer, hanswer, hmore⟩
    · rw [← after_concat] at hless
      have hpart := (ih buffer).sublist hless
      cases himages : (after capacity (ops ++ [op])).attachedImages buffer with
      | nil => exact ⟨fun _ h => absurd h List.not_mem_nil, List.Pairwise.nil⟩
      | cons first rest =>
        rw [himages] at hpart hmapped
        exact hpart.concat (hmapped first List.mem_cons_self).2 fun image himage => (hmapped image himage).1
    · rw [← after_concat] at hmore
      rw [hmore] at hmapped ⊢
      obtain ⟨himage, hstays⟩ := hmapped object.id (by simp)
      refine (ih buffer).snoc hstays (fun image hold => (hmapped image (by simp [hold])).1) ?_
      refine ⟨mappedAt_last hnew himage, ⟨object, start, by simp, rfl, hbase, ?_⟩, fun n hn hle => ?_⟩
      · rw [List.take_append_of_le_length (Nat.le_refl _), List.take_length]
        exact hanswer
      · rcases Nat.eq_or_lt_of_le hn with rfl | hlast
        · rw [after_take_concat (Nat.le_refl _), List.take_length]
          exact hbuffer
        · obtain rfl : n = ops.length + 1 := by
            simp only [List.length_append, List.length_singleton] at hle
            omega
          rw [after_take_length]
          exact hstays

end Runs

/-- In every state of every run nothing stands on storage that is gone. -/
theorem grounded_after (capacity : Nat) (ops : List MemoryOp) : Grounded capacity ops := by
  have h := coherent_after capacity ops
  have hmember : ∀ id parent, id ∈ (after capacity ops).subObjects.findD parent [] →
      ∃ mapping, (after capacity ops).mappings.find? id = some mapping ∧ mapping.storage = .inside parent := by
    intro id parent hid
    obtain ⟨ids, hids, hmem⟩ := mem_findD_iff.1 hid
    exact (h.listed parent ids hids).2.2 id hmem
  constructor
  · intro id mapping parent hfound hstorage
    exact mappedInside_after capacity ops hfound hstorage
  · intro id mapping hfound
    obtain ⟨root, base, hroot, hbelow⟩ := h.rooted id mapping hfound
    obtain ⟨distance, hstart, hsize⟩ := h.within hroot hbelow hfound
    exact ⟨root, base, distance, hroot, hbelow, hstart, hsize⟩
  · intro id mapping parent hfound hstorage
    constructor
    · have hmem := (h.inside id mapping parent hfound hstorage).1
      obtain ⟨ids, hids, hin⟩ := mem_findD_iff.1 hmem
      rw [Dict.findD, hids]
      exact List.count_eq_one_of_mem (h.listed parent ids hids).2.1 hin
    · intro other hne hother
      obtain ⟨found, hfound', hstorage'⟩ := hmember id other hother
      obtain rfl : mapping = found := by simpa [hfound] using hfound'
      rw [hstorage] at hstorage'
      exact hne (Storage.inside.inj hstorage').symm
  · intro parent ids hids
    obtain ⟨hne, -, hmembers⟩ := h.listed parent ids hids
    exact ⟨hne, hmembers⟩
  · intro buffer image himage
    obtain ⟨ids, hids, hmem⟩ := mem_findD_iff.1 himage
    obtain ⟨-, -, hbuffer, himages⟩ := h.attached buffer ids hids
    exact ⟨himages image hmem, hbuffer, (chronological_after capacity ops buffer).1 image himage⟩
  · intro buffer
    refine ⟨?_, (chronological_after capacity ops buffer).2⟩
    unfold attachedImages Dict.findD
    cases hids : (after capacity ops).attachments.find? buffer with
    | none => exact List.nodup_nil
    | some ids => exact (h.attached buffer ids hids).2.1

end ComputeCore.GlobalMemory
