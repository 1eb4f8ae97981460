import ComputeCore.Memory.Global
import ComputeCore.Proofs.Dict
/-!
# What a release takes away

Releasing an object takes out a list of objects: itself, everything listed as mapped inside it, and so
on. `Released` says what the three tables look like afterwards: the mappings are those of the other
objects, and the lists keep their other members, in order, as long as they have any.

During a release the tables do not agree with each other: an object's mapping and list are gone before
the objects inside it are released, and only then it leaves its parent's list. `Listed` is what they
keep all along, and `releaseTo_spec` is the induction on the depth of the nesting.
-/

namespace ComputeCore.GlobalMemory

/-- The lists name only what is mapped inside, if it is still mapped, and are not empty. -/
structure Listed (memory : GlobalMemory) : Prop where
  distinct : memory.attachments.Distinct
  members : ∀ parent ids, memory.subObjects.find? parent = some ids → ids ≠ [] ∧
    ∀ id ∈ ids, ∀ mapping, memory.mappings.find? id = some mapping → mapping.storage = .inside parent
  images : ∀ buffer ids, memory.attachments.find? buffer = some ids → ids ≠ []

/-- What is left of a list without the members that are gone. -/
def prune (gone : List ObjectId) (ids : Option (List ObjectId)) : Option (List ObjectId) :=
  (ids.map (·.filter (· ∉ gone))).filter (· ≠ [])

/-- The tables without the objects that are gone. -/
structure Released (memory memory' : GlobalMemory) (gone : List ObjectId) : Prop where
  mappings : memory'.mappings = memory.mappings.without gone
  subObjects : ∀ id, memory'.subObjects.find? id =
    if id ∈ gone then none else prune gone (memory.subObjects.find? id)
  attachments : ∀ id, memory'.attachments.find? id =
    if id ∈ gone then none else prune gone (memory.attachments.find? id)
  distinct : memory'.attachments.Distinct

/-- Whatever is listed inside an object that is gone is gone too. -/
def Closed (memory : GlobalMemory) (gone : List ObjectId) : Prop :=
  ∀ parent id, parent ∈ gone → id ∈ memory.subObjects.findD parent [] → memory.isMapped id = true → id ∈ gone

/-- An object is mapped inside another one, at any depth, or is that object itself. -/
inductive Below (memory : GlobalMemory) (top : ObjectId) : ObjectId → Prop
  | self {mapping} : memory.mappings.find? top = some mapping → Below memory top top
  | inside {id mapping parent} : Below memory top parent → memory.mappings.find? id = some mapping →
      mapping.storage = .inside parent → Below memory top id

/-- What a mapping takes of the capacity. -/
def charge (mapping : Mapping) : Nat :=
  if mapping.storage = .owned then mapping.size else 0

/-- What an object takes of the capacity. -/
def chargeOf (memory : GlobalMemory) (object : ObjectId) : Nat :=
  match memory.mappings.find? object with
  | some mapping => charge mapping
  | none => 0

/-- The heap once an object's block is given back, if it has one of its own. -/
def heapWithout (memory : GlobalMemory) (object : ObjectId) : Heap :=
  match memory.mappings.find? object with
  | some mapping => if mapping.storage = .owned then memory.heap.release mapping.start.block else memory.heap
  | none => memory.heap

section Tables
variable {memory memory' memory'' : GlobalMemory} {gone more : List ObjectId} {object id : ObjectId}

/-! ## Lists without what is gone -/

theorem isMapped_iff : memory.isMapped id = true ↔ ∃ mapping, memory.mappings.find? id = some mapping :=
  Option.isSome_iff_exists

theorem isMapped_eq_false_iff : memory.isMapped id = false ↔ memory.mappings.find? id = none := by
  simp [isMapped, Dict.contains]

theorem mem_findD_iff {table : Dict ObjectId (List ObjectId)} {key : ObjectId} :
    id ∈ table.findD key [] ↔ ∃ ids, table.find? key = some ids ∧ id ∈ ids := by
  unfold Dict.findD
  cases table.find? key <;> simp

theorem prune_eq_some_iff {ids : Option (List ObjectId)} {rest : List ObjectId} :
    prune gone ids = some rest ↔ ∃ all, ids = some all ∧ rest = all.filter (· ∉ gone) ∧ rest ≠ [] := by
  simp only [prune, Option.filter_eq_some_iff, Option.map_eq_some_iff, decide_eq_true_eq]
  constructor
  · rintro ⟨⟨all, hall, rfl⟩, hne⟩
    exact ⟨all, hall, rfl, hne⟩
  · rintro ⟨all, hall, rfl, hne⟩
    exact ⟨⟨all, hall, rfl⟩, hne⟩

theorem prune_prune (ids : Option (List ObjectId)) : prune more (prune gone ids) = prune (gone ++ more) ids := by
  apply Option.ext
  intro rest
  simp only [prune_eq_some_iff]
  constructor
  · rintro ⟨_, ⟨all, rfl, rfl, -⟩, rfl, hne⟩
    refine ⟨all, rfl, ?_, hne⟩
    simp [List.filter_filter, Bool.and_comm]
  · rintro ⟨all, rfl, rfl, hne⟩
    have hfilter : all.filter (· ∉ gone ++ more) = (all.filter (· ∉ gone)).filter (· ∉ more) := by
      simp [List.filter_filter, Bool.and_comm]
    rw [hfilter] at hne ⊢
    exact ⟨_, ⟨all, rfl, rfl, fun hnil => hne (by rw [hnil, List.filter_nil])⟩, rfl, hne⟩

/-- A list that names nothing of what is gone stays as it is. -/
theorem prune_of_forall {ids : Option (List ObjectId)}
    (h : ∀ all, ids = some all → all ≠ [] ∧ ∀ id ∈ all, id ∉ gone) : prune gone ids = ids := by
  apply Option.ext
  intro rest
  rw [prune_eq_some_iff]
  constructor
  · rintro ⟨all, rfl, rfl, -⟩
    rw [List.filter_eq_self.2 fun id hid => by simpa using (h all rfl).2 id hid]
  · rintro rfl
    refine ⟨rest, rfl, ?_, (h rest rfl).1⟩
    rw [List.filter_eq_self.2 fun id hid => by simpa using (h rest rfl).2 id hid]

theorem prune_singleton (ids : List ObjectId) : prune [object] (some ids) =
    if ids.filter (· ≠ object) = [] then none else some (ids.filter (· ≠ object)) := by
  have hfilter : ids.filter (· ∉ [object]) = ids.filter (· ≠ object) := by simp
  simp only [prune, Option.map_some, hfilter, Option.filter_some]
  cases ids.filter (· ≠ object) <;> rfl

theorem find?_unlist {table : Dict ObjectId (List ObjectId)} (h : table.Distinct) :
    (unlist object table).find? id = prune [object] (table.find? id) := by
  rw [unlist, h.find?_filterMap]
  cases table.find? id with
  | none => rfl
  | some ids =>
    rw [prune_singleton, Option.bind_some]
    cases ids.filter (· ≠ object) <;> rfl

theorem find?_leaveParent (table : Dict ObjectId (List ObjectId)) (parent : ObjectId) :
    (leaveParent table parent object).find? id =
      if id = parent then prune [object] (table.find? id) else table.find? id := by
  unfold leaveParent
  by_cases heq : id = parent
  · subst heq
    rw [if_pos rfl]
    cases hids : table.find? id with
    | none => simpa [prune] using hids
    | some siblings =>
      simp only [prune_singleton]
      cases siblings.filter (· ≠ object) with
      | nil => exact Dict.find?_erase_self table id
      | cons first rest => exact Dict.find?_insert_self table id (first :: rest)
  · rw [if_neg heq]
    cases table.find? parent with
    | none => rfl
    | some siblings =>
      simp only []
      cases siblings.filter (· ≠ object) with
      | nil => exact Dict.find?_erase_other table heq
      | cons first rest => exact Dict.find?_insert_other table (first :: rest) heq

/-! ## One release after another -/

theorem Released.refl (h : memory.Listed) : Released memory memory [] where
  mappings := (Dict.without_nil _).symm
  subObjects id := by
    rw [if_neg List.not_mem_nil]
    exact (prune_of_forall fun ids hids => ⟨(h.members id ids hids).1, by simp⟩).symm
  attachments id := by
    rw [if_neg List.not_mem_nil]
    exact (prune_of_forall fun ids hids => ⟨h.images id ids hids, by simp⟩).symm
  distinct := h.distinct

theorem prune_twice (id : ObjectId) (ids : Option (List ObjectId)) :
    (if id ∈ more then none else prune more (if id ∈ gone then none else prune gone ids)) =
      if id ∈ gone ++ more then none else prune (gone ++ more) ids := by
  by_cases hgone : id ∈ gone <;> by_cases hmore : id ∈ more
  · simp [hmore, hgone]
  · simp [hmore, hgone, prune]
  · simp [hmore]
  · simp [hmore, hgone, prune_prune]

theorem Released.trans (h : Released memory memory' gone) (h' : Released memory' memory'' more) :
    Released memory memory'' (gone ++ more) where
  mappings := by rw [h'.mappings, h.mappings, Dict.without_without]
  subObjects id := by rw [h'.subObjects, h.subObjects, prune_twice]
  attachments id := by rw [h'.attachments, h.attachments, prune_twice]
  distinct := h'.distinct

theorem Released.find? (h : Released memory memory' gone) (id : ObjectId) :
    memory'.mappings.find? id = if id ∈ gone then none else memory.mappings.find? id := by
  rw [h.mappings, Dict.find?_without]

theorem Released.of_find? (h : Released memory memory' gone) {mapping : Mapping}
    (hid : memory'.mappings.find? id = some mapping) :
    id ∉ gone ∧ memory.mappings.find? id = some mapping := by
  rw [h.find?] at hid
  split at hid
  · simp at hid
  · next hkept => exact ⟨hkept, hid⟩

theorem Released.listed (h : Released memory memory' gone) (hlisted : memory.Listed) : memory'.Listed where
  distinct := h.distinct
  members parent ids hids := by
    rw [h.subObjects] at hids
    split at hids
    · simp at hids
    · obtain ⟨all, hall, rfl, hne⟩ := prune_eq_some_iff.1 hids
      refine ⟨hne, fun id hid mapping hmapping => ?_⟩
      exact (hlisted.members parent all hall).2 id (List.mem_filter.1 hid).1 mapping (h.of_find? hmapping).2
  images buffer ids hids := by
    rw [h.attachments] at hids
    split at hids
    · simp at hids
    · obtain ⟨all, -, rfl, hne⟩ := prune_eq_some_iff.1 hids
      exact hne

theorem Closed.trans (hclosed : memory.Closed gone) (h : Released memory memory' gone)
    (hclosed' : memory'.Closed more) : memory.Closed (gone ++ more) := by
  intro parent id hparent hid hmapped
  by_cases hgone : parent ∈ gone
  · exact List.mem_append_left _ (hclosed parent id hgone hid hmapped)
  · by_cases hfirst : id ∈ gone
    · exact List.mem_append_left _ hfirst
    · refine List.mem_append_right _ (hclosed' parent id ?_ ?_ ?_)
      · exact (List.mem_append.1 hparent).resolve_left hgone
      · -- The list still names what the first release left.
        obtain ⟨ids, hids, hmem⟩ := mem_findD_iff.1 hid
        have hkept : id ∈ ids.filter (· ∉ gone) := List.mem_filter.2 ⟨hmem, by simpa using hfirst⟩
        refine mem_findD_iff.2 ⟨ids.filter (· ∉ gone), ?_, hkept⟩
        rw [h.subObjects, if_neg hgone, prune_eq_some_iff]
        exact ⟨ids, hids, rfl, List.ne_nil_of_mem hkept⟩
      · obtain ⟨mapping, hmapping⟩ := isMapped_iff.1 hmapped
        exact isMapped_iff.2 ⟨mapping, by rw [h.find?, if_neg hfirst, hmapping]⟩

theorem Below.mono {top : ObjectId} (h : memory'.Below top id)
    (hsub : ∀ id mapping, memory'.mappings.find? id = some mapping → memory.mappings.find? id = some mapping) :
    memory.Below top id := by
  induction h with
  | self hmapping => exact .self (hsub _ _ hmapping)
  | inside _ hmapping hstorage ih => exact .inside ih (hsub _ _ hmapping) hstorage

theorem Below.top_mapped {top : ObjectId} (h : memory.Below top id) :
    ∃ mapping, memory.mappings.find? top = some mapping := by
  induction h with
  | self hmapping => exact ⟨_, hmapping⟩
  | inside _ _ _ ih => exact ih

theorem Below.trans {top middle : ObjectId} (h : memory.Below top middle) (h' : memory.Below middle id) :
    memory.Below top id := by
  induction h' with
  | self _ => exact h
  | inside _ hmapping hstorage ih => exact .inside ih hmapping hstorage

/-! ## The induction -/

/-- An object taken out with the list of what is inside it, which is to be released next. -/
def takeOut (memory : GlobalMemory) (object : ObjectId) : GlobalMemory :=
  { memory with
    mappings := memory.mappings.erase object
    subObjects := memory.subObjects.erase object }

/-- What is left to do once everything inside an object is released. -/
def finish (memory : GlobalMemory) (object : ObjectId) (mapping : Mapping) : GlobalMemory :=
  let settled := memory.settleStorage object mapping
  { settled with attachments := unlist object (settled.attachments.erase object) }

theorem size_takeOut_lt {mapping : Mapping} (h : memory.mappings.find? object = some mapping) :
    (memory.takeOut object).mappings.size < memory.mappings.size :=
  Dict.size_erase_lt h

theorem find?_of_takeOut {mapping : Mapping} (h : (memory.takeOut object).mappings.find? id = some mapping) :
    memory.mappings.find? id = some mapping := by
  rw [takeOut, Dict.find?_erase] at h
  split at h
  · simp at h
  · exact h

/-- What is listed inside an object has no storage of its own. -/
theorem Listed.inside (h : memory.Listed) {mapping : Mapping} (hid : id ∈ memory.subObjects.findD object [])
    (hfound : memory.mappings.find? id = some mapping) : mapping.storage = .inside object := by
  obtain ⟨ids, hids, hmem⟩ := mem_findD_iff.1 hid
  exact (h.members object ids hids).2 id hmem mapping hfound

theorem releaseTo_succ {mapping : Mapping} (depth : Nat) (h : memory.mappings.find? object = some mapping) :
    releaseTo (depth + 1) memory object =
      ((memory.subObjects.findD object []).foldl (releaseTo depth) (memory.takeOut object)).finish
        object mapping := by
  simp [releaseTo, h, takeOut, finish]

theorem releaseTo_of_unmapped (depth : Nat) (h : memory.mappings.find? object = none) :
    releaseTo depth memory object = memory := by
  cases depth with
  | zero => rfl
  | succ depth => simp [releaseTo, h]

section Finish
variable {mapping : Mapping}

theorem capacity_finish : (memory.finish object mapping).capacity = memory.capacity := by
  unfold finish settleStorage
  cases mapping.storage <;> rfl

theorem available_finish :
    (memory.finish object mapping).available = memory.available + charge mapping := by
  unfold finish settleStorage charge
  cases mapping.storage <;> rfl

theorem heap_finish : (memory.finish object mapping).heap =
    if mapping.storage = .owned then memory.heap.release mapping.start.block else memory.heap := by
  unfold finish settleStorage
  cases mapping.storage <;> rfl

theorem mappings_finish : (memory.finish object mapping).mappings = memory.mappings := by
  unfold finish settleStorage
  cases mapping.storage <;> rfl

theorem attachments_finish : (memory.finish object mapping).attachments =
    unlist object (memory.attachments.erase object) := by
  unfold finish settleStorage
  cases mapping.storage <;> rfl

end Finish

theorem Listed.takeOut (h : memory.Listed) (object : ObjectId) : (memory.takeOut object).Listed where
  distinct := h.distinct
  members parent ids hids := by
    simp only [GlobalMemory.takeOut, Dict.find?_erase] at hids
    split at hids
    · simp at hids
    · refine ⟨(h.members parent ids hids).1, fun id hid mapping hmapping => ?_⟩
      exact (h.members parent ids hids).2 id hid mapping (find?_of_takeOut hmapping)
  images := h.images

/-- What releasing one object does: the tables lose the objects below it, and its storage, if it is its
own, goes back. -/
structure Releases (memory memory' : GlobalMemory) (object : ObjectId) (gone : List ObjectId) : Prop where
  tables : Released memory memory' gone
  closed : memory.Closed gone
  below : ∀ id ∈ gone, memory.Below object id
  top : memory.isMapped object = true → object ∈ gone
  capacity : memory'.capacity = memory.capacity
  available : memory'.available = memory.available + memory.chargeOf object
  charged : memory.mappings.Distinct →
    memory'.mappings.total charge + memory.chargeOf object = memory.mappings.total charge
  heap : memory'.heap = memory.heapWithout object

/-- What releasing several objects does that have no storage of their own. -/
structure ReleasesAll (memory memory' : GlobalMemory) (ids gone : List ObjectId) : Prop where
  tables : Released memory memory' gone
  closed : memory.Closed gone
  below : ∀ id ∈ gone, ∃ top ∈ ids, memory.Below top id
  tops : ∀ top ∈ ids, memory.isMapped top = true → top ∈ gone
  capacity : memory'.capacity = memory.capacity
  available : memory'.available = memory.available
  charged : memory.mappings.Distinct → memory'.mappings.total charge = memory.mappings.total charge
  heap : memory'.heap = memory.heap

theorem chargeOf_eq_zero (h : ∀ mapping, memory.mappings.find? object = some mapping → mapping.storage ≠ .owned) :
    memory.chargeOf object = 0 := by
  unfold chargeOf
  split
  · next mapping hmapping => exact if_neg (h mapping hmapping)
  · rfl

theorem heapWithout_eq (h : ∀ mapping, memory.mappings.find? object = some mapping → mapping.storage ≠ .owned) :
    memory.heapWithout object = memory.heap := by
  unfold heapWithout
  split
  · next mapping hmapping => exact if_neg (h mapping hmapping)
  · rfl

theorem releases_of_unmapped (hlisted : memory.Listed) (h : memory.mappings.find? object = none)
    (heq : memory' = memory) : Releases memory memory' object [] := by
  subst heq
  refine ⟨.refl hlisted, fun _ _ hnil => by simp at hnil, by simp, fun hmapped => ?_, rfl, ?_, fun _ => ?_, ?_⟩
  · obtain ⟨mapping, hmapping⟩ := isMapped_iff.1 hmapped
    simp [h] at hmapping
  · rw [chargeOf_eq_zero (by simp [h]), Nat.add_zero]
  · rw [chargeOf_eq_zero (by simp [h]), Nat.add_zero]
  · rw [heapWithout_eq (by simp [h])]

theorem releasesAll_foldl {release : GlobalMemory → ObjectId → GlobalMemory} {depth : Nat}
    (hone : ∀ memory object, Listed memory → memory.mappings.size ≤ depth →
      ∃ gone, Releases memory (release memory object) object gone)
    (ids : List ObjectId) (hlisted : memory.Listed) (hdepth : memory.mappings.size ≤ depth)
    (hids : ∀ id ∈ ids, ∀ mapping, memory.mappings.find? id = some mapping → mapping.storage ≠ .owned) :
    ∃ gone, ReleasesAll memory (ids.foldl release memory) ids gone := by
  induction ids generalizing memory with
  | nil => exact ⟨[], .refl hlisted, fun _ _ h => by simp at h, by simp, by simp, rfl, rfl, fun _ => rfl, rfl⟩
  | cons id ids ih =>
    obtain ⟨gone, hfirst⟩ := hone memory id hlisted hdepth
    have hsize : (release memory id).mappings.size ≤ depth := by
      rw [hfirst.tables.mappings]
      exact Nat.le_trans (Dict.size_without_le _ _) hdepth
    -- An object without storage of its own gives nothing back.
    have hown := hids id List.mem_cons_self
    obtain ⟨more, hrest⟩ := ih (hfirst.tables.listed hlisted) hsize fun other hother mapping hmapping =>
      hids other (List.mem_cons_of_mem _ hother) mapping (hfirst.tables.of_find? hmapping).2
    refine ⟨gone ++ more, hfirst.tables.trans hrest.tables, hfirst.closed.trans hfirst.tables hrest.closed,
      ?_, ?_, hrest.capacity.trans hfirst.capacity, ?_, fun hdistinct => ?_, ?_⟩
    · intro other hother
      rcases List.mem_append.1 hother with hother | hother
      · exact ⟨id, List.mem_cons_self, hfirst.below other hother⟩
      · obtain ⟨top, htop, hbelow⟩ := hrest.below other hother
        exact ⟨top, List.mem_cons_of_mem _ htop, hbelow.mono fun _ _ h => (hfirst.tables.of_find? h).2⟩
    · -- A later one may have gone with an earlier one, if it was mapped inside it.
      intro top htop hmapped
      rw [List.mem_append]
      by_cases hgone : top ∈ gone
      · exact .inl hgone
      · rcases List.mem_cons.1 htop with rfl | htop
        · exact .inl (hfirst.top hmapped)
        · obtain ⟨mapping, hmapping⟩ := isMapped_iff.1 hmapped
          refine .inr (hrest.tops top htop (isMapped_iff.2 ⟨mapping, ?_⟩))
          rw [hfirst.tables.find?, if_neg hgone, hmapping]
    · rw [List.foldl_cons, hrest.available, hfirst.available, chargeOf_eq_zero hown, Nat.add_zero]
    · have hafter : (release memory id).mappings.Distinct := hfirst.tables.mappings ▸ hdistinct.without gone
      rw [List.foldl_cons, hrest.charged hafter, ← hfirst.charged hdistinct, chargeOf_eq_zero hown, Nat.add_zero]
    · rw [List.foldl_cons, hrest.heap, hfirst.heap, heapWithout_eq hown]

/-- Going after the others comes to the same as going before them. -/
theorem prune_last (id : ObjectId) (ids : Option (List ObjectId)) :
    prune [object] (if id ∈ gone then none else prune gone (if id = object then none else ids)) =
      if id ∈ object :: gone then none else prune (object :: gone) ids := by
  have hswap : prune (gone ++ [object]) ids = prune (object :: gone) ids := by
    unfold prune
    congr 2
    funext all
    simp [Bool.and_comm]
  by_cases hgone : id ∈ gone <;> by_cases heq : id = object
  · simp [hgone, prune]
  · simp [hgone, prune]
  · simp [heq, prune]
  · simp [hgone, heq, prune_prune, hswap]

/-- The object itself leaves the tables last. In the lists it stands only below its parent, so there is
nothing to take out of the others. -/
theorem Released.finish {mapping : Mapping} (hlisted : memory.Listed)
    (hobject : memory.mappings.find? object = some mapping)
    (h : Released (memory.takeOut object) memory' gone) :
    Released memory (memory'.finish object mapping) (object :: gone) := by
  have helsewhere : ∀ parent, mapping.storage ≠ .inside parent →
      prune [object] (memory'.subObjects.find? parent) = memory'.subObjects.find? parent := by
    intro parent hstorage
    refine prune_of_forall fun all hall => ?_
    rw [h.subObjects] at hall
    split at hall
    · simp at hall
    · obtain ⟨before, hbefore, rfl, hne⟩ := prune_eq_some_iff.1 hall
      refine ⟨hne, fun id hid hsingle => ?_⟩
      obtain rfl : id = object := by simpa using hsingle
      simp only [GlobalMemory.takeOut, Dict.find?_erase] at hbefore
      split at hbefore
      · simp at hbefore
      · exact hstorage ((hlisted.members parent before hbefore).2 id (List.mem_filter.1 hid).1 mapping hobject)
  refine ⟨?_, fun id => ?_, fun id => ?_, ?_⟩
  · rw [mappings_finish, h.mappings, GlobalMemory.takeOut, Dict.erase_eq_without, Dict.without_without]
    rfl
  · have hafter := h.subObjects id
    simp only [GlobalMemory.takeOut, Dict.find?_erase] at hafter
    rw [← prune_last, ← hafter]
    unfold GlobalMemory.finish settleStorage
    cases hstorage : mapping.storage with
    | owned => exact (helsewhere id (by simp [hstorage])).symm
    | lent => exact (helsewhere id (by simp [hstorage])).symm
    | inside parent =>
      simp only [find?_leaveParent]
      split
      · rfl
      · next hne => exact (helsewhere id fun hsame => hne (by simpa [hstorage] using hsame.symm)).symm
  · rw [attachments_finish, find?_unlist (h.distinct.erase object), Dict.find?_erase, h.attachments, ← prune_last]
    congr 1
    by_cases heq : id = object
    · simp [heq, prune]
    · simp [heq, GlobalMemory.takeOut]
  · rw [attachments_finish]
    exact (h.distinct.erase object).filterMap _

theorem Closed.finish (h : (memory.takeOut object).Closed gone)
    (htops : ∀ id ∈ memory.subObjects.findD object [], (memory.takeOut object).isMapped id = true → id ∈ gone) :
    memory.Closed (object :: gone) := by
  intro parent id hparent hid hmapped
  by_cases heq : id = object
  · exact heq ▸ List.mem_cons_self
  · obtain ⟨mapping, hmapping⟩ := isMapped_iff.1 hmapped
    have hstill : (memory.takeOut object).isMapped id = true := by
      refine isMapped_iff.2 ⟨mapping, ?_⟩
      simp only [takeOut, Dict.find?_erase, if_neg heq, hmapping]
    by_cases hself : parent = object
    · exact List.mem_cons_of_mem _ (htops id (hself ▸ hid) hstill)
    · refine List.mem_cons_of_mem _ (h parent id ((List.mem_cons.1 hparent).resolve_left hself) ?_ hstill)
      simpa only [takeOut, Dict.findD, Dict.find?_erase, if_neg hself] using hid

/-- Whatever the nesting, as long as the depth allows for all that is mapped. By induction on the depth:
taking the object out makes room for the objects inside it. -/
theorem releaseTo_spec (depth : Nat) (memory : GlobalMemory) (object : ObjectId) (hlisted : memory.Listed)
    (hdepth : memory.mappings.size ≤ depth) :
    ∃ gone, Releases memory (releaseTo depth memory object) object gone := by
  induction depth generalizing memory object with
  | zero =>
    have hnone : memory.mappings.find? object = none := by
      have hempty : memory.mappings.entries = [] := List.length_eq_zero_iff.1 (Nat.le_zero.1 hdepth)
      simp [Dict.find?, hempty, Dict.search]
    exact ⟨[], releases_of_unmapped hlisted hnone rfl⟩
  | succ depth ih =>
    cases hobject : memory.mappings.find? object with
    | none => exact ⟨[], releases_of_unmapped hlisted hobject (releaseTo_of_unmapped _ hobject)⟩
    | some mapping =>
      have hsmaller := size_takeOut_lt hobject
      -- What is listed inside the object owns nothing, so the capacity is only settled for the object.
      obtain ⟨gone, hall⟩ := releasesAll_foldl ih (memory.subObjects.findD object []) (hlisted.takeOut object)
        (by omega) fun id hid found hfound => by simp [hlisted.inside hid (find?_of_takeOut hfound)]
      rw [releaseTo_succ depth hobject]
      refine ⟨object :: gone, hall.tables.finish hlisted hobject, hall.closed.finish hall.tops, ?_,
        fun _ => List.mem_cons_self, ?_, ?_, fun hdistinct => ?_, ?_⟩
      · intro id hid
        rcases List.mem_cons.1 hid with rfl | hid
        · exact .self hobject
        · obtain ⟨top, htop, hbelow⟩ := hall.below id hid
          obtain ⟨found, hfound⟩ := hbelow.top_mapped
          have hfound := find?_of_takeOut hfound
          have hfirst : memory.Below object top := .inside (.self hobject) hfound (hlisted.inside htop hfound)
          exact hfirst.trans (hbelow.mono fun _ _ => find?_of_takeOut)
      · rw [capacity_finish, hall.capacity, takeOut]
      · rw [available_finish, hall.available, chargeOf, hobject, takeOut]
      · rw [mappings_finish, hall.charged (hdistinct.erase object), chargeOf, hobject]
        exact hdistinct.total_erase charge hobject
      · rw [heap_finish, hall.heap, heapWithout, hobject, takeOut]

theorem free_spec (hlisted : memory.Listed) (object : ObjectId) :
    ∃ gone, Releases memory (memory.free object) object gone :=
  releaseTo_spec memory.mappings.size memory object hlisted (Nat.le_refl _)

end Tables

end ComputeCore.GlobalMemory
