import ComputeCore.Proofs.Memory.Coherence
/-!
# The capacity

What is available and what the owned mappings hold always add up to the capacity. Only a call about an
object moves anything between the two, namely what that object is charged for.

The memory counts in natural numbers. `freeChecked` releases with checked sums instead, and comes to the
same in every state of a run.
-/

namespace ComputeCore.GlobalMemory

/-- The bytes in blocks that mappings own. -/
def ownedBytes (memory : GlobalMemory) : Nat :=
  memory.mappings.total charge

/-- The object a call maps or frees. -/
def subject : MemoryOp → Option ObjectId
  | .map object => some object.id
  | .alloc object => some object.id
  | .free object => some object
  | _ => none

/-- What the call's object is charged for. -/
def chargeFor (memory : GlobalMemory) (op : MemoryOp) : Nat :=
  ((subject op).map memory.chargeOf).getD 0

/-- The object has no storage of its own, if it is mapped. -/
def OwnsNothing (memory : GlobalMemory) (object : ObjectId) : Prop :=
  ∀ mapping, memory.mappings.find? object = some mapping → mapping.storage ≠ .owned

/-- The bytes the mapping of an object needs, if it gets as far as the check of the capacity. -/
def mapDemand (memory : GlobalMemory) (object : MemoryObject) : Option Nat :=
  match memory.mappings.find? object.id, object.parent, object.flavor with
  | some _, _, _ => none
  | none, some _, _ => none
  | none, none, .hostOwned _ => none
  | none, none, _ =>
    match checkHostData object, memory.checkBuffer object with
    | .ok (), .ok () => some object.size
    | _, _ => none

/-- The bytes a call needs, if it gets as far as the check of the capacity. -/
def demand (memory : GlobalMemory) : MemoryOp → Option Nat
  | .map object => memory.mapDemand object
  | .alloc object => if memory.isMapped object.id then none else some object.size
  | _ => none

/-! ## Releasing with checked sums -/

/-- `settleStorage` with a checked sum. -/
def settleChecked (memory : GlobalMemory) (object : ObjectId) (mapping : Mapping) : Except Fault GlobalMemory :=
  match mapping.storage with
  | .owned =>
    match Size.add memory.available mapping.size with
    | .error fault => .error fault
    | .ok available => .ok { memory with available, heap := memory.heap.release mapping.start.block }
  | .inside _ => .ok (memory.settleStorage object mapping)
  | .lent => .ok memory

/-- `releaseTo` with checked sums. -/
def releaseChecked : Nat → GlobalMemory → ObjectId → Except Fault GlobalMemory
  | 0, memory, _ => .ok memory
  | depth + 1, memory, object =>
    match memory.mappings.find? object with
    | none => .ok memory
    | some mapping => do
      let emptied ← (memory.subObjects.findD object []).foldlM (releaseChecked depth) (memory.takeOut object)
      let settled ← emptied.settleChecked object mapping
      return { settled with attachments := unlist object (settled.attachments.erase object) }

/-- `free` with checked sums. -/
def freeChecked (memory : GlobalMemory) (object : ObjectId) : Except Fault GlobalMemory :=
  releaseChecked memory.mappings.size memory object

/-- How the capacity is accounted for after a run. -/
structure Accounted (capacity : Nat) (ops : List MemoryOp) : Prop where
  constant : (after capacity ops).capacity = capacity
  /-- Each object is counted once. -/
  distinct : (after capacity ops).mappings.Distinct
  balance : (after capacity ops).available + (after capacity ops).ownedBytes = capacity
  /-- The difference of an allocation does not wrap. -/
  allocates : ∀ object size start memory', (after capacity ops).allocate object size = .ok (start, memory') →
    Size.sub (after capacity ops).available size = .ok memory'.available
  /-- No sum of a release wraps. -/
  frees : ∀ object, (after capacity ops).freeChecked object = .ok ((after capacity ops).free object)
  /-- The next call moves what its object is charged for, and nothing else. -/
  moves : ∀ op, (after capacity (ops ++ [op])).available + (after capacity (ops ++ [op])).chargeFor op =
    (after capacity ops).available + (after capacity ops).chargeFor op
  /-- A call about an object without storage of its own leaves what is available. -/
  unowned : ∀ op, (∀ object, subject op = some object →
      (after capacity ops).OwnsNothing object ∧ (after capacity (ops ++ [op])).OwnsNothing object) →
    (after capacity (ops ++ [op])).available = (after capacity ops).available
  /-- A call that needs bytes is refused for lack of them exactly when the owned mappings leave too few. -/
  refused : ∀ op, (∃ requested available,
      answer capacity ops op = .failure (.refused (.outOfGlobalMemory requested available))) ↔
    ∃ size, (after capacity ops).demand op = some size ∧ capacity < (after capacity ops).ownedBytes + size
  /-- The refusal reports what was needed and what was left. -/
  reported : ∀ op requested available,
    answer capacity ops op = .failure (.refused (.outOfGlobalMemory requested available)) →
      (after capacity ops).demand op = some requested ∧ (after capacity ops).ownedBytes + available = capacity

section Balance
variable {memory memory' : GlobalMemory} {capacity depth : Nat} {object : ObjectId}

/-! ## What a call moves -/

/-- One call moves what its object is charged for between the owned mappings and what is available. -/
structure Moves (memory memory' : GlobalMemory) (op : MemoryOp) : Prop where
  capacity : memory'.capacity = memory.capacity
  available : memory'.available + memory'.chargeFor op = memory.available + memory.chargeFor op
  total : memory'.ownedBytes + memory.chargeFor op = memory.ownedBytes + memory'.chargeFor op

theorem chargeOf_of_find? {mapping : Mapping} (h : memory.mappings.find? object = some mapping) :
    memory.chargeOf object = charge mapping := by
  simp [chargeOf, h]

/-- The tables and what is available decide the charges. -/
theorem moves_of_same {op : MemoryOp} (hcapacity : memory'.capacity = memory.capacity)
    (havailable : memory'.available = memory.available) (hmappings : memory'.mappings = memory.mappings) :
    Moves memory memory' op := by
  have hcharge : memory'.chargeFor op = memory.chargeFor op := by
    unfold chargeFor
    cases subject op with
    | none => rfl
    | some object => simp [chargeOf, hmappings]
  refine ⟨hcapacity, by rw [havailable, hcharge], ?_⟩
  rw [ownedBytes, ownedBytes, hmappings, hcharge]

theorem Moves.adds {op : MemoryOp} {mapping : Mapping} (hsubject : subject op = some object)
    (hcapacity : memory'.capacity = memory.capacity) (hadds : Adds memory memory' object mapping)
    (havailable : memory'.available + charge mapping = memory.available) : Moves memory memory' op := by
  have hbefore : memory.chargeFor op = 0 := by simp [chargeFor, hsubject, chargeOf, hadds.new]
  have hafter : memory'.chargeFor op = charge mapping := by
    simp [chargeFor, hsubject, chargeOf, hadds.find?]
  refine ⟨hcapacity, by rw [hbefore, hafter, havailable, Nat.add_zero], ?_⟩
  rw [hbefore, hafter, ownedBytes, ownedBytes, hadds.mappings, Dict.total_insert charge hadds.new, Nat.add_zero]

theorem Moves.release {op : MemoryOp} {gone : List ObjectId} (hsubject : subject op = some object)
    (hdistinct : memory.mappings.Distinct) (h : Releases memory memory' object gone) :
    Moves memory memory' op := by
  have hbefore : memory.chargeFor op = memory.chargeOf object := by simp [chargeFor, hsubject]
  have hafter : memory'.chargeFor op = 0 := by
    have hunmapped : memory'.mappings.find? object = none := by
      rw [h.tables.find?]
      split
      · rfl
      · next hkept =>
        cases hfound : memory.mappings.find? object with
        | none => rfl
        | some mapping => exact absurd (h.top (isMapped_iff.2 ⟨mapping, hfound⟩)) hkept
    simp [chargeFor, hsubject, chargeOf, hunmapped]
  refine ⟨h.capacity, by rw [hbefore, hafter, h.available, Nat.add_zero], ?_⟩
  rw [hbefore, hafter, ownedBytes, ownedBytes, h.charged hdistinct, Nat.add_zero]

theorem perform_moves (hcoherent : memory.Coherent) (op : MemoryOp) :
    Moves memory (memory.perform op).2 op := by
  have hchange := memory.perform_change op
  generalize (memory.perform op).1 = answer at hchange
  generalize (memory.perform op).2 = memory' at hchange
  cases hchange with
  | moves => exact moves_of_same rfl rfl rfl
  | frees call =>
    obtain ⟨gone, hgone⟩ := free_spec hcoherent.toListed _
    exact .release (by rw [call, subject]) hcoherent.distinct hgone
  | @maps object _ _ call outcome =>
    have hsubject : subject op = some object.id := by
      rcases call with rfl | ⟨any, rfl, rfl⟩
      · rfl
      · rfl
    cases outcome with
    | known | orphan | misfit | rejected => exact moves_of_same rfl rfl rfl
    | inside new | lent new => exact .adds hsubject rfl ⟨new, rfl⟩ rfl
    | broken new _ _ room | owned new _ _ room => exact .adds hsubject rfl ⟨new, rfl⟩ (Nat.sub_add_cancel room)

/-! ## No sum of a release wraps -/

theorem settleChecked_eq (object : ObjectId) {mapping : Mapping} (h : memory.available + charge mapping < Size.limit) :
    memory.settleChecked object mapping = .ok (memory.settleStorage object mapping) := by
  unfold settleChecked settleStorage
  cases hstorage : mapping.storage with
  | owned =>
    simp only [charge, hstorage, if_true] at h
    simp only [Size.add, if_pos h]
  | inside parent => rfl
  | lent => rfl

/-- Objects without storage of their own leave the sum alone. -/
theorem foldlM_checked {release : GlobalMemory → ObjectId → GlobalMemory}
    {check : GlobalMemory → ObjectId → Except Fault GlobalMemory}
    (hone : ∀ memory object, Listed memory → memory.mappings.size ≤ depth →
      ∃ gone, Releases memory (release memory object) object gone)
    (hcheck : ∀ memory object, Listed memory → memory.mappings.size ≤ depth →
      memory.available + memory.chargeOf object < Size.limit → check memory object = .ok (release memory object))
    (ids : List ObjectId) (hlisted : memory.Listed) (hdepth : memory.mappings.size ≤ depth)
    (hids : ∀ id ∈ ids, memory.OwnsNothing id) (hroom : memory.available < Size.limit) :
    ids.foldlM check memory = .ok (ids.foldl release memory) := by
  induction ids generalizing memory with
  | nil => rfl
  | cons id ids ih =>
    have hown : memory.chargeOf id = 0 := chargeOf_eq_zero (hids id List.mem_cons_self)
    obtain ⟨gone, hfirst⟩ := hone memory id hlisted hdepth
    have hsize : (release memory id).mappings.size ≤ depth := by
      rw [hfirst.tables.mappings]
      exact Nat.le_trans (Dict.size_without_le _ _) hdepth
    have hrest := ih (hfirst.tables.listed hlisted) hsize
      (fun other hother mapping hmapping => hids other (List.mem_cons_of_mem _ hother) mapping
        (hfirst.tables.of_find? hmapping).2)
      (by rw [hfirst.available, hown, Nat.add_zero]; exact hroom)
    rw [List.foldlM_cons, hcheck memory id hlisted hdepth (by rw [hown, Nat.add_zero]; exact hroom)]
    exact hrest

theorem releaseChecked_eq (depth : Nat) (memory : GlobalMemory) (object : ObjectId) (hlisted : memory.Listed)
    (hdepth : memory.mappings.size ≤ depth) (hroom : memory.available + memory.chargeOf object < Size.limit) :
    releaseChecked depth memory object = .ok (releaseTo depth memory object) := by
  induction depth generalizing memory object with
  | zero => rfl
  | succ depth ih =>
    unfold releaseChecked
    cases hobject : memory.mappings.find? object with
    | none => rw [releaseTo_of_unmapped _ hobject]
    | some mapping =>
      rw [chargeOf_of_find? hobject] at hroom
      have hinside : ∀ id ∈ memory.subObjects.findD object [], (memory.takeOut object).OwnsNothing id := by
        intro id hid found hfound
        simp [hlisted.inside hid (find?_of_takeOut hfound)]
      have hsmaller : (memory.takeOut object).mappings.size ≤ depth := by
        have := size_takeOut_lt hobject
        omega
      -- The sum is only made once everything inside is gone, and then it is as large as before.
      obtain ⟨gone, hall⟩ := releasesAll_foldl (releaseTo_spec depth) (memory.subObjects.findD object [])
        (hlisted.takeOut object) hsmaller hinside
      have hfold := foldlM_checked (releaseTo_spec depth) ih (memory.subObjects.findD object [])
        (hlisted.takeOut object) hsmaller hinside
        (Nat.lt_of_le_of_lt (Nat.le_add_right memory.available (charge mapping)) hroom)
      have hsettle := settleChecked_eq object (hall.available.symm ▸ hroom : _ + charge mapping < Size.limit)
      simp only [hfold, bind, Except.bind, hsettle, pure, Except.pure]
      rw [releaseTo_succ depth hobject]
      rfl

/-! ## When the capacity is too small -/

theorem allocate_refused_iff (object : ObjectId) {size requested available : Nat} :
    memory.allocate object size = .error (.outOfGlobalMemory requested available) ↔
      memory.available < size ∧ size = requested ∧ memory.available = available := by
  unfold allocate
  by_cases hroom : memory.available < size
  · simp [hroom]
  · simp only [if_neg hroom]
    cases memory.heap.allocate? size with
    | none => simp [hroom]
    | some fresh => simp [hroom]

/-- The other checks of a mapping refuse for other reasons. -/
theorem mapOwned_refused_iff {object : MemoryObject} {requested available : Nat} :
    (memory.mapOwned object).1 = .error (.refused (.outOfGlobalMemory requested available)) ↔
      checkHostData object = .ok () ∧ memory.checkBuffer object = .ok () ∧
        memory.available < object.size ∧ object.size = requested ∧ memory.available = available := by
  unfold mapOwned
  cases hdata : checkHostData object with
  | error failure =>
    simp only [reduceCtorEq, false_and, iff_false]
    intro hsame
    obtain rfl := Except.error.inj hsame
    unfold checkHostData at hdata
    split at hdata
    · simp at hdata
    · split at hdata
      · simp at hdata
      · split at hdata <;> simp at hdata
  | ok _ =>
    cases hbuffer : memory.checkBuffer object with
    | error error =>
      simp only [reduceCtorEq, false_and, and_false, iff_false]
      intro hsame
      obtain rfl : error = .outOfGlobalMemory requested available := by simpa using hsame
      unfold checkBuffer at hbuffer
      split at hbuffer
      · split at hbuffer <;> simp at hbuffer
      · simp at hbuffer
    | ok _ =>
      simp only [true_and]
      rw [← allocate_refused_iff object.id]
      cases memory.allocate object.id object.size with
      | error error => simp
      | ok result =>
        simp only [reduceCtorEq, iff_false]
        split <;> simp

theorem map_refused_iff {object : MemoryObject} {requested available : Nat} :
    (memory.map object).1 = .error (.refused (.outOfGlobalMemory requested available)) ↔
      memory.mapDemand object = some requested ∧ memory.available < requested ∧ memory.available = available := by
  unfold map mapDemand addressOf?
  cases hfound : memory.mappings.find? object.id with
  | some mapping => simp
  | none =>
    cases hpart : object.parent with
    | some region =>
      simp only [Option.map_none, mapInside, reduceCtorEq, false_and, iff_false]
      cases memory.mappings.find? region.parent with
      | none => simp
      | some parent =>
        by_cases hfits : region.offset + object.size < Size.limit ∧ region.offset + object.size ≤ parent.size
        · simp [hfits]
        · simp [if_neg hfits]
    | none =>
      have howned : (memory.mapOwned object).1 = .error (.refused (.outOfGlobalMemory requested available)) ↔
          (match checkHostData object, memory.checkBuffer object with
            | .ok (), .ok () => some object.size
            | _, _ => none) = some requested ∧ memory.available < requested ∧ memory.available = available := by
        rw [mapOwned_refused_iff]
        cases checkHostData object with
        | error failure => simp
        | ok _ =>
          cases memory.checkBuffer object with
          | error error => simp
          | ok _ =>
            simp only [true_and, Option.some.injEq]
            constructor
            · rintro ⟨hlt, rfl, hsame⟩
              exact ⟨rfl, hlt, hsame⟩
            · rintro ⟨rfl, hlt, hsame⟩
              exact ⟨hlt, rfl, hsame⟩
      cases object.flavor with
      | hostOwned storage => simp
      | hostAccessible => exact howned
      | devicePrivate => exact howned

theorem mapDemand_buffer (memory : GlobalMemory) (id : ObjectId) (size : Nat) :
    memory.mapDemand (.buffer id size) = if memory.isMapped id then none else some size := by
  unfold mapDemand isMapped Dict.contains
  simp only [MemoryObject.buffer]
  cases memory.mappings.find? id with
  | some mapping => rfl
  | none => rfl

theorem range_ne_outOfGlobalMemory (memory : GlobalMemory) (object : ObjectId)
    (offset length requested available : Nat) :
    memory.range object offset length ≠ .error (.outOfGlobalMemory requested available) := by
  unfold range
  cases memory.mappings.find? object with
  | none => simp
  | some mapping =>
    simp only []
    split <;> simp

/-- A call is refused for lack of bytes if it needs some and fewer are available, and only then. -/
theorem perform_refused_iff {op : MemoryOp} {requested available : Nat} :
    (memory.perform op).1 = .failure (.refused (.outOfGlobalMemory requested available)) ↔
      memory.demand op = some requested ∧ memory.available < requested ∧ memory.available = available := by
  have hmap : ∀ object, (memory.perform (.map object)).1 =
      .failure (.refused (.outOfGlobalMemory requested available)) ↔
        memory.mapDemand object = some requested ∧ memory.available < requested ∧
          memory.available = available := by
    intro object
    rw [← map_refused_iff, perform]
    cases (memory.map object).1 with
    | error failure => simp [answerOf]
    | ok start => simp [answerOf]
  cases op with
  | map object => exact hmap object
  | alloc object =>
    rw [perform_alloc, hmap, mapDemand_buffer]
    rfl
  | lend | provide | free => simp [perform, demand]
  | read object offset length =>
    have hrange := memory.range_ne_outOfGlobalMemory object offset length requested available
    simp only [perform, read, demand, reduceCtorEq, false_and, iff_false]
    cases hresult : memory.range object offset length with
    | error error => simpa [hresult, bind, Except.bind, readAnswer] using hrange
    | ok start => simp [bind, Except.bind, pure, Except.pure, readAnswer]
  | write object offset bytes =>
    have hrange := memory.range_ne_outOfGlobalMemory object offset bytes.size requested available
    simp only [perform, write, demand, reduceCtorEq, false_and, iff_false]
    cases hresult : memory.range object offset bytes.size with
    | error error => simpa [hresult, bind, Except.bind, commit] using hrange
    | ok start => simp [bind, Except.bind, pure, Except.pure, commit]
  | copy source sourceOffset target targetOffset length =>
    have hsource := memory.range_ne_outOfGlobalMemory source sourceOffset length requested available
    have htarget := memory.range_ne_outOfGlobalMemory target targetOffset length requested available
    simp only [perform, copy, demand, reduceCtorEq, false_and, iff_false]
    cases hfrom : memory.range source sourceOffset length with
    | error error => simpa [hfrom, bind, Except.bind, commit] using hsource
    | ok start =>
      cases hto : memory.range target targetOffset length with
      | error error => simpa [hto, bind, Except.bind, commit] using htarget
      | ok goal => simp [bind, Except.bind, pure, Except.pure, commit]
  | fill object offset pattern length =>
    have hrange := memory.range_ne_outOfGlobalMemory object offset length requested available
    simp only [perform, fill, demand, reduceCtorEq, false_and, iff_false]
    cases hresult : memory.range object offset length with
    | error error => simpa [hresult, bind, Except.bind, commit] using hrange
    | ok start =>
      simp only [bind, Except.bind, pure, Except.pure, throw, throwThe, MonadExceptOf.throw]
      by_cases hempty : pattern.isEmpty = true
      · simp [hempty, commit]
      · by_cases hmultiple : length % pattern.size = 0
        · simp [hempty, hmultiple, commit]
        · simp [hempty, hmultiple, commit]

/-! ## Every state of a run -/

/-- What is available and the owned mappings make up the capacity. -/
structure Balanced (capacity : Nat) (memory : GlobalMemory) : Prop where
  constant : memory.capacity = capacity
  balance : memory.available + memory.ownedBytes = capacity

theorem Moves.balanced {op : MemoryOp} (h : Moves memory memory' op) (hbalanced : Balanced capacity memory) :
    Balanced capacity memory' := by
  have havailable := h.available
  have htotal := h.total
  have hbalance := hbalanced.balance
  exact ⟨h.capacity.trans hbalanced.constant, by omega⟩

theorem balanced_after (capacity : Nat) (ops : List MemoryOp) : Balanced capacity (after capacity ops) := by
  induction ops using List.reverseRecOn with
  | nil => exact ⟨rfl, rfl⟩
  | append_singleton ops op ih =>
    rw [after_concat]
    exact (perform_moves (coherent_after capacity ops) op).balanced ih

theorem chargeOf_le_ownedBytes (hdistinct : memory.mappings.Distinct) (object : ObjectId) :
    memory.chargeOf object ≤ memory.ownedBytes := by
  unfold chargeOf
  split
  · next mapping hfound => exact hdistinct.le_total charge hfound
  · exact Nat.zero_le _

theorem allocate_checked {size : Nat} {start : Address} (h : memory.allocate object size = .ok (start, memory')) :
    Size.sub memory.available size = .ok memory'.available := by
  have hallocate : memory.allocate object (MemoryObject.buffer object size).size = .ok (start, memory') := h
  obtain ⟨hroom, -, -, rfl⟩ := allocate_eq_ok_iff.1 hallocate
  rw [Size.sub]
  exact if_pos hroom

end Balance

/-- The capacity is accounted for in every state of every run. -/
theorem accounted_after (capacity : Nat) (hcapacity : capacity < Size.limit) (ops : List MemoryOp) :
    Accounted capacity ops := by
  have hcoherent := coherent_after capacity ops
  have hbalanced := balanced_after capacity ops
  have hbalance := hbalanced.balance
  have hmoves : ∀ op, Moves (after capacity ops) (after capacity (ops ++ [op])) op := by
    intro op
    rw [after_concat]
    exact perform_moves hcoherent op
  constructor
  · exact hbalanced.constant
  · exact hcoherent.distinct
  · exact hbalance
  · intro object size start memory' h
    exact allocate_checked h
  · intro object
    have hcharge := chargeOf_le_ownedBytes hcoherent.distinct object
    exact releaseChecked_eq _ _ object hcoherent.toListed (Nat.le_refl _) (by omega)
  · intro op
    exact (hmoves op).available
  · intro op hnothing
    have hcharge : ∀ memory : GlobalMemory,
        (∀ object, subject op = some object → memory.OwnsNothing object) → memory.chargeFor op = 0 := by
      intro memory h
      unfold chargeFor
      cases hsubject : subject op with
      | none => rfl
      | some object => exact chargeOf_eq_zero (h object hsubject)
    have hmove := (hmoves op).available
    rw [hcharge _ fun object hobject => (hnothing object hobject).1,
      hcharge _ fun object hobject => (hnothing object hobject).2] at hmove
    exact hmove
  · intro op
    constructor
    · rintro ⟨requested, available, hanswer⟩
      obtain ⟨hdemand, hlt, -⟩ := perform_refused_iff.1 hanswer
      exact ⟨requested, hdemand, by omega⟩
    · rintro ⟨size, hdemand, hlt⟩
      exact ⟨size, _, perform_refused_iff.2 ⟨hdemand, by omega, rfl⟩⟩
  · intro op requested available hanswer
    obtain ⟨hdemand, -, rfl⟩ := perform_refused_iff.1 hanswer
    exact ⟨hdemand, by omega⟩

/-- Two buffers, a sub-object of the first and the release of the first. Then the host runs short. -/
def bufferRun : List MemoryOp :=
  [.map (.buffer ⟨1⟩ 300), .alloc (.buffer ⟨2⟩ 200), .map (.subObject ⟨3⟩ (.buffer ⟨1⟩ 300) 10 20), .free ⟨1⟩,
    .provide ⟨100, by decide⟩]

theorem accounted_bufferRun : 1024 < Size.limit ∧ Accounted 1024 bufferRun ∧
    (after 1024 bufferRun).available = 824 ∧ (after 1024 bufferRun).ownedBytes = 200 ∧
    answer 1024 bufferRun (.map (.buffer ⟨4⟩ 300)) = .failure (.refused (.hostAllocation 300)) :=
  ⟨by decide, accounted_after 1024 (by decide) bufferRun, by decide +kernel, by decide +kernel, by decide +kernel⟩

end ComputeCore.GlobalMemory
