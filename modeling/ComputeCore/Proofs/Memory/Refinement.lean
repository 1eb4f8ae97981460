import ComputeCore.Proofs.Memory.ByteStore
import ComputeCore.Proofs.Memory.Roots
/-!
# Global memory is a byte store

Along every run global memory stands for a `ByteStore` that serves the same calls with the same answers.
The store knows an object by its root, so the tables have to lead to the right root through any nesting, and
no write may leave the root's bytes.
-/

namespace ComputeCore.GlobalMemory

def byteAt? (memory : GlobalMemory) (object : ObjectId) (i : Nat) : Option UInt8 :=
  match memory.mappings.find? object with
  | none => none
  | some mapping => if i < mapping.size then memory.heap.byte? (mapping.start.advance i) else none

/-- The memory's objects lie where the store views them, and the roots hold the bytes of the store. -/
structure Represents (memory : GlobalMemory) (store : ByteStore) : Prop where
  mapped : ∀ id, memory.mappings.find? id = none ↔ store.views id = none
  view : ∀ id mapping view, memory.mappings.find? id = some mapping → store.views id = some view →
    ∃ base, memory.IsRoot view.root base ∧ memory.Below view.root id ∧
      mapping.start = base.start.advance view.offset ∧ mapping.size = view.size ∧
      view.offset + view.size ≤ base.size
  within : ∀ id view, store.views id = some view → ∀ other, other ∈ view.within ↔ memory.Below other id
  bytes : ∀ root base, memory.IsRoot root base → store.bytes root = memory.heap.read base.start base.size

section Represents
variable {memory memory' : GlobalMemory} {store : ByteStore} {id object : ObjectId}
  {mapping : Mapping} {offset length : Nat}

theorem Represents.found (h : memory.Represents store) (hid : memory.mappings.find? id = some mapping) :
    ∃ view, store.views id = some view := by
  cases hview : store.views id with
  | some view => exact ⟨view, rfl⟩
  | none => simp [(h.mapped id).2 hview] at hid

theorem Represents.viewed (h : memory.Represents store) {view : View} (hid : store.views id = some view) :
    ∃ mapping, memory.mappings.find? id = some mapping := by
  cases hfound : memory.mappings.find? id with
  | some mapping => exact ⟨mapping, rfl⟩
  | none => simp [(h.mapped id).1 hfound] at hid

/-- An object holds the bytes that the store says it does. -/
theorem Represents.byteAt? (h : memory.Represents store) (id : ObjectId) (i : Nat) :
    memory.byteAt? id i = store.byteAt? id i := by
  unfold GlobalMemory.byteAt? ByteStore.byteAt?
  cases hfound : memory.mappings.find? id with
  | none => rw [(h.mapped id).1 hfound]
  | some mapping =>
    obtain ⟨view, hview⟩ := h.found hfound
    obtain ⟨base, hroot, -, hstart, hsize, hfits⟩ := h.view id mapping view hfound hview
    simp only [hview, hsize]
    by_cases hi : i < view.size
    · rw [if_pos hi, if_pos hi, h.bytes _ _ hroot, Heap.getElem?_read, if_pos (by omega), hstart,
        Address.advance_advance]
    · rw [if_neg hi, if_neg hi]

/-- The store finds the bytes that the memory finds, and misses those that it misses. -/
theorem Represents.range (h : memory.Represents store) (object : ObjectId) (offset length : Nat) :
    (∃ error, memory.range object offset length = .error error ∧ store.locate object offset length = .error error) ∨
      ∃ spot base, memory.IsRoot spot.root base ∧ spot.offset + length ≤ base.size ∧
        memory.range object offset length = .ok (base.start.advance spot.offset) ∧
        store.locate object offset length = .ok spot := by
  unfold GlobalMemory.range ByteStore.locate
  cases hfound : memory.mappings.find? object with
  | none =>
    rw [(h.mapped object).1 hfound]
    exact .inl ⟨_, rfl, rfl⟩
  | some mapping =>
    obtain ⟨view, hview⟩ := h.found hfound
    obtain ⟨base, hroot, -, hstart, hsize, hfits⟩ := h.view object mapping view hfound hview
    simp only [hview, hsize]
    by_cases hrange : offset + length < Size.limit ∧ offset + length ≤ view.size
    · refine .inr ⟨{ root := view.root, offset := view.offset + offset }, base, hroot, ?_, ?_, ?_⟩
      · show view.offset + offset + length ≤ base.size
        omega
      · rw [if_pos hrange, hstart, Address.advance_advance]
      · rw [if_pos hrange]
    · exact .inl ⟨_, if_neg hrange, if_neg hrange⟩

theorem represents_empty (h : ∀ id, memory.mappings.find? id = none) : memory.Represents {} := by
  constructor
  · simp [h]
  · simp
  · simp
  · simp [IsRoot, h]

/-! ## Bytes that move -/

theorem Represents.of_heap (h : memory.Represents store) (hmappings : memory'.mappings = memory.mappings)
    (hbytes : ∀ root base, memory.IsRoot root base →
      memory'.heap.read base.start base.size = memory.heap.read base.start base.size) :
    memory'.Represents store := by
  have hroots : ∀ root base, memory'.IsRoot root base ↔ memory.IsRoot root base := by
    intro root base
    rw [IsRoot, IsRoot, hmappings]
  have hbelow : ∀ top id, memory'.Below top id ↔ memory.Below top id := by
    intro top id
    constructor
    · exact fun hbelow => hbelow.mono fun _ _ hfound => hmappings ▸ hfound
    · exact fun hbelow => hbelow.mono fun _ _ hfound => hmappings.symm ▸ hfound
  constructor
  · rw [hmappings]
    exact h.mapped
  · intro id mapping view hfound hview
    rw [hmappings] at hfound
    obtain ⟨base, hroot, hunder, hplace⟩ := h.view id mapping view hfound hview
    exact ⟨base, (hroots _ _).2 hroot, (hbelow _ _).2 hunder, hplace⟩
  · intro id view hview other
    rw [h.within id view hview other, hbelow]
  · intro root base hroot
    rw [hbytes root base ((hroots _ _).1 hroot), h.bytes root base ((hroots _ _).1 hroot)]

/-- Bytes written inside a root are written there in the store, and nowhere else. -/
theorem Represents.put {spot : Spot} {base : Mapping} {data : Bytes} (h : memory.Represents store)
    (hapart : memory.Apart) (hroot : memory.IsRoot spot.root base) (hfits : spot.offset + data.size ≤ base.size) :
    Represents { memory with heap := memory.heap.write (base.start.advance spot.offset) data }
      (store.put spot data) := by
  have hbacked := hapart.backed _ _ hroot
  constructor
  · exact h.mapped
  · intro id mapping view hfound hview
    obtain ⟨base, hroot, hunder, hplace⟩ := h.view id mapping view hfound hview
    exact ⟨base, hroot, hunder.mono fun _ _ hfound => hfound, hplace⟩
  · intro id view hview other
    rw [h.within id view hview other]
    exact ⟨fun hbelow => hbelow.mono fun _ _ hfound => hfound, fun hbelow => hbelow.mono fun _ _ hfound => hfound⟩
  · intro root other hother
    simp only [ByteStore.put]
    by_cases hsame : root = spot.root
    · obtain rfl : base = other := Option.some.inj (hroot.1.symm.trans (hsame ▸ hother.1))
      rw [if_pos hsame, h.bytes root base hother, Heap.read_write hbacked hfits]
    · -- What is written lies inside the root, and roots share no address.
      rw [if_neg hsame, h.bytes root other hother]
      refine (Heap.read_congr fun address haddress => ?_).symm
      rw [Heap.byte?_write (hbacked.advance hfits), if_neg]
      intro hwritten
      obtain ⟨i, hi, rfl⟩ := Region.holds_iff.1 hwritten
      refine hapart.apart root other spot.root base hother hroot hsame _ haddress ?_
      rw [Address.advance_advance]
      exact Region.holds_iff.2 ⟨spot.offset + i, show spot.offset + i < base.size by simp only at hi; omega, rfl⟩

theorem Represents.take {spot : Spot} {base : Mapping} (h : memory.Represents store) (hapart : memory.Apart)
    (hroot : memory.IsRoot spot.root base) (hfits : spot.offset + length ≤ base.size) :
    memory.heap.read (base.start.advance spot.offset) length = store.take spot length := by
  rw [ByteStore.take, h.bytes _ _ hroot, Heap.read_advance (hapart.backed _ _ hroot) hfits]

/-! ## One object more -/

/-- Nothing lies below an object that has just been mapped but itself. -/
theorem Below.of_adds {top other : ObjectId} (hcoherent : memory.Coherent)
    (hadds : Adds memory memory' id mapping) (hbelow : memory'.Below top other) (hne : other ≠ id) :
    memory.Below top other := by
  induction hbelow with
  | self hfound =>
    rw [hadds.find?, if_neg hne] at hfound
    exact .self hfound
  | inside _ hfound hstorage ih =>
    rw [hadds.find?, if_neg hne] at hfound
    obtain ⟨-, outer, _, houter, -⟩ := hcoherent.inside _ _ _ hfound hstorage
    refine .inside (ih fun heq => ?_) hfound hstorage
    rw [heq, hadds.new] at houter
    simp at houter

/-- What the store says of the other objects does not change with a new one. -/
theorem Represents.view_of_adds (h : memory.Represents store) (hadds : Adds memory memory' id mapping)
    {other : ObjectId} {found : Mapping} {view : View} (hne : other ≠ id)
    (hfound : memory'.mappings.find? other = some found) (hview : store.views other = some view) :
    ∃ base, memory'.IsRoot view.root base ∧ memory'.Below view.root other ∧
      found.start = base.start.advance view.offset ∧ found.size = view.size ∧
      view.offset + view.size ≤ base.size := by
  rw [hadds.find?, if_neg hne] at hfound
  obtain ⟨base, hroot, hbelow, hplace⟩ := h.view other found view hfound hview
  exact ⟨base, hroot.adds hadds, hadds.below hbelow, hplace⟩

theorem Represents.within_of_adds (h : memory.Represents store) (hcoherent : memory.Coherent)
    (hadds : Adds memory memory' id mapping) {other top : ObjectId} {view : View} (hne : other ≠ id)
    (hview : store.views other = some view) : top ∈ view.within ↔ memory'.Below top other := by
  rw [h.within other view hview]
  exact ⟨hadds.below, fun hbelow => hbelow.of_adds hcoherent hadds hne⟩

theorem Represents.addRoot {contents : Bytes} (h : memory.Represents store) (hcoherent : memory.Coherent)
    (hadds : Adds memory memory' id mapping) (hroot : ∀ parent, mapping.storage ≠ .inside parent)
    (hcontents : contents = memory'.heap.read mapping.start mapping.size) (hsize : contents.size = mapping.size)
    (hbytes : ∀ root base, memory.IsRoot root base →
      memory'.heap.read base.start base.size = memory.heap.read base.start base.size) :
    memory'.Represents (store.addRoot id contents) := by
  have hself : memory'.mappings.find? id = some mapping := by rw [hadds.find?, if_pos rfl]
  constructor
  · intro other
    rw [hadds.find?]
    by_cases heq : other = id
    · simp [ByteStore.addRoot, heq]
    · simp [ByteStore.addRoot, heq, h.mapped other]
  · intro other found view hfound hview
    simp only [ByteStore.addRoot] at hview
    split at hview
    · next heq =>
      subst heq
      obtain rfl := Option.some.inj hview
      obtain rfl : mapping = found := Option.some.inj (hself.symm.trans hfound)
      exact ⟨mapping, ⟨hself, hroot⟩, .self hself, rfl, hsize.symm, by simp only; omega⟩
    · next hne => exact h.view_of_adds hadds hne hfound hview
  · intro other view hview top
    simp only [ByteStore.addRoot] at hview
    split at hview
    · next heq =>
      subst heq
      obtain rfl := Option.some.inj hview
      simp only [List.mem_singleton]
      constructor
      · rintro rfl
        exact .self hself
      · intro hbelow
        cases hbelow with
        | self => rfl
        | inside _ hfound hstorage =>
          obtain rfl := Option.some.inj (hself.symm.trans hfound)
          exact absurd hstorage (hroot _)
    · next hne => exact h.within_of_adds hcoherent hadds hne hview
  · intro root base hbase
    simp only [ByteStore.addRoot]
    rcases IsRoot.of_adds hadds hbase with ⟨rfl, rfl⟩ | hold
    · rw [if_pos rfl, hcontents]
    · have hne : root ≠ id := by
        rintro rfl
        have hfound := hold.1
        simp [hadds.new] at hfound
      rw [if_neg hne, h.bytes root base hold, hbytes root base hold]

theorem Represents.addInside {parent : ObjectId} {outer : Mapping} {view : View} {offset size : Nat}
    (h : memory.Represents store) (hcoherent : memory.Coherent)
    (hadds : Adds memory memory' id { start := outer.start.advance offset, size, storage := .inside parent })
    (houter : memory.mappings.find? parent = some outer) (hview : store.views parent = some view)
    (hfits : offset + size ≤ outer.size) (hheap : memory'.heap = memory.heap) :
    memory'.Represents (store.addInside id view offset size) := by
  have hself : memory'.mappings.find? id =
      some { start := outer.start.advance offset, size, storage := .inside parent } := by
    rw [hadds.find?, if_pos rfl]
  constructor
  · intro other
    rw [hadds.find?]
    by_cases heq : other = id
    · simp [ByteStore.addInside, heq]
    · simp [ByteStore.addInside, heq, h.mapped other]
  · intro other found inner hfound hinner
    simp only [ByteStore.addInside] at hinner
    split at hinner
    · next heq =>
      subst heq
      obtain rfl := Option.some.inj hinner
      obtain rfl := Option.some.inj (hself.symm.trans hfound)
      obtain ⟨base, hroot, hbelow, hstart, hsize, hinside⟩ := h.view parent outer view houter hview
      refine ⟨base, hroot.adds hadds, .inside (hadds.below hbelow) hself rfl, ?_, rfl, by simp only; omega⟩
      simp only [hstart, Address.advance_advance]
    · next hne => exact h.view_of_adds hadds hne hfound hinner
  · intro other inner hinner top
    simp only [ByteStore.addInside] at hinner
    split at hinner
    · next heq =>
      subst heq
      obtain rfl := Option.some.inj hinner
      have hparent : parent ≠ other := by
        rintro rfl
        simp [hadds.new] at houter
      simp only [List.mem_cons, h.within_of_adds hcoherent hadds hparent hview]
      constructor
      · rintro (rfl | hbelow)
        · exact .self hself
        · exact .inside hbelow hself rfl
      · intro hbelow
        cases hbelow with
        | self => exact .inl rfl
        | inside hupper hfound hstorage =>
          obtain rfl := Option.some.inj (hself.symm.trans hfound)
          obtain rfl := Storage.inside.inj hstorage
          exact .inr hupper
    · next hne => exact h.within_of_adds hcoherent hadds hne hinner
  · intro root base hbase
    rcases IsRoot.of_adds hadds hbase with ⟨-, rfl⟩ | hold
    · exact absurd rfl (hbase.2 parent)
    · rw [hheap]
      exact h.bytes root base hold

/-! ## A subtree less -/

section Release
variable {gone : List ObjectId}

/-- A release takes away exactly what lies below the object. By induction on the nesting. -/
theorem Releases.mem_gone_iff (h : Releases memory memory' object gone) (hcoherent : memory.Coherent) :
    id ∈ gone ↔ memory.Below object id := by
  constructor
  · exact h.below id
  · intro hbelow
    induction hbelow with
    | self hfound => exact h.top (isMapped_iff.2 ⟨_, hfound⟩)
    | inside _ hfound hstorage ih =>
      exact h.closed _ _ ih (hcoherent.inside _ _ _ hfound hstorage).1 (isMapped_iff.2 ⟨_, hfound⟩)

theorem Represents.drop (h : memory.Represents store) (hcoherent : memory.Coherent) (hapart : memory.Apart)
    (hreleases : Releases memory memory' object gone) : memory'.Represents (store.drop object) := by
  have hviews : ∀ id view, (store.drop object).views id = some view ↔ store.views id = some view ∧ id ∉ gone := by
    intro id view
    simp only [ByteStore.drop, Option.filter_eq_some_iff, decide_eq_true_eq]
    constructor
    · rintro ⟨hview, hout⟩
      exact ⟨hview, fun hgone => hout ((h.within id view hview object).2 ((hreleases.mem_gone_iff hcoherent).1 hgone))⟩
    · rintro ⟨hview, hkept⟩
      exact ⟨hview, fun hin => hkept ((hreleases.mem_gone_iff hcoherent).2 ((h.within id view hview object).1 hin))⟩
  constructor
  · intro id
    rw [hreleases.tables.find?]
    constructor
    · intro hnone
      refine Option.eq_none_iff_forall_not_mem.2 fun view hview => ?_
      obtain ⟨hold, hkept⟩ := (hviews id view).1 hview
      rw [if_neg hkept, h.mapped] at hnone
      simp [hnone] at hold
    · intro hnone
      by_cases hgone : id ∈ gone
      · rw [if_pos hgone]
      · rw [if_neg hgone, h.mapped]
        refine Option.eq_none_iff_forall_not_mem.2 fun view hview => ?_
        have := (hviews id view).2 ⟨hview, hgone⟩
        simp [hnone] at this
  · intro id mapping view hfound hview
    obtain ⟨hview, hkept⟩ := (hviews id view).1 hview
    obtain ⟨-, hfound⟩ := hreleases.tables.of_find? hfound
    obtain ⟨base, hroot, hbelow, hplace⟩ := h.view id mapping view hfound hview
    obtain ⟨hstays, hbelow⟩ := hbelow.of_released hcoherent hreleases hkept
    refine ⟨base, ⟨?_, hroot.2⟩, hbelow, hplace⟩
    rw [hreleases.tables.find?, if_neg hstays, hroot.1]
  · intro id view hview other
    obtain ⟨hview, hkept⟩ := (hviews id view).1 hview
    rw [h.within id view hview]
    constructor
    · exact fun hbelow => (hbelow.of_released hcoherent hreleases hkept).2
    · exact fun hbelow => hbelow.mono fun _ _ hfound => (hreleases.tables.of_find? hfound).2
  · intro root base hbase
    obtain ⟨hkept, hold⟩ := hbase.of_released hreleases
    show store.bytes root = _
    rw [h.bytes root base hold]
    exact (Heap.read_congr fun address => hapart.byte?_release hreleases hold hkept).symm

end Release

/-! ## One call -/

/-- A new block disturbs no bytes that are there. -/
theorem Apart.read_of_grown {heap : Heap} {contents : Bytes} {root : ObjectId} {base : Mapping}
    (h : memory.Apart) (hgrown : memory.heap.Grown heap contents) (hroot : memory.IsRoot root base) :
    heap.read base.start base.size = memory.heap.read base.start base.size :=
  Heap.read_congr fun address haddress => hgrown.byte?_of_isSome (h.backed root base hroot address haddress)

theorem read_fresh {heap heap' : Heap} {contents : Bytes} (hgrown : heap.Grown heap' contents) :
    heap'.read ⟨heap.blocks.size, 0⟩ contents.size = contents := by
  simp [Heap.read, hgrown.fresh]

theorem Apart.map {object : MemoryObject} {result : Except MemoryFailure Address} (h : memory.Apart)
    (hhost : memory.HostApart (.map object)) (houtcome : memory.Outcome object result memory') :
    memory'.Apart := by
  have hsame : memory.heap.Keeps memory.heap := ⟨Nat.le_refl _, fun _ _ => rfl⟩
  cases houtcome with
  | known | orphan | misfit | rejected => exact h
  | inside new => exact h.adds ⟨new, rfl⟩ hsame (fun hroot => absurd rfl (hroot _)) (by simp)
  | lent new whole flavor =>
    obtain ⟨hbacked, hapart⟩ := hhost object _ rfl new whole flavor
    exact h.adds ⟨new, rfl⟩ hsame (fun _ => ⟨hbacked, fun root base hroot => hapart root base hroot.1⟩) (by simp)
  | broken new _ _ _ grown size => exact h.addsFresh ⟨new, rfl⟩ grown size
  | owned new _ _ _ _ grown filled => exact h.addsFresh ⟨new, rfl⟩ grown filled.size

/-- What a fresh block holds at first, seen from the store. -/
theorem Represents.initial {object : MemoryObject} {contents : Bytes} (h : memory.Represents store)
    (hapart : memory.Apart) (hfilled : memory.Filled object contents) :
    store.Initial object contents := by
  refine ⟨hfilled.size, hfilled.plain, fun buffer view hbase hview i hi => ?_⟩
  obtain ⟨source, hsource⟩ := h.viewed hview
  obtain ⟨base, hroot, -, hstart, hsize, hfits⟩ := h.view buffer source view hsource hview
  have hbacked : memory.heap.Backs { start := source.start, size := source.size } := by
    rw [hstart]
    exact (hapart.backed _ _ hroot).advance (by omega)
  rw [hfilled.copied buffer source hbase hsource hbacked i (by omega), ← h.byteAt?, GlobalMemory.byteAt?, hsource]
  simp only
  rw [if_pos (by omega)]

theorem Represents.map {object : MemoryObject} {result : Except MemoryFailure Address}
    (h : memory.Represents store) (hcoherent : memory.Coherent) (hapart : memory.Apart)
    (hhost : memory.HostApart (.map object)) (houtcome : memory.Outcome object result memory') :
    ∃ store', store.Maps object (answerOf result) store' ∧ memory'.Represents store' := by
  cases houtcome with
  | known found =>
    obtain ⟨view, hview⟩ := h.found found
    exact ⟨store, .known hview, h⟩
  | orphan new part missing =>
    exact ⟨store, .orphan ((h.mapped _).1 new) part ((h.mapped _).1 missing), h⟩
  | @misfit region parent new part found exceeds =>
    obtain ⟨view, hview⟩ := h.found found
    obtain ⟨base, -, -, -, hsize, -⟩ := h.view _ parent view found hview
    refine ⟨store, ?_, h⟩
    rw [answerOf, hsize]
    exact .misfit ((h.mapped _).1 new) part hview (hsize ▸ exceeds)
  | @inside region parent new part found fits =>
    obtain ⟨view, hview⟩ := h.found found
    obtain ⟨base, -, -, -, hsize, -⟩ := h.view _ parent view found hview
    exact ⟨_, .inside ((h.mapped _).1 new) part hview (hsize ▸ fits),
      h.addInside hcoherent ⟨new, rfl⟩ found hview fits.2 rfl⟩
  | @lent storage new whole flavor =>
    obtain ⟨hbacked, -⟩ := hhost object storage rfl new whole flavor
    have hsize := Heap.size_read hbacked
    exact ⟨_, .lent ((h.mapped _).1 new) whole flavor hsize,
      h.addRoot hcoherent ⟨new, rfl⟩ (by simp) rfl hsize fun _ _ _ => rfl⟩
  | rejected new whole flavor => exact ⟨store, .rejected ((h.mapped _).1 new) whole flavor, h⟩
  | broken new whole flavor _ grown size =>
    refine ⟨_, .broken ((h.mapped _).1 new) whole flavor size,
      h.addRoot hcoherent ⟨new, rfl⟩ (by simp) ?_ size fun _ _ hroot => hapart.read_of_grown grown hroot⟩
    rw [← size]
    exact (read_fresh grown).symm
  | owned new whole flavor _ _ grown filled =>
    refine ⟨_, .owned ((h.mapped _).1 new) whole flavor (h.initial hapart filled),
      h.addRoot hcoherent ⟨new, rfl⟩ (by simp) ?_ filled.size fun _ _ hroot => hapart.read_of_grown grown hroot⟩
    rw [← filled.size]
    exact (read_fresh grown).symm

/-- A write, copy or fill comes to what the store makes of it, inside the root. -/
inductive Transfer (memory : GlobalMemory) (store : ByteStore) (op : MemoryOp) :
    Except MemoryError GlobalMemory → Prop
  | refused {error} (puts : store.puts op = .error error) : Transfer memory store op (.error error)
  | nothing (puts : store.puts op = .ok none) : Transfer memory store op (.ok memory)
  | moved {spot base data} (puts : store.puts op = .ok (some (spot, data)))
      (root : memory.IsRoot spot.root base) (fits : spot.offset + data.size ≤ base.size) :
      Transfer memory store op
        (.ok { memory with heap := memory.heap.write (base.start.advance spot.offset) data })

theorem Represents.write (h : memory.Represents store) (object : ObjectId) (offset : Nat) (data : Bytes) :
    memory.Transfer store (.write object offset data) (memory.write object offset data) := by
  unfold GlobalMemory.write
  rcases h.range object offset data.size with ⟨error, hrange, hlocate⟩ | ⟨spot, base, hroot, hfits, hrange, hlocate⟩
  · rw [hrange]
    exact .refused (by simp [ByteStore.puts, hlocate])
  · rw [hrange]
    exact .moved (by simp [ByteStore.puts, hlocate]) hroot hfits

theorem Represents.copy (h : memory.Represents store) (hapart : memory.Apart) (source : ObjectId)
    (sourceOffset : Nat) (target : ObjectId) (targetOffset length : Nat) :
    memory.Transfer store (.copy source sourceOffset target targetOffset length)
      (memory.copy source sourceOffset target targetOffset length) := by
  unfold GlobalMemory.copy
  rcases h.range source sourceOffset length with
    ⟨error, hrange, hlocate⟩ | ⟨start, from', hfrom, hinside, hrange, hlocate⟩
  · rw [hrange]
    exact .refused (by simp [ByteStore.puts, hlocate])
  · rcases h.range target targetOffset length with
      ⟨error, hrange', hlocate'⟩ | ⟨goal, base, hroot, hfits, hrange', hlocate'⟩
    · rw [hrange, hrange']
      exact .refused (by simp [ByteStore.puts, hlocate, hlocate'])
    · rw [hrange, hrange']
      have htaken := h.take hapart hfrom hinside
      have hsize : (store.take start length).size = length := by
        rw [← htaken]
        exact Heap.size_read ((hapart.backed _ _ hfrom).advance hinside)
      refine .moved ?_ hroot (by rw [htaken, hsize]; exact hfits)
      simp [ByteStore.puts, hlocate, hlocate', htaken]

theorem Represents.fill (h : memory.Represents store) (object : ObjectId) (offset : Nat) (pattern : Bytes)
    (length : Nat) :
    memory.Transfer store (.fill object offset pattern length) (memory.fill object offset pattern length) := by
  unfold GlobalMemory.fill
  rcases h.range object offset length with ⟨error, hrange, hlocate⟩ | ⟨spot, base, hroot, hfits, hrange, hlocate⟩
  · rw [hrange]
    exact .refused (by simp [ByteStore.puts, hlocate])
  · rw [hrange]
    simp only [bind, Except.bind, pure, Except.pure]
    have hnone : pattern.isEmpty = true ↔ pattern.size = 0 := by simp
    by_cases hempty : pattern.size = 0
    · rw [if_pos (hnone.2 hempty)]
      exact .nothing (by simp only [ByteStore.puts, hlocate, if_pos hempty])
    · rw [if_neg (mt hnone.1 hempty)]
      by_cases hmultiple : length % pattern.size ≠ 0
      · rw [if_pos hmultiple]
        exact .refused (by simp only [ByteStore.puts, hlocate, if_neg hempty, if_pos hmultiple])
      · rw [if_neg hmultiple]
        refine .moved ?_ hroot (by simpa [repeated] using hfits)
        simp only [ByteStore.puts, hlocate, if_neg hempty, if_neg hmultiple, repeated]

theorem Transfer.serves {op : MemoryOp} {result : Except MemoryError GlobalMemory}
    (htransfer : memory.Transfer store op result) (h : memory.Represents store) (hapart : memory.Apart) :
    ∃ store', store.Transfers op (memory.commit result).1 store' ∧ (memory.commit result).2.Represents store' ∧
      (memory.commit result).2.Apart := by
  unfold ByteStore.Transfers
  cases htransfer with
  | refused puts => exact ⟨store, by rw [puts]; exact ⟨rfl, rfl⟩, h, hapart⟩
  | nothing puts => exact ⟨store, by rw [puts]; exact ⟨rfl, rfl⟩, h, hapart⟩
  | moved puts root fits =>
    exact ⟨_, by rw [puts]; exact ⟨rfl, rfl⟩, h.put hapart root fits,
      hapart.of_tables rfl (Heap.keeps_write _ _ _)⟩

theorem Represents.perform (h : memory.Represents store) (hcoherent : memory.Coherent)
    (hapart : memory.Apart) (op : MemoryOp) (hhost : memory.HostApart op) :
    ∃ store', store.Serves op (memory.perform op).1 store' ∧ (memory.perform op).2.Represents store' ∧
      (memory.perform op).2.Apart := by
  cases op with
  | lend contents =>
    have hgrown := Heap.grown_adopt memory.heap contents
    exact ⟨store, rfl, h.of_heap rfl fun _ _ hroot => hapart.read_of_grown hgrown hroot,
      hapart.of_tables rfl hgrown.keeps⟩
  | provide =>
    exact ⟨store, ⟨rfl, rfl⟩, h.of_heap rfl fun _ _ _ => rfl,
      hapart.of_tables rfl ⟨Nat.le_refl _, fun _ _ => rfl⟩⟩
  | map object =>
    obtain ⟨store', hmaps, hafter⟩ := h.map hcoherent hapart hhost (memory.map_outcome object)
    exact ⟨store', hmaps, hafter, hapart.map hhost (memory.map_outcome object)⟩
  | alloc object =>
    rw [perform_alloc]
    have hplain : memory.HostApart (.map (.buffer object.id object.size)) := by
      intro buffer storage hcall _ _ hflavor
      obtain rfl := MemoryOp.map.inj hcall
      simp [MemoryObject.buffer] at hflavor
    obtain ⟨store', hmaps, hafter⟩ := h.map hcoherent hapart hplain (memory.map_outcome _)
    exact ⟨store', hmaps, hafter, hapart.map hplain (memory.map_outcome _)⟩
  | free object =>
    obtain ⟨gone, hreleases⟩ := free_spec hcoherent.toListed object
    exact ⟨store.drop object, ⟨rfl, rfl⟩, h.drop hcoherent hapart hreleases, hapart.release hreleases⟩
  | read object offset length =>
    refine ⟨store, ⟨rfl, ?_⟩, h, hapart⟩
    simp only [GlobalMemory.perform, GlobalMemory.read]
    rcases h.range object offset length with ⟨error, hrange, hlocate⟩ | ⟨spot, base, hroot, hfits, hrange, hlocate⟩
    · rw [hrange, hlocate]
      rfl
    · rw [hrange, hlocate]
      exact congrArg MemoryAnswer.bytes (h.take hapart hroot hfits)
  | write object offset data => exact (h.write object offset data).serves h hapart
  | copy source sourceOffset target targetOffset length =>
    exact (h.copy hapart source sourceOffset target targetOffset length).serves h hapart
  | fill object offset pattern length => exact (h.fill object offset pattern length).serves h hapart

/-! ## Calls that are refused, and bytes that are seen -/

theorem commit_refused {result : Except MemoryError GlobalMemory} {error : MemoryError}
    (h : (memory.commit result).1 = .failure (.refused error)) : (memory.commit result).2 = memory := by
  cases result with
  | error error => rfl
  | ok memory' => simp [commit] at h

theorem Outcome.refused {object : MemoryObject} {result : Except MemoryFailure Address} {error : MemoryError}
    (houtcome : memory.Outcome object result memory') (h : answerOf result = .failure (.refused error)) :
    memory' = memory := by
  cases houtcome with
  | known | orphan | misfit | rejected => rfl
  | inside | lent | owned => simp [answerOf] at h
  | broken => simp [answerOf] at h

/-- A call that is refused leaves memory as it was. -/
theorem perform_refused {op : MemoryOp} {error : MemoryError}
    (h : (memory.perform op).1 = .failure (.refused error)) : (memory.perform op).2 = memory := by
  cases op with
  | lend | provide => simp [perform] at h
  | map object => exact (memory.map_outcome object).refused h
  | alloc object =>
    rw [perform_alloc] at h ⊢
    exact (memory.map_outcome _).refused h
  | free => simp [perform] at h
  | read => rfl
  | write | copy | fill => exact commit_refused h

theorem Transfer.put {store' : ByteStore} {op : MemoryOp} {result : Except MemoryError GlobalMemory}
    {answer : MemoryAnswer} {spot : Spot} {data : Bytes} (htransfer : memory.Transfer store op result)
    (h : memory.Represents store) (hapart : memory.Apart) (hputs : store.puts op = .ok (some (spot, data)))
    (hserves : store.Transfers op answer store') :
    spot.offset + data.size ≤ (store.bytes spot.root).size ∧ store' = store.put spot data := by
  unfold ByteStore.Transfers at hserves
  rw [hputs] at hserves
  refine ⟨?_, hserves.2⟩
  cases htransfer with
  | refused puts => simp [puts] at hputs
  | nothing puts => simp [puts] at hputs
  | moved puts root fits =>
    obtain ⟨rfl, rfl⟩ : _ = spot ∧ _ = data := by simpa [puts] using hputs
    rw [h.bytes _ _ root, Heap.size_read (hapart.backed _ _ root)]
    exact fits

/-- Where bytes are put, every object over the same root sees them, and no other object sees anything. -/
theorem Represents.seen {store' : ByteStore} {op : MemoryOp} {answer : MemoryAnswer} {spot : Spot} {data : Bytes}
    (h : memory.Represents store) (hapart : memory.Apart) (h' : memory'.Represents store')
    (hserves : store.Serves op answer store') (hputs : store.puts op = .ok (some (spot, data))) {view : View}
    {i : Nat} (hview : store.views id = some view) (hi : i < view.size) :
    memory'.byteAt? id i =
      if view.root = spot.root ∧ spot.offset ≤ view.offset + i ∧ view.offset + i < spot.offset + data.size then
        data[view.offset + i - spot.offset]?
      else memory.byteAt? id i := by
  have hput : spot.offset + data.size ≤ (store.bytes spot.root).size ∧ store' = store.put spot data := by
    cases op with
    | lend | provide | map | alloc | free | read => simp [ByteStore.puts] at hputs
    | write object offset data' => exact (h.write object offset data').put h hapart hputs hserves
    | copy source sourceOffset target targetOffset length =>
      exact (h.copy hapart source sourceOffset target targetOffset length).put h hapart hputs hserves
    | fill object offset pattern length =>
      exact (h.fill object offset pattern length).put h hapart hputs hserves
  obtain ⟨hfits, rfl⟩ := hput
  rw [h'.byteAt?, h.byteAt?, ByteStore.byteAt?_put hfits hview hi]

/-! ## Storage lent by the host -/

theorem map_lent {object : MemoryObject} {storage : Address} (hnew : memory.mappings.find? object.id = none)
    (hwhole : object.parent = none) (hflavor : object.flavor = .hostOwned storage) :
    (memory.map object).2 = { memory with
      mappings := memory.mappings.insert object.id { start := storage, size := object.size, storage := .lent } } := by
  simp only [GlobalMemory.map, addressOf?, hnew, Option.map_none, hwhole, hflavor]

theorem Represents.lent {store' : ByteStore} {object : MemoryObject} {storage : Address}
    (h : memory.Represents store) (h' : (memory.perform (.map object)).2.Represents store')
    (hnew : store.views object.id = none) (hwhole : object.parent = none)
    (hflavor : object.flavor = .hostOwned storage) :
    store'.bytes object.id = memory.heap.read storage object.size := by
  have hmap := map_lent ((h.mapped object.id).2 hnew) hwhole hflavor
  simp only [GlobalMemory.perform, hmap] at h'
  exact h'.bytes object.id { start := storage, size := object.size, storage := .lent }
    ⟨Dict.find?_insert_self _ _ _, by simp⟩

end Represents

/-! ## Every run -/

/-- Beside a run there are stores, one before each call and one at the end, which the memory represents, and
each call takes one store to the next. -/
structure Refines (capacity : Nat) (ops : List MemoryOp) (stores : Nat → ByteStore) : Prop where
  start : stores 0 = {}
  represents : ∀ n ≤ ops.length, (after capacity (ops.take n)).Represents (stores n)
  /-- Roots are disjoint. -/
  apart : ∀ n ≤ ops.length, (after capacity (ops.take n)).Apart
  /-- Every byte of every object is the store's. -/
  bytes : ∀ n ≤ ops.length, ∀ id i, (after capacity (ops.take n)).byteAt? id i = (stores n).byteAt? id i
  serves : ∀ n op, ops[n]? = some op →
    (stores n).Serves op (answer capacity (ops.take n) op) (stores (n + 1))
  /-- Bytes that are put somewhere are seen through every view of the root, and through no other. -/
  seen : ∀ n op spot data, ops[n]? = some op → (stores n).puts op = .ok (some (spot, data)) →
    ∀ id view i, (stores n).views id = some view → i < view.size →
      (after capacity (ops.take (n + 1))).byteAt? id i =
        if view.root = spot.root ∧ spot.offset ≤ view.offset + i ∧
            view.offset + i < spot.offset + data.size then
          data[view.offset + i - spot.offset]?
        else (after capacity (ops.take n)).byteAt? id i
  /-- An object over storage lent by the host shows what the host holds there. -/
  lent : ∀ n object storage, ops[n]? = some (.map object) → (stores n).views object.id = none →
    object.parent = none → object.flavor = .hostOwned storage →
      (stores (n + 1)).bytes object.id = (after capacity (ops.take n)).heap.read storage object.size
  /-- A refused call changes nothing. -/
  refused : ∀ n op error, ops[n]? = some op →
    answer capacity (ops.take n) op = .failure (.refused error) →
      after capacity (ops.take (n + 1)) = after capacity (ops.take n)

theorem after_take_succ {capacity n : Nat} {ops : List MemoryOp} {op : MemoryOp} (h : ops[n]? = some op) :
    after capacity (ops.take (n + 1)) = ((after capacity (ops.take n)).perform op).2 := by
  rw [List.take_add_one, h, Option.toList_some, after_concat]

/-- The stores beside a run, from the start to each of its calls. By induction on the number of calls. -/
theorem exists_stores (capacity : Nat) (ops : List MemoryOp)
    (hhost : ∀ n op, ops[n]? = some op → (after capacity (ops.take n)).HostApart op) (count : Nat)
    (hcount : count ≤ ops.length) :
    ∃ stores : Nat → ByteStore, stores 0 = {} ∧
      (∀ n ≤ count, (after capacity (ops.take n)).Represents (stores n) ∧ (after capacity (ops.take n)).Apart) ∧
      ∀ n op, n < count → ops[n]? = some op →
        (stores n).Serves op (answer capacity (ops.take n) op) (stores (n + 1)) := by
  induction count with
  | zero =>
    refine ⟨fun _ => {}, rfl, fun n hn => ?_, fun n op hn => by omega⟩
    obtain rfl := Nat.le_zero.1 hn
    exact ⟨represents_empty fun _ => rfl, apart_empty fun _ => rfl⟩
  | succ count ih =>
    obtain ⟨stores, hstart, hrepresents, hserves⟩ := ih (by omega)
    obtain ⟨op, hop⟩ : ∃ op, ops[count]? = some op := ⟨_, List.getElem?_eq_getElem (by omega)⟩
    obtain ⟨hold, hapart⟩ := hrepresents count (Nat.le_refl _)
    obtain ⟨store', hserve, hnew, hapart'⟩ :=
      hold.perform (coherent_after capacity (ops.take count)) hapart op (hhost count op hop)
    refine ⟨fun n => if n ≤ count then stores n else store', by simpa using hstart, ?_, ?_⟩
    · intro n hn
      by_cases hle : n ≤ count
      · simp only [if_pos hle]
        exact hrepresents n hle
      · obtain rfl : n = count + 1 := by omega
        simp only [if_neg hle]
        rw [after_take_succ hop]
        exact ⟨hnew, hapart'⟩
    · intro n call hn hcall
      by_cases hlt : n < count
      · simp only [if_pos (Nat.le_of_lt hlt), if_pos (Nat.succ_le_of_lt hlt)]
        exact hserves n call hlt hcall
      · obtain rfl : n = count := by omega
        obtain rfl : op = call := Option.some.inj (hop.symm.trans hcall)
        simp only [Nat.le_refl, if_true, if_neg (Nat.not_succ_le_self n)]
        exact hserve

/-- Global memory is a byte store, as long as the storage the host lends is in no other use. -/
theorem refines_byteStore (capacity : Nat) (ops : List MemoryOp)
    (hhost : ∀ n op, ops[n]? = some op → (after capacity (ops.take n)).HostApart op) :
    ∃ stores, Refines capacity ops stores := by
  obtain ⟨stores, hstart, hrepresents, hserves⟩ := exists_stores capacity ops hhost ops.length (Nat.le_refl _)
  have hlt : ∀ {n op}, ops[n]? = some op → n < ops.length := fun hop => (List.getElem?_eq_some_iff.1 hop).1
  refine ⟨stores, hstart, fun n hn => (hrepresents n hn).1, fun n hn => (hrepresents n hn).2,
    fun n hn => (hrepresents n hn).1.byteAt?, fun n op hop => hserves n op (hlt hop) hop, ?_, ?_, ?_⟩
  · intro n op spot data hop hputs id view i hview hi
    obtain ⟨hbefore, hapart⟩ := hrepresents n (Nat.le_of_lt (hlt hop))
    obtain ⟨hafter, -⟩ := hrepresents (n + 1) (hlt hop)
    exact hbefore.seen hapart hafter (hserves n op (hlt hop) hop) hputs hview hi
  · intro n object storage hop hnew hwhole hflavor
    obtain ⟨hbefore, -⟩ := hrepresents n (Nat.le_of_lt (hlt hop))
    obtain ⟨hafter, -⟩ := hrepresents (n + 1) (hlt hop)
    rw [after_take_succ hop] at hafter
    exact hbefore.lent hafter hnew hwhole hflavor
  · intro n op error hop hanswer
    rw [after_take_succ hop]
    exact perform_refused hanswer

/-- Four bytes lent by the host, and a view of the last three of them. The copy moves the first three over the
last three, through different objects. -/
def aliasRun : List MemoryOp :=
  [.lend #[1, 2, 3, 4], .map (.hostOwned ⟨1⟩ ⟨0, 0⟩ 4), .map (.subObject ⟨2⟩ (.hostOwned ⟨1⟩ ⟨0, 0⟩ 4) 1 3),
    .copy ⟨1⟩ 0 ⟨2⟩ 0 3]

theorem refines_aliasRun :
    (∀ n op, aliasRun[n]? = some op → (after 64 (aliasRun.take n)).HostApart op) ∧
      (∃ stores, Refines 64 aliasRun stores) ∧
      answer 64 aliasRun (.read ⟨1⟩ 0 4) = .bytes #[1, 1, 2, 3] := by
  have hhost : ∀ n op, aliasRun[n]? = some op → (after 64 (aliasRun.take n)).HostApart op := by
    intro n op hop object storage hcall hnew hwhole hflavor
    subst hcall
    rcases n with _ | _ | _ | _ | n
    · simp [aliasRun] at hop
    · obtain rfl : MemoryObject.hostOwned ⟨1⟩ ⟨0, 0⟩ 4 = object := by simpa [aliasRun] using hop
      obtain rfl : Address.mk 0 0 = storage := by simpa [MemoryObject.hostOwned] using hflavor
      refine ⟨Heap.Backs.of_le_size (by decide +kernel), fun id mapping hfound => ?_⟩
      have hnone : (after 64 (aliasRun.take 1)).mappings.find? id = none := rfl
      simp [hnone] at hfound
    · obtain rfl : MemoryObject.subObject ⟨2⟩ (.hostOwned ⟨1⟩ ⟨0, 0⟩ 4) 1 3 = object := by
        simpa [aliasRun] using hop
      simp [MemoryObject.subObject] at hwhole
    · simp [aliasRun] at hop
    · simp [aliasRun] at hop
  exact ⟨hhost, refines_byteStore 64 aliasRun hhost, by decide +kernel⟩

end ComputeCore.GlobalMemory
