import ComputeCore.Proofs.IndexSpace.Visits
import ComputeCore.Proofs.Kernel.Ensures
import ComputeCore.Proofs.Scheduling.Frontier
/-!
# Exchange in rounds

An `Exchange` is what groups compute in rounds: in each round every work-item works out a value from
the values of its whole group in the round before. `Exchange.iterate` says which values these are, and
`Exchange.invoke` is the kernel that computes them: a work-item puts its value of each round in a cell
of local memory, comes to a barrier, and puts its value of the last round in a buffer.

`Exchange.Filled` says what is in the cells and in the buffer for the invocations that have ended, and
`Exchange.invoke_ensures` that an invocation at its turn adds its own part.
-/

namespace ComputeCore

/-! ## Slots -/

/-- A region as an array of slots of `width` bytes: slot `n`. -/
def Region.slot (region : Region) (width n : Nat) : Region :=
  { start := region.start.advance (n * width), size := width }

/-- What is in a slot. -/
def Heap.slot (heap : Heap) (region : Region) (width n : Nat) : Bytes :=
  heap.read (region.slot width n).start width

section Slots
variable {region other : Region} {heap heap' : Heap} {width count n m : Nat} {bytes : Bytes}

theorem Region.holds_of_slot (hn : n < count) (hfits : count * width ≤ region.size) {address : Address}
    (h : (region.slot width n).Holds address) : region.Holds address := by
  obtain ⟨hblock, hfrom, hto⟩ := h
  simp only [slot, Address.advance] at hblock hfrom hto
  have : (n + 1) * width ≤ count * width := Nat.mul_le_mul_right _ hn
  rw [Nat.add_mul] at this
  exact ⟨hblock, by omega, by omega⟩

theorem Region.slots_apart (hne : n ≠ m) {address : Address} (h : (region.slot width n).Holds address) :
    ¬ (region.slot width m).Holds address := by
  rintro ⟨-, hfrom', hto'⟩
  obtain ⟨-, hfrom, hto⟩ := h
  simp only [slot, Address.advance] at hfrom hto hfrom' hto'
  rcases Nat.lt_or_gt_of_ne hne with hlt | hlt
  · have : (n + 1) * width ≤ m * width := Nat.mul_le_mul_right _ hlt
    rw [Nat.add_mul] at this
    omega
  · have : (m + 1) * width ≤ n * width := Nat.mul_le_mul_right _ hlt
    rw [Nat.add_mul] at this
    omega

namespace Heap

theorem Backs.slot (h : heap.Backs region) (hn : n < count) (hfits : count * width ≤ region.size) :
    heap.Backs (region.slot width n) :=
  fun address haddress => h address (Region.holds_of_slot hn hfits haddress)

theorem slot_agrees {kept : Address → Prop} (h : heap.Agrees kept heap')
    (hkept : ∀ address, region.Holds address → kept address) (hn : n < count)
    (hfits : count * width ≤ region.size) : heap'.slot region width n = heap.slot region width n :=
  h.read fun address haddress => hkept address (Region.holds_of_slot hn hfits haddress)

theorem slot_write_self (h : heap.Backs region) (hn : n < count) (hfits : count * width ≤ region.size)
    (hsize : bytes.size = width) :
    (heap.write (region.slot width n).start bytes).slot region width n = bytes := by
  subst hsize
  exact read_write_self (h.slot hn hfits)

theorem slot_write_other (h : heap.Backs region) (hn : n < count) (hfits : count * width ≤ region.size)
    (hsize : bytes.size = width) (hne : m ≠ n) :
    (heap.write (region.slot width n).start bytes).slot region width m = heap.slot region width m := by
  subst hsize
  exact read_write_apart (h.slot hn hfits) fun address haddress => Region.slots_apart hne haddress

theorem slot_write_apart (h : heap.Backs region) (hn : n < count) (hfits : count * width ≤ region.size)
    (hsize : bytes.size = width) (hapart : other.start.block ≠ region.start.block) :
    (heap.write (region.slot width n).start bytes).slot other width m = heap.slot other width m := by
  subst hsize
  exact read_write_apart (h.slot hn hfits) fun address haddress hholds =>
    hapart (haddress.1.symm.trans hholds.1)

end Heap

end Slots

/-! ## The computation and its kernel -/

/-- A computation in rounds, which are counted from zero. -/
structure Exchange where
  rounds : Nat
  /-- The bytes of one value. -/
  width : Nat
  /-- The value of a work-item in a round, from the linear ids of its group and of its own and from the
  values of its whole group in the round before. In the first round there are none. -/
  value (round group index : Nat) (previous : List Bytes) : Bytes
  /-- The local argument with a cell for each round and work-item. -/
  cells : Nat
  /-- The object argument the values of the last round go to. -/
  output : Nat
  rounds_pos : 0 < rounds
  rounds_lt : rounds < UInt32.size
  size_value : ∀ round group index previous, (value round group index previous).size = width

namespace Exchange

/-- The value of a work-item in a round of the synchronous iteration. -/
def iterate (exchange : Exchange) (perGroup group : Nat) : Nat → Nat → Bytes
  | 0, index => exchange.value 0 group index []
  | round + 1, index => exchange.value (round + 1) group index
      ((List.range perGroup).map (exchange.iterate perGroup group round))

/-- Reads `count` slots, from slot `first` on. -/
def readSlots (region : Region) (width : Nat) : Nat → Nat → Process (List Bytes)
  | _, 0 => return []
  | first, count + 1 => do
    let bytes ← Process.request (.read (region.slot width first).start width)
    let rest ← readSlots region width (first + 1) count
    return bytes :: rest

/-- Reads the values of the whole group from the round before. -/
def readBefore (exchange : Exchange) (cells : Region) (perGroup : Nat) : Nat → Process (List Bytes)
  | 0 => return []
  | round + 1 => readSlots cells exchange.width (round * perGroup) perGroup

/-- One invocation: the round to which the frame has come, or, after the last one, the delivery. -/
def invoke (exchange : Exchange) (item : WorkItem) (frame : Frame) : Process (Outcome × Frame) := do
  let perGroup ← .ofExcept item.cursor.space.itemsPerGroup
  let group ← .ofExcept item.cursor.groupLinear
  let index ← .ofExcept item.cursor.localLinear
  let position ← .ofExcept item.cursor.position
  match item.localArg? exchange.cells, item.objectArg? exchange.output with
  | some cells, some output =>
    let round := frame.resume.toNat
    let cell (round index : Nat) := (cells.slot exchange.width (round * perGroup + index)).start
    if round < exchange.rounds then
      let previous ← exchange.readBefore cells perGroup round
      Process.request (.write (cell round index) (exchange.value round group index previous))
      return (item.barrier .localMemory (frame.resume + 1), frame)
    else
      let last ← Process.request (.read (cell (exchange.rounds - 1) index) exchange.width)
      Process.request (.write (output.slot exchange.width position).start last)
      return (.done, frame)
  | _, _ => .fault (.raised "missing argument")

/-! ## What has been put where -/

/-- The memory the groups of a dispatch work in: how many work-items each has, the local cells and the
buffer. -/
structure Board where
  perGroup : Nat
  cells : Region
  output : Region

/-- The addresses of the board. -/
def Board.Kept (board : Board) (address : Address) : Prop :=
  board.cells.Holds address ∨ board.output.Holds address

/-- There is a cell for each round and work-item, and a place in the buffer for each work-item. -/
structure Fits (exchange : Exchange) (board : Board) (groups : Nat) : Prop where
  cells : exchange.rounds * board.perGroup * exchange.width ≤ board.cells.size
  output : groups * board.perGroup * exchange.width ≤ board.output.size
  apart : board.output.start.block ≠ board.cells.start.block

/-- How an invocation in this pass ends: at a barrier after each round, and with `done` after all. -/
def Answers (exchange : Exchange) (pass : Nat) (outcome : Outcome) : Prop :=
  (pass < exchange.rounds ∧ ∃ resumeAt : UInt32, outcome = .barrier resumeAt ∧
    resumeAt.toNat = pass + 1) ∨
  (pass = exchange.rounds ∧ outcome = .done)

/-- The values that the ended invocations have left, in the cells for the group that has come to its
turn, and in the buffer for all groups. -/
structure Filled (exchange : Exchange) (board : Board) (past : List (Call × Answer)) (group : Nat)
    (heap : Heap) : Prop where
  cells_backed : heap.Backs board.cells
  output_backed : heap.Backs board.output
  cells : ∀ e ∈ past, e.1.moment.group = group → e.1.moment.pass < exchange.rounds →
    heap.slot board.cells exchange.width (e.1.moment.pass * board.perGroup + e.1.moment.index) =
      exchange.iterate board.perGroup group e.1.moment.pass e.1.moment.index
  results : ∀ e ∈ past, e.1.moment.pass = exchange.rounds →
    heap.slot board.output exchange.width (e.1.moment.group * board.perGroup + e.1.moment.index) =
      exchange.iterate board.perGroup e.1.moment.group (exchange.rounds - 1) e.1.moment.index

section Invocations
variable {exchange : Exchange} {board : Board} {groups group pass index : Nat}
  {past : List (Call × Answer)} {heap heap' : Heap}

theorem size_iterate (exchange : Exchange) (perGroup group round index : Nat) :
    (exchange.iterate perGroup group round index).size = exchange.width := by
  cases round <;> exact exchange.size_value _ _ _ _

/-- What is on the board stays there while other threads leave it alone. -/
theorem Filled.agrees (h : exchange.Filled board past group heap) (hfits : exchange.Fits board groups)
    (hbounds : ∀ e ∈ past, e.1.moment.group < groups ∧ e.1.moment.index < board.perGroup)
    (hagrees : heap.Agrees board.Kept heap') : exchange.Filled board past group heap' where
  cells_backed := hagrees.backs (fun _ => .inl) h.cells_backed
  output_backed := hagrees.backs (fun _ => .inr) h.output_backed
  cells e he hgroup hround := by
    rw [Heap.slot_agrees hagrees (fun _ => .inl) (linear_lt hround (hbounds e he).2) hfits.cells]
    exact h.cells e he hgroup hround
  results e he hround := by
    rw [Heap.slot_agrees hagrees (fun _ => .inr) (linear_lt (hbounds e he).1 (hbounds e he).2)
      hfits.output]
    exact h.results e he hround

/-- A work-item puts its value of a round into its cell, which no ended invocation has used. -/
theorem Filled.put_cell (h : exchange.Filled board past group heap) (hfits : exchange.Fits board groups)
    (hbounds : ∀ e ∈ past, e.1.moment.group < groups ∧ e.1.moment.index < board.perGroup)
    (hfresh : ∀ e ∈ past, e.1.moment ≠ ⟨group, pass, index⟩) (hround : pass < exchange.rounds)
    (hindex : index < board.perGroup) {call : Call} (hm : call.moment = ⟨group, pass, index⟩)
    (answer : Answer) :
    exchange.Filled board (past ++ [(call, answer)]) group
      (heap.write (board.cells.slot exchange.width (pass * board.perGroup + index)).start
        (exchange.iterate board.perGroup group pass index)) := by
  have hsize := size_iterate exchange board.perGroup group pass index
  have hslot := linear_lt hround hindex
  refine ⟨h.cells_backed.of_keeps (Heap.keeps_write _ _ _),
    h.output_backed.of_keeps (Heap.keeps_write _ _ _), fun e he hgroup hpass => ?_,
    fun e he hpass => ?_⟩
  · rcases List.mem_append.1 he with he | he
    · rw [Heap.slot_write_other h.cells_backed hslot hfits.cells hsize]
      · exact h.cells e he hgroup hpass
      · -- Two invocations of a group have one cell only if they are at one moment.
        intro hsame
        obtain ⟨hp, hi⟩ := linear_inj (hbounds e he).2 hindex hsame
        exact hfresh e he (by rw [← hgroup, ← hp, ← hi])
    · obtain rfl := List.mem_singleton.1 he
      simp only [hm]
      exact Heap.slot_write_self h.cells_backed hslot hfits.cells hsize
  · rw [Heap.slot_write_apart h.cells_backed hslot hfits.cells hsize hfits.apart]
    rcases List.mem_append.1 he with he | he
    · exact h.results e he hpass
    · obtain rfl := List.mem_singleton.1 he
      simp only [hm] at hpass
      omega

/-- After the last round a work-item puts its value into its place of the buffer. -/
theorem Filled.put_result (h : exchange.Filled board past group heap)
    (hfits : exchange.Fits board groups)
    (hbounds : ∀ e ∈ past, e.1.moment.group < groups ∧ e.1.moment.index < board.perGroup)
    (hfresh : ∀ e ∈ past, e.1.moment ≠ ⟨group, exchange.rounds, index⟩) (hgroup : group < groups)
    (hindex : index < board.perGroup) {call : Call}
    (hm : call.moment = ⟨group, exchange.rounds, index⟩) (answer : Answer) :
    exchange.Filled board (past ++ [(call, answer)]) group
      (heap.write (board.output.slot exchange.width (group * board.perGroup + index)).start
        (exchange.iterate board.perGroup group (exchange.rounds - 1) index)) := by
  have hsize := size_iterate exchange board.perGroup group (exchange.rounds - 1) index
  have hslot := linear_lt hgroup hindex
  refine ⟨h.cells_backed.of_keeps (Heap.keeps_write _ _ _),
    h.output_backed.of_keeps (Heap.keeps_write _ _ _), fun e he hsame hpass => ?_,
    fun e he hpass => ?_⟩
  · rw [Heap.slot_write_apart h.output_backed hslot hfits.output hsize hfits.apart.symm]
    rcases List.mem_append.1 he with he | he
    · exact h.cells e he hsame hpass
    · obtain rfl := List.mem_singleton.1 he
      simp only [hm] at hpass
      omega
  · rcases List.mem_append.1 he with he | he
    · rw [Heap.slot_write_other h.output_backed hslot hfits.output hsize]
      · exact h.results e he hpass
      · intro hsame
        obtain ⟨hg, hi⟩ := linear_inj (hbounds e he).2 hindex hsame
        exact hfresh e he (by rw [← hg, ← hpass, ← hi])
    · obtain rfl := List.mem_singleton.1 he
      simp only [hm]
      exact Heap.slot_write_self h.output_backed hslot hfits.output hsize

/-! ## One invocation -/

/-- Reading slots that others leave alone. By induction on their number. -/
theorem readSlots_ensures {kept : Address → Prop} {region : Region} {width count : Nat}
    (hkept : ∀ address, region.Holds address → kept address) (hfits : count * width ≤ region.size)
    (number : Nat) : ∀ first heap, first + number ≤ count →
      (readSlots region width first number).Ensures kept (fun values heap' =>
        heap.Agrees kept heap' ∧ values = (List.range' first number).map (heap.slot region width))
        heap := by
  induction number with
  | zero => exact fun first heap _ heap' hagrees => ⟨hagrees, rfl⟩
  | succ number ih =>
    intro first heap hle heap' hagrees
    have hrest := ih (first + 1) heap' (by omega)
    refine hrest.bind fun values heap'' hvalues => ?_
    obtain ⟨hagrees', rfl⟩ := hvalues
    intro heap₃ hagrees''
    refine ⟨(hagrees.trans hagrees').trans hagrees'', ?_⟩
    have hslots : ∀ n, n < count → heap'.slot region width n = heap.slot region width n :=
      fun n hn => Heap.slot_agrees hagrees hkept hn hfits
    rw [List.range'_succ, List.map_cons]
    refine congrArg₂ List.cons (hslots first (by omega)) (List.map_congr_left fun n hn => ?_)
    have := (List.mem_range'_1.1 hn).2
    exact hslots n (by omega)

/-- A work-item is shown its place and the board. -/
structure Shown (exchange : Exchange) (board : Board) (group index : Nat) (item : WorkItem) : Prop where
  perGroup_eq : item.cursor.space.itemsPerGroup = .ok board.perGroup
  group_eq : item.cursor.groupLinear = .ok group
  index_eq : item.cursor.localLinear = .ok index
  position_eq : item.cursor.position = .ok (group * board.perGroup + index)
  cells_eq : item.localArg? exchange.cells = some board.cells
  output_eq : item.objectArg? exchange.output = some board.output

/-- Before a round a work-item reads all it needs for its value of the round. -/
theorem readBefore_ensures (hfits : exchange.Fits board groups)
    (hfilled : exchange.Filled board past group heap) (hround : pass < exchange.rounds)
    (hbefore : ∀ other < board.perGroup, ∀ round, pass = round + 1 →
      ∃ e ∈ past, e.1.moment = ⟨group, round, other⟩) (index : Nat) :
    (exchange.readBefore board.cells board.perGroup pass).Ensures board.Kept (fun values heap' =>
      heap.Agrees board.Kept heap' ∧
        exchange.value pass group index values = exchange.iterate board.perGroup group pass index)
      heap := by
  cases pass with
  | zero => exact fun heap' hagrees => ⟨hagrees, rfl⟩
  | succ round =>
    have hrow : round * board.perGroup + board.perGroup ≤ exchange.rounds * board.perGroup := by
      rw [← Nat.succ_mul]
      exact Nat.mul_le_mul_right _ (Nat.le_of_lt hround)
    refine (readSlots_ensures (fun _ => .inl) hfits.cells board.perGroup _ heap hrow).imp
      fun values heap' hvalues => ⟨hvalues.1, ?_⟩
    rw [hvalues.2, iterate, List.range'_eq_map_range, List.map_map]
    refine congrArg _ (List.map_congr_left fun other hother => ?_)
    obtain ⟨e, he, hm⟩ := hbefore other (List.mem_range.1 hother) round rfl
    simpa [hm] using hfilled.cells e he (by rw [hm]) (by rw [hm]; exact Nat.lt_of_succ_lt hround)

/-- An invocation at its turn, when the whole group has ended the round before, fills in its part. -/
theorem invoke_ensures {item : WorkItem} {frame : Frame} (hfits : exchange.Fits board groups)
    (hfilled : exchange.Filled board past group heap)
    (hbounds : ∀ e ∈ past, e.1.moment.group < groups ∧ e.1.moment.index < board.perGroup)
    (hfresh : ∀ e ∈ past, e.1.moment ≠ ⟨group, pass, index⟩)
    (hbefore : ∀ other < board.perGroup, ∀ round, pass = round + 1 →
      ∃ e ∈ past, e.1.moment = ⟨group, round, other⟩)
    (hpass : pass ≤ exchange.rounds) (hgroup : group < groups) (hindex : index < board.perGroup)
    (hshown : exchange.Shown board group index item) (hresume : frame.resume.toNat = pass) :
    (exchange.invoke item frame).Ensures board.Kept (fun result heap' =>
      exchange.Answers pass result.1 ∧ ∀ call : Call, call.moment = ⟨group, pass, index⟩ →
        exchange.Filled board (past ++ [(call, .returned result.1 result.2)]) group heap') heap := by
  have hbounds' : ∀ e' : Call × Answer, e'.1.moment = ⟨group, pass, index⟩ → ∀ e ∈ past ++ [e'],
      e.1.moment.group < groups ∧ e.1.moment.index < board.perGroup := by
    intro e' hm e he
    rcases List.mem_append.1 he with he | he
    · exact hbounds e he
    · obtain rfl := List.mem_singleton.1 he
      simp [hm, hgroup, hindex]
  simp only [invoke, hshown.perGroup_eq, hshown.group_eq, hshown.index_eq, hshown.position_eq,
    hshown.cells_eq, hshown.output_eq, hresume, Process.ofExcept]
  by_cases hround : pass < exchange.rounds
  · have hresumes : (frame.resume + 1).toNat = pass + 1 := by
      have := exchange.rounds_lt
      rw [UInt32.toNat_add, hresume]
      exact Nat.mod_eq_of_lt (by simp only [UInt32.size] at this; simp; omega)
    simp only [if_pos hround]
    refine (readBefore_ensures hfits hfilled hround hbefore index).bind fun values heap₁ hvalues => ?_
    obtain ⟨hagrees, hvalue⟩ := hvalues
    -- The write of the value, and then the end of the invocation.
    intro heap₂ hagrees₂ heap₃ hagrees₃
    refine ⟨.inl ⟨hround, frame.resume + 1, rfl, hresumes⟩, fun call hm => ?_⟩
    have hstill := hfilled.agrees hfits hbounds (hagrees.trans hagrees₂)
    have hput := hstill.put_cell hfits hbounds hfresh hround hindex hm
      (.returned (.barrier (frame.resume + 1)) frame)
    rw [← hvalue] at hput
    rw [hresume] at hagrees₃
    exact hput.agrees hfits (hbounds' _ hm) hagrees₃
  · obtain rfl : pass = exchange.rounds := by omega
    obtain ⟨last, hlast⟩ : ∃ last, exchange.rounds = last + 1 :=
      ⟨exchange.rounds - 1, by have := exchange.rounds_pos; omega⟩
    simp only [if_neg hround]
    -- The read of the last value, the write of it, and the end of the invocation.
    intro heap₁ hagrees₁ heap₂ hagrees₂ heap₃ hagrees₃
    refine ⟨.inr ⟨rfl, rfl⟩, fun call hm => ?_⟩
    have hread : heap₁.slot board.cells exchange.width
        ((exchange.rounds - 1) * board.perGroup + index) =
          exchange.iterate board.perGroup group (exchange.rounds - 1) index := by
      obtain ⟨e, he, hm⟩ := hbefore index hindex last hlast
      have hcell := (hfilled.agrees hfits hbounds hagrees₁).cells e he (by rw [hm])
        (by rw [hm]; exact hlast ▸ Nat.lt_succ_self last)
      simpa [hm, hlast] using hcell
    have hstill := hfilled.agrees hfits hbounds (hagrees₁.trans hagrees₂)
    have hput := hstill.put_result hfits hbounds hfresh hgroup hindex hm (.returned .done frame)
    rw [← hread] at hput
    exact hput.agrees hfits (hbounds' _ hm) hagrees₃

end Invocations

end Exchange

end ComputeCore
