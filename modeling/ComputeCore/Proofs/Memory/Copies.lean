import ComputeCore.CopyJob
import ComputeCore.Proofs.Memory.Heap
/-!
# What a copy does

The elements of a copy lie in equal steps on both sides, one element apart unless the side is strided. A
copy whose elements all exist, and which writes none of those it reads, puts each source element at the
place of its target element and changes nothing else (`CopyJob.run_copied`).
-/

namespace ComputeCore

/-- Element `n` of a row of elements of this size that lie `step` elements apart. -/
def Address.element (start : Address) (size step n : Nat) : Region :=
  { start := start.advance (n * step * size), size }

namespace Address
variable {start address : Address} {size step n m : Nat}

theorem element_advance (start : Address) (size step n : Nat) :
    (start.advance (step * size)).element size step n = start.element size step (n + 1) := by
  simp only [element, advance_advance]
  congr 2
  rw [Nat.add_mul, Nat.add_mul, Nat.one_mul, Nat.add_comm]

theorem element_zero (start : Address) (size step : Nat) :
    start.element size step 0 = { start, size } := by
  simp [element, advance]

/-- The first element meets none of the others. -/
theorem not_holds_first (hstep : 0 < step) (h : (start.element size step (n + 1)).Holds address) :
    ¬ Region.Holds { start, size } address := by
  rintro ⟨-, -, hto⟩
  have hfrom := h.2.1
  have hle : 1 * size ≤ (n + 1) * step * size :=
    Nat.mul_le_mul_right size (Nat.mul_pos (Nat.succ_pos n) hstep)
  simp only [element, advance] at hfrom hto
  omega

/-- All elements lie between the first one and the end of the last. -/
theorem holds_of_element {count : Nat} (hn : n < count) (h : (start.element size step n).Holds address) :
    Region.Holds { start, size := ((count - 1) * step + 1) * size } address := by
  obtain ⟨hblock, hfrom, hto⟩ := h
  have hlast : (n * step + 1) * size ≤ ((count - 1) * step + 1) * size :=
    Nat.mul_le_mul_right size (Nat.succ_le_succ (Nat.mul_le_mul_right step (Nat.le_sub_one_of_lt hn)))
  rw [Nat.add_one_mul] at hlast
  simp only [element, advance] at hblock hfrom hto
  exact ⟨hblock, Nat.le_trans (Nat.le_add_right ..) hfrom, by dsimp only; omega⟩

end Address

/-- Ranges that do not meet have no byte in common. -/
theorem Region.not_holds_of_overlaps {a b : Region} {address : Address} (h : a.overlaps b = false)
    (ha : a.Holds address) : ¬ b.Holds address := by
  intro hb
  have hmeet : a.start.block = b.start.block ∧ a.start.offset < b.start.offset + b.size ∧
      b.start.offset < a.start.offset + a.size :=
    ⟨ha.1.symm.trans hb.1, Nat.lt_of_le_of_lt ha.2.1 hb.2.2, Nat.lt_of_le_of_lt hb.2.1 ha.2.2⟩
  rw [overlaps, decide_eq_true hmeet] at h
  cases h

/-- A copy of bytes that exist to others that exist. -/
theorem Heap.copy_copied {heap : Heap} {source target : Address} {size : Nat}
    (hsource : heap.Backs { start := source, size }) (htarget : heap.Backs { start := target, size }) :
    (heap.copy source target size).read target size = heap.read source size ∧
      ∀ address, ¬ Region.Holds { start := target, size } address →
        (heap.copy source target size).byte? address = heap.byte? address := by
  have hsize := size_read hsource
  have hbacks : heap.Backs { start := target, size := (heap.read source size).size } := by rwa [hsize]
  refine ⟨?_, fun address hout => ?_⟩
  · have hread := read_write_self hbacks
    rwa [hsize] at hread
  · rw [copy, byte?_write hbacks, hsize, if_neg hout]

namespace CopyJob

/-! ## Elements -/

/-- How far source elements lie apart, in elements. -/
def sourceStep (job : CopyJob) : Nat :=
  if job.sourceStride = 0 then 1 else job.sourceStride

/-- How far target elements lie apart, in elements. -/
def targetStep (job : CopyJob) : Nat :=
  if job.sourceStride = 0 ∧ job.targetStride ≠ 0 then job.targetStride else 1

def sourceElement (job : CopyJob) (n : Nat) : Region :=
  job.source.element job.elementSize job.sourceStep n

def targetElement (job : CopyJob) (n : Nat) : Region :=
  job.target.element job.elementSize job.targetStep n

/-- The byte belongs to one of the elements that are copied. -/
def Reads (job : CopyJob) (address : Address) : Prop :=
  ∃ n, n < job.count ∧ (job.sourceElement n).Holds address

/-- The byte belongs to one of the elements that are copied to. -/
def Writes (job : CopyJob) (address : Address) : Prop :=
  ∃ n, n < job.count ∧ (job.targetElement n).Holds address

/-- The sizes that are computed on the way can be counted. -/
def Sized (job : CopyJob) : Prop :=
  if job.sourceStride = 0 ∧ job.targetStride = 0 then job.count * job.elementSize < Size.limit
  else 2 ≤ job.count →
    job.sourceStep * job.elementSize < Size.limit ∧ job.targetStep * job.elementSize < Size.limit

/-- What a copy needs to be carried out. -/
structure Valid (job : CopyJob) (heap : Heap) : Prop where
  /-- The bytes from the first element to the last can be counted. -/
  sized : ((job.count - 1) * max job.sourceStep job.targetStep + 1) * job.elementSize < Size.limit
  backed : ∀ address, job.Reads address ∨ job.Writes address → (heap.byte? address).isSome = true
  apart : ∀ address, job.Writes address → ¬ job.Reads address

/-- The elements are at their places. -/
def Delivered (job : CopyJob) (before after : Heap) : Prop :=
  ∀ n, n < job.count → after.read (job.targetElement n).start job.elementSize =
    before.read (job.sourceElement n).start job.elementSize

section Copies
variable {job : CopyJob} {heap : Heap} {address : Address}

/-! ## Ranges -/

/-- From the first element to the last. -/
def sourceSpan (job : CopyJob) : Region :=
  { start := job.source, size := ((job.count - 1) * job.sourceStep + 1) * job.elementSize }

def targetSpan (job : CopyJob) : Region :=
  { start := job.target, size := ((job.count - 1) * job.targetStep + 1) * job.elementSize }

theorem Reads.holds (h : job.Reads address) : job.sourceSpan.Holds address :=
  let ⟨_, hn, haddress⟩ := h
  Address.holds_of_element hn haddress

theorem Writes.holds (h : job.Writes address) : job.targetSpan.Holds address :=
  let ⟨_, hn, haddress⟩ := h
  Address.holds_of_element hn haddress

/-- It is enough that the ranges are there and do not meet. -/
theorem Valid.of_spans
    (hsized : ((job.count - 1) * max job.sourceStep job.targetStep + 1) * job.elementSize < Size.limit)
    (hsource : heap.Backs job.sourceSpan) (htarget : heap.Backs job.targetSpan)
    (hapart : job.targetSpan.overlaps job.sourceSpan = false) : job.Valid heap where
  sized := hsized
  backed address htouched := htouched.elim (fun h => hsource address h.holds) fun h => htarget address h.holds
  apart _ hwrites hreads := Region.not_holds_of_overlaps hapart hwrites.holds hreads.holds

/-! ## Elements at their places -/

theorem Delivered.byte? {heap' : Heap} (h : job.Delivered heap heap') {n i : Nat} (hn : n < job.count)
    (hi : i < job.elementSize) :
    heap'.byte? ((job.targetElement n).start.advance i) =
      heap.byte? ((job.sourceElement n).start.advance i) := by
  have helement := congrArg (·[i]?) (h n hn)
  simpa only [Heap.getElem?_read, if_pos hi] using helement

/-- An element that is there is at its place byte by byte. -/
theorem Delivered.backed {heap' : Heap} (h : job.Delivered heap heap')
    (hreads : ∀ address, job.Reads address → (heap.byte? address).isSome = true)
    (hwrites : job.Writes address) : (heap'.byte? address).isSome = true := by
  obtain ⟨n, hn, haddress⟩ := hwrites
  obtain ⟨i, hi, rfl⟩ := Region.holds_iff.1 haddress
  rw [h.byte? hn hi]
  exact hreads _ ⟨n, hn, Region.holds_iff.2 ⟨i, hi, rfl⟩⟩

/-! ## Carrying out a copy -/

/-- By induction on the elements: the first one is copied, and neither it nor what the others are copied
from is written after that. -/
theorem copyElements_copied (size sourceStep targetStep : Nat) (hstep : 0 < targetStep) (n : Nat) :
    ∀ (source target : Address) (heap : Heap),
    (2 ≤ n → sourceStep * size < Size.limit ∧ targetStep * size < Size.limit) →
    (∀ m, m < n → heap.Backs (source.element size sourceStep m) ∧
      heap.Backs (target.element size targetStep m)) →
    (∀ m, m < n → ∀ l, l < n → ∀ address, (target.element size targetStep m).Holds address →
      ¬ (source.element size sourceStep l).Holds address) →
    ∃ heap', copyElements size sourceStep targetStep n source target heap = (.ok (), heap') ∧
      (∀ m, m < n → heap'.read (target.element size targetStep m).start size =
        heap.read (source.element size sourceStep m).start size) ∧
      ∀ address, (∀ m, m < n → ¬ (target.element size targetStep m).Holds address) →
        heap'.byte? address = heap.byte? address := by
  induction n with
  | zero => exact fun source target heap _ _ _ => ⟨heap, rfl, by simp, fun _ _ => rfl⟩
  | succ n ih =>
    intro source target heap hsizes hbacks hapart
    obtain ⟨hsource, htarget⟩ := hbacks 0 (Nat.succ_pos n)
    rw [Address.element_zero] at hsource htarget
    obtain ⟨hfirst, hkept⟩ := Heap.copy_copied hsource htarget
    cases n with
    | zero =>
      refine ⟨_, rfl, fun m hm => ?_, fun address hout => hkept address ?_⟩
      · obtain rfl : m = 0 := by omega
        simpa only [Address.element_zero] using hfirst
      · simpa only [Address.element_zero] using hout 0 (Nat.succ_pos 0)
    | succ n =>
      obtain ⟨hsourceBytes, htargetBytes⟩ := hsizes (by omega)
      have hsame : ∀ m, m < n + 2 → ∀ address, (source.element size sourceStep m).Holds address →
          (heap.copy source target size).byte? address = heap.byte? address := fun m hm address haddress =>
        hkept address fun hmeets => hapart 0 (by omega) m hm address
          (by rwa [Address.element_zero]) haddress
      have hkeeps := Heap.keeps_write heap target (heap.read source size)
      obtain ⟨heap', hrun, hrest, hothers⟩ := ih (source.advance (sourceStep * size))
        (target.advance (targetStep * size)) (heap.copy source target size)
        (fun _ => ⟨hsourceBytes, htargetBytes⟩)
        (fun m hm => by
          rw [Address.element_advance, Address.element_advance]
          obtain ⟨hsource, htarget⟩ := hbacks (m + 1) (by omega)
          exact ⟨hsource.of_keeps hkeeps, htarget.of_keeps hkeeps⟩)
        (fun m hm l hl address => by
          rw [Address.element_advance, Address.element_advance]
          exact hapart (m + 1) (by omega) (l + 1) (by omega) address)
      simp only [Address.element_advance] at hrest hothers
      refine ⟨heap', ?_, fun m hm => ?_, fun address hout => ?_⟩
      · simp only [copyElements, Size.mul, if_pos hsourceBytes, if_pos htargetBytes, hrun]
      · cases m with
        | zero =>
          rw [Address.element_zero, Address.element_zero, ← hfirst]
          exact Heap.read_congr fun address haddress => hothers address fun m _ hmeets =>
            Address.not_holds_first hstep hmeets haddress
        | succ m =>
          rw [hrest m (by omega)]
          exact Heap.read_congr (hsame (m + 1) (by omega))
      · rw [hothers address fun m hm => hout (m + 1) (by omega)]
        exact hkept address (by simpa only [Address.element_zero] using hout 0 (by omega))

theorem targetStep_pos (job : CopyJob) : 0 < job.targetStep := by
  unfold targetStep
  split
  · next h => exact Nat.pos_of_ne_zero h.2
  · exact Nat.one_pos

/-- With the bytes from the first element to the last one, all sizes that are needed can be counted. -/
theorem Valid.countable (h : job.Valid heap) : job.Sized := by
  have hsized := h.sized
  have hmax : 1 ≤ max job.sourceStep job.targetStep :=
    Nat.le_trans job.targetStep_pos (Nat.le_max_right ..)
  unfold Sized
  split
  · refine Nat.lt_of_le_of_lt (Nat.mul_le_mul_right _ ?_) hsized
    have := Nat.le_mul_of_pos_right (job.count - 1) hmax
    omega
  · intro hcount
    have hstep : ∀ step, step ≤ max job.sourceStep job.targetStep →
        step * job.elementSize < Size.limit := fun step hstep => by
      refine Nat.lt_of_le_of_lt (Nat.mul_le_mul_right _ ?_) hsized
      have := Nat.mul_le_mul (Nat.le_sub_one_of_lt hcount) hstep
      omega
    exact ⟨hstep _ (Nat.le_max_left ..), hstep _ (Nat.le_max_right ..)⟩

/-- Consecutive elements are one range. -/
theorem holds_consecutive {start address : Address} {size count : Nat} :
    Region.Holds { start, size := count * size } address →
      ∃ n, n < count ∧ (start.element size 1 n).Holds address := by
  intro haddress
  obtain ⟨i, hi, rfl⟩ := Region.holds_iff.1 haddress
  have hsize : 0 < size := Nat.pos_of_ne_zero fun hzero => by simp [hzero] at hi
  refine ⟨i / size, Nat.div_lt_of_lt_mul (by rwa [Nat.mul_comm]),
    Region.holds_iff.2 ⟨i % size, Nat.mod_lt i hsize, ?_⟩⟩
  simp only [Address.element, Address.advance_advance, Nat.mul_one, Nat.mul_comm _ size,
    Nat.div_add_mod]

theorem element_le {size count n : Nat} (hn : n < count) : n * size + size ≤ count * size := by
  rw [← Nat.succ_mul]
  exact Nat.mul_le_mul_right size hn

/-- A copy of consecutive elements moves all of them at once. -/
theorem run_consecutive (hsource : job.sourceStride = 0) (htarget : job.targetStride = 0)
    (hsized : job.count * job.elementSize < Size.limit)
    (hbacks : ∀ n, n < job.count → heap.Backs (job.sourceElement n) ∧ heap.Backs (job.targetElement n)) :
    ∃ heap', job.run heap = (.ok (), heap') ∧ job.Delivered heap heap' ∧
      ∀ address, ¬ job.Writes address → heap'.byte? address = heap.byte? address := by
  have hsourceElement : ∀ n, job.sourceElement n = job.source.element job.elementSize 1 n := fun n => by
    simp [sourceElement, sourceStep, hsource]
  have htargetElement : ∀ n, job.targetElement n = job.target.element job.elementSize 1 n := fun n => by
    simp [targetElement, targetStep, htarget]
  have hsourceBacks : heap.Backs { start := job.source, size := job.count * job.elementSize } := by
    intro address haddress
    obtain ⟨n, hn, hholds⟩ := holds_consecutive haddress
    exact (hbacks n hn).1 address (hsourceElement n ▸ hholds)
  have htargetBacks : heap.Backs { start := job.target, size := job.count * job.elementSize } := by
    intro address haddress
    obtain ⟨n, hn, hholds⟩ := holds_consecutive haddress
    exact (hbacks n hn).2 address (htargetElement n ▸ hholds)
  obtain ⟨hread, hkept⟩ := Heap.copy_copied hsourceBacks htargetBacks
  refine ⟨heap.copy job.source job.target (job.count * job.elementSize),
    by simp [run, hsource, htarget, Size.mul, hsized], fun n hn => ?_, fun address hout => ?_⟩
  · have hfits : n * job.elementSize + job.elementSize ≤ job.count * job.elementSize := element_le hn
    have hkeeps : (heap.copy job.source job.target (job.count * job.elementSize)).Backs
        { start := job.target, size := job.count * job.elementSize } :=
      htargetBacks.of_keeps (Heap.keeps_write ..)
    simp only [htargetElement, hsourceElement, Address.element, Nat.mul_one]
    rw [Heap.read_advance hkeeps hfits, Heap.read_advance hsourceBacks hfits, hread]
  · refine hkept address fun hmeets => hout ?_
    obtain ⟨n, hn, hholds⟩ := holds_consecutive hmeets
    exact ⟨n, hn, htargetElement n ▸ hholds⟩

/-- A copy whose elements are all there, and which writes none that it reads, is carried out, element by
element, and changes nothing else. -/
theorem run_delivered (hsized : job.Sized)
    (hbacked : ∀ address, job.Reads address ∨ job.Writes address → (heap.byte? address).isSome = true)
    (hapart : ∀ address, job.Writes address → ¬ job.Reads address) :
    ∃ heap', job.run heap = (.ok (), heap') ∧ job.Delivered heap heap' ∧
      ∀ address, ¬ job.Writes address → heap'.byte? address = heap.byte? address := by
  have hbacks : ∀ n, n < job.count → heap.Backs (job.sourceElement n) ∧ heap.Backs (job.targetElement n) :=
    fun n hn => ⟨fun address haddress => hbacked address (.inl ⟨n, hn, haddress⟩),
      fun address haddress => hbacked address (.inr ⟨n, hn, haddress⟩)⟩
  unfold Sized at hsized
  split at hsized
  · next hconsecutive => exact run_consecutive hconsecutive.1 hconsecutive.2 hsized hbacks
  · next hstrided =>
    obtain ⟨heap', hrun, hdelivered, hkept⟩ := copyElements_copied job.elementSize job.sourceStep
      job.targetStep job.targetStep_pos job.count job.source job.target heap hsized hbacks
      (fun m hm l hl address hwrites hreads => hapart address ⟨m, hm, hwrites⟩ ⟨l, hl, hreads⟩)
    refine ⟨heap', ?_, hdelivered, fun address hout =>
      hkept address fun n hn hholds => hout ⟨n, hn, hholds⟩⟩
    rw [← hrun]
    unfold run sourceStep targetStep
    by_cases hsource : job.sourceStride = 0
    · have htarget : job.targetStride ≠ 0 := fun htarget => hstrided ⟨hsource, htarget⟩
      simp [hsource, htarget]
    · simp [hsource]

/-- A copy that can be carried out is carried out, element by element, and changes nothing else. -/
theorem run_copied (h : job.Valid heap) : ∃ heap', job.run heap = (.ok (), heap') ∧
    job.Delivered heap heap' ∧ ∀ address, ¬ job.Writes address → heap'.byte? address = heap.byte? address :=
  run_delivered h.countable h.backed h.apart

end Copies

end CopyJob

end ComputeCore
