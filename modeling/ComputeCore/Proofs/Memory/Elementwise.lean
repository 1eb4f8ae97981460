import ComputeCore.Proofs.Memory.Copies
/-!
# Copies between arrays

A copy from one array of bytes to another one puts the elements of its source, taken at its source step, to the
places of its target, taken at its target step, and touches nothing else (`CopyJob.run_elementwise`). So
elements that were scattered can be gathered again.
-/

namespace ComputeCore

/-- Heaps that agree on consecutive elements agree on the range they make. -/
theorem Heap.read_consecutive {heap heap' : Heap} {start start' : Address} {size count : Nat}
    (h : ∀ n, n < count → heap'.read (start'.element size 1 n).start size =
      heap.read (start.element size 1 n).start size) :
    heap'.read start' (count * size) = heap.read start (count * size) := by
  apply Array.ext_getElem?
  intro i
  rw [getElem?_read, getElem?_read]
  split
  · next hi =>
    have hsize : 0 < size := Nat.pos_of_ne_zero fun hzero => by simp [hzero] at hi
    have helement := congrArg (·[i % size]?)
      (h (i / size) (Nat.div_lt_of_lt_mul (by rwa [Nat.mul_comm])))
    simpa only [getElem?_read, if_pos (Nat.mod_lt i hsize), Address.element, Address.advance_advance,
      Nat.mul_one, Nat.mul_comm _ size, Nat.div_add_mod] using helement
  · rfl

namespace CopyJob

/-- The copy goes from one array to another one, and these hold all its elements. -/
structure Between (job : CopyJob) (heap : Heap) (source target : Region) : Prop where
  fromArray : heap.Backs source
  toArray : heap.Backs target
  apart : ∀ address, target.Holds address → ¬ source.Holds address
  reads : ∀ address, job.Reads address → source.Holds address
  writes : ∀ address, job.Writes address → target.Holds address

section Arrays
variable {job : CopyJob} {heap heap' : Heap} {source target : Region} {restored : Address}

theorem Between.delivered (h : job.Between heap source target) (hsized : job.Sized) :
    ∃ heap', job.run heap = (.ok (), heap') ∧ job.Delivered heap heap' ∧
      ∀ address, ¬ job.Writes address → heap'.byte? address = heap.byte? address :=
  run_delivered hsized
    (fun address htouched => htouched.elim (fun hreads => h.fromArray address (h.reads address hreads))
      fun hwrites => h.toArray address (h.writes address hwrites))
    fun address hwrites hreads => h.apart address (h.writes address hwrites) (h.reads address hreads)

/-- The ranges from the first element to the last will do. -/
theorem Between.of_spans (hsource : heap.Backs job.sourceSpan) (htarget : heap.Backs job.targetSpan)
    (hapart : job.targetSpan.overlaps job.sourceSpan = false) :
    job.Between heap job.sourceSpan job.targetSpan where
  fromArray := hsource
  toArray := htarget
  apart _ htarget := Region.not_holds_of_overlaps hapart htarget
  reads _ := Reads.holds
  writes _ := Writes.holds

/-- What is there stays there. -/
theorem Between.isSome (h : job.Between heap source target) (hdelivered : job.Delivered heap heap')
    (hkept : ∀ address, ¬ job.Writes address → heap'.byte? address = heap.byte? address) {address : Address}
    (hbyte : (heap.byte? address).isSome = true) : (heap'.byte? address).isSome = true := by
  by_cases hwrites : job.Writes address
  · exact hdelivered.backed (fun other hreads => h.fromArray other (h.reads other hreads)) hwrites
  · rwa [hkept address hwrites]

/-! ## There and back -/

/-- The gather of elements from where a scatter has put them. -/
def gatherBack (job : CopyJob) (restored : Address) : CopyJob :=
  .strided restored job.target job.count job.elementSize job.targetStride true

theorem sourceStep_gatherBack (hsource : job.sourceStride = 0) :
    (job.gatherBack restored).sourceStep = job.targetStep := by
  unfold gatherBack strided sourceStep targetStep
  by_cases htarget : job.targetStride = 0 <;> simp [hsource, htarget]

theorem targetStep_gatherBack (job : CopyJob) (restored : Address) :
    (job.gatherBack restored).targetStep = 1 := by
  simp [gatherBack, strided, targetStep]

theorem sourceElement_gatherBack (hsource : job.sourceStride = 0) (n : Nat) :
    (job.gatherBack restored).sourceElement n = job.targetElement n :=
  congrArg (job.target.element job.elementSize · n) (sourceStep_gatherBack hsource)

theorem targetElement_gatherBack (job : CopyJob) (restored : Address) (n : Nat) :
    (job.gatherBack restored).targetElement n = restored.element job.elementSize 1 n :=
  congrArg (restored.element job.elementSize · n) (targetStep_gatherBack job restored)

theorem Sized.gatherBack (h : job.Sized) (hsource : job.sourceStride = 0) :
    (job.gatherBack restored).Sized := by
  have hstep : job.sourceStep = 1 := if_pos hsource
  unfold Sized at h ⊢
  rw [sourceStep_gatherBack hsource, targetStep_gatherBack]
  by_cases htarget : job.targetStride = 0
  · rw [if_pos ⟨hsource, htarget⟩] at h
    rwa [if_pos ⟨htarget, rfl⟩]
  · rw [if_neg fun hboth => htarget hboth.2, hstep] at h
    rw [if_neg fun hboth => htarget hboth.1]
    exact fun hcount => (h hcount).symm

/-- Consecutive elements lie in the range they make. -/
theorem holds_of_consecutive {start address : Address} {size count n : Nat} (hn : n < count)
    (h : (start.element size 1 n).Holds address) : Region.Holds { start, size := count * size } address := by
  have hspan := Address.holds_of_element hn h
  rwa [Nat.mul_one, Nat.sub_add_cancel (Nat.one_le_of_lt hn)] at hspan

/-- What a scatter has put there can be fetched from there. -/
theorem between_gatherBack (h : job.Between heap source target) (hsource : job.sourceStride = 0)
    (hstays : ∀ address, (heap.byte? address).isSome = true → (heap'.byte? address).isSome = true)
    (hbacks : heap.Backs { start := restored, size := job.count * job.elementSize })
    (hapart : ∀ address, Region.Holds { start := restored, size := job.count * job.elementSize } address →
      ¬ target.Holds address) :
    (job.gatherBack restored).Between heap' target
      { start := restored, size := job.count * job.elementSize } where
  fromArray address haddress := hstays address (h.toArray address haddress)
  toArray address haddress := hstays address (hbacks address haddress)
  apart := hapart
  reads := fun address ⟨n, hn, hholds⟩ =>
    h.writes address ⟨n, hn, sourceElement_gatherBack hsource n ▸ hholds⟩
  writes := fun _ ⟨n, hn, hholds⟩ =>
    holds_of_consecutive hn (targetElement_gatherBack job restored n ▸ hholds)

/-- A copy from one array to another one that does not meet it puts every element that it is to copy at its
place, byte by byte, and changes no other byte, in particular none of the source array. Gathered again from
where a scatter has put them, the elements are what they were. -/
theorem run_elementwise (h : job.Between heap source target) (hsized : job.Sized) :
    ∃ heap', job.run heap = (.ok (), heap') ∧
      (∀ n i, n < job.count → i < job.elementSize →
        heap'.byte? (job.target.advance (n * job.targetStep * job.elementSize + i)) =
          heap.byte? (job.source.advance (n * job.sourceStep * job.elementSize + i))) ∧
      (∀ address, ¬ job.Writes address → heap'.byte? address = heap.byte? address) ∧
      (∀ address, source.Holds address → heap'.byte? address = heap.byte? address) ∧
      ∀ restored, job.sourceStride = 0 →
        heap.Backs { start := restored, size := job.count * job.elementSize } →
        (∀ address, Region.Holds { start := restored, size := job.count * job.elementSize } address →
          ¬ target.Holds address) →
        ∃ heap'', (job.gatherBack restored).run heap' = (.ok (), heap'') ∧
          heap''.read restored (job.count * job.elementSize) =
            heap.read job.source (job.count * job.elementSize) := by
  obtain ⟨heap', hrun, hdelivered, hkept⟩ := h.delivered hsized
  refine ⟨heap', hrun, fun n i hn hi => ?_, hkept, fun address hsource => ?_,
    fun restored hsource hbacks hapart => ?_⟩
  · simpa only [sourceElement, targetElement, Address.element, Address.advance_advance] using
      hdelivered.byte? hn hi
  · exact hkept address fun hwrites => h.apart address (h.writes address hwrites) hsource
  · have hback := between_gatherBack h hsource (fun _ => h.isSome hdelivered hkept) hbacks hapart
    obtain ⟨heap'', hrun', hdelivered', -⟩ := hback.delivered (hsized.gatherBack hsource)
    refine ⟨heap'', hrun', Heap.read_consecutive fun n hn => ?_⟩
    -- Element `n` of the gather is element `n` of what was scattered.
    have hthere := hdelivered n hn
    have hhere := hdelivered' n hn
    rw [targetElement_gatherBack, sourceElement_gatherBack hsource] at hhere
    have hstep : job.sourceElement n = job.source.element job.elementSize 1 n := by
      rw [sourceElement, sourceStep, if_pos hsource]
    rw [hstep] at hthere
    exact hhere.trans hthere

end Arrays

/-- A heap with an array of two elements of two bytes each, room for them three apart, and room for them in a
row. -/
def threeArrays : Heap :=
  { blocks := #[#[1, 2, 3, 4], Array.replicate 8 0, Array.replicate 4 0] }

/-- Scatters the two elements. -/
def apartByThree : CopyJob :=
  .strided ⟨1, 0⟩ ⟨0, 0⟩ 2 2 3 false

theorem run_elementwise_scatter : ∃ heap', apartByThree.run threeArrays = (.ok (), heap') ∧
    heap'.byte? ⟨1, 7⟩ = some 4 ∧ heap'.byte? ⟨1, 2⟩ = some 0 ∧ heap'.byte? ⟨0, 3⟩ = some 4 ∧
    ∃ heap'', (apartByThree.gatherBack ⟨2, 0⟩).run heap' = (.ok (), heap'') ∧
      heap''.read ⟨2, 0⟩ 4 = #[1, 2, 3, 4] := by
  have hbetween : apartByThree.Between threeArrays apartByThree.sourceSpan apartByThree.targetSpan :=
    .of_spans (.of_le_size (by decide)) (.of_le_size (by decide)) (by decide)
  obtain ⟨heap', hrun, hplaced, hkept, hsource, hback⟩ := run_elementwise hbetween (by
    simp [Sized, apartByThree, strided, sourceStep, targetStep, Size.limit])
  obtain ⟨heap'', hrun', hread⟩ := hback ⟨2, 0⟩ rfl (.of_le_size (by decide))
    fun address hholds => Region.not_holds_of_overlaps (by decide) hholds
  refine ⟨heap', hrun, hplaced 1 1 (by decide) (by decide), ?_, hsource ⟨0, 3⟩ (by decide), heap'', hrun', hread⟩
  refine hkept ⟨1, 2⟩ ?_
  rintro ⟨n, hn, hholds⟩
  obtain rfl | rfl : n = 0 ∨ n = 1 := by
    have : n < 2 := hn
    omega
  all_goals exact absurd hholds (by decide)

end CopyJob

end ComputeCore
