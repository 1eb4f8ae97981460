import ComputeCore.Proofs.Memory.Calls
import ComputeCore.Scheduling.Command
/-!
# Services that are refused

A service is refused for the first of its checks that fails (`refusal?`): an object that is not mapped, a
range that does not lie inside its object, a fill that would end inside its pattern. Every refused service
leaves memory as it was. A refused read has brought its host buffer to the length it asked for all the same:
`execute_failed_iff` says what a refusal leaves behind, and that it is what was there before exactly if no
host buffer had another length (`Fitted`). Where one had, the bytes past the length are gone
(`prepared_destination`).
-/

namespace ComputeCore

/-- Why `length` bytes at `offset` in an object cannot be touched, if they cannot. -/
def GlobalMemory.outside? (memory : GlobalMemory) (object : ObjectId) (offset length : Nat) :
    Option MemoryError :=
  match memory.sizeOf? object with
  | none => some (.notMapped object)
  | some size =>
    if offset + length < Size.limit ∧ offset + length ≤ size then none
    else some (.outOfBounds offset length size)

namespace ServiceCommand

/-- Why memory refuses a service, if it does. -/
def refusal? (memory : GlobalMemory) : ServiceCommand → Option MemoryError
  | marker | barrier => none
  | readBuffer buffer offset length _ => memory.outside? buffer offset length
  | writeBuffer buffer offset data => memory.outside? buffer offset data.size
  | copyBuffer source sourceOffset target targetOffset length =>
    (memory.outside? source sourceOffset length).or (memory.outside? target targetOffset length)
  | fillBuffer buffer offset pattern length =>
    (memory.outside? buffer offset length).or
      (if pattern.size ≠ 0 ∧ length % pattern.size ≠ 0 then some (.patternMismatch length pattern.size)
        else none)

/-- A read of more bytes than any array holds. -/
def Overlong : ServiceCommand → Prop
  | readBuffer _ _ length _ => Size.arrayLimit < length
  | _ => False

instance (service : ServiceCommand) : Decidable service.Overlong := by
  cases service <;> unfold Overlong <;> infer_instance

/-- The host buffer a read goes to, and how long it is to be. -/
def destination? : ServiceCommand → Option (Nat × Nat)
  | readBuffer _ _ length hostBuffer => some (hostBuffer, length)
  | _ => none

/-- The host buffers once the one a read goes to has the length of the read. -/
def prepared (service : ServiceCommand) (hostBuffers : Array Bytes) : Array Bytes :=
  match service.destination? with
  | some (number, length) => hostBuffers.modify number (resized · length)
  | none => hostBuffers

/-- No host buffer has another length than what is read into it. -/
def Fitted (service : ServiceCommand) (hostBuffers : Array Bytes) : Prop :=
  ∀ number length bytes, service.destination? = some (number, length) →
    hostBuffers[number]? = some bytes → bytes.size = length

/-! ## Host buffers -/

theorem size_resized (bytes : Bytes) (length : Nat) : (resized bytes length).size = length := by
  simp only [resized, Array.size_append, Array.size_extract, Array.size_replicate]
  omega

/-- The bytes up to the length stay, and zeros follow them. -/
theorem getElem?_resized (bytes : Bytes) (length i : Nat) :
    (resized bytes length)[i]? = if i < length then some (bytes[i]?.getD 0) else none := by
  have hkept : (bytes.extract 0 length).size = min length bytes.size := by simp
  unfold resized
  by_cases hi : i < min length bytes.size
  · rw [Array.getElem?_append_left (by omega), Array.getElem?_extract, if_pos (by omega), if_pos (by omega),
      Nat.zero_add, Array.getElem?_eq_getElem (by omega), Option.getD_some]
  · rw [Array.getElem?_append_right (by omega), Array.getElem?_replicate, hkept]
    by_cases hlength : i < length
    · rw [if_pos (by omega), if_pos hlength, Array.getElem?_eq_none (by omega), Option.getD_none]
    · rw [if_neg (by omega), if_neg hlength]

theorem resized_eq_self_iff {bytes : Bytes} {length : Nat} : resized bytes length = bytes ↔ bytes.size = length := by
  constructor
  · intro h
    rw [← h, size_resized]
  · rintro rfl
    simp [resized]

theorem prepared_eq_self_iff (service : ServiceCommand) (hostBuffers : Array Bytes) :
    service.prepared hostBuffers = hostBuffers ↔ service.Fitted hostBuffers := by
  unfold prepared Fitted
  cases service.destination? with
  | none => simp
  | some destination =>
    obtain ⟨number, length⟩ := destination
    constructor
    · rintro h number' length' bytes ⟨⟩ hbytes
      have hsame := congrArg (·[number]?) h
      simp only [Array.getElem?_modify, if_pos, hbytes, Option.map_some, Option.some.injEq] at hsame
      exact resized_eq_self_iff.1 hsame
    · intro h
      apply Array.ext_getElem?
      intro n
      rw [Array.getElem?_modify]
      split
      · next heq =>
        subst heq
        cases hbytes : hostBuffers[number]? with
        | none => rfl
        | some bytes => rw [Option.map_some, resized_eq_self_iff.2 (h _ _ _ rfl hbytes)]
      · rfl

theorem prepared_other {service : ServiceCommand} {hostBuffers : Array Bytes} {n : Nat}
    (h : ∀ length, service.destination? ≠ some (n, length)) :
    (service.prepared hostBuffers)[n]? = hostBuffers[n]? := by
  unfold prepared
  split
  · next number length hdestination =>
    have hne : number ≠ n := fun heq => h length (heq ▸ hdestination)
    rw [Array.getElem?_modify, if_neg hne]
  · rfl

/-- The one host buffer that is prepared keeps its bytes up to the length, and zeros follow them. -/
theorem prepared_destination {service : ServiceCommand} {hostBuffers : Array Bytes} {number length : Nat}
    {bytes : Bytes} (h : service.destination? = some (number, length)) (hbytes : hostBuffers[number]? = some bytes) :
    ∃ left, (service.prepared hostBuffers)[number]? = some left ∧
      ∀ i, left[i]? = if i < length then some (bytes[i]?.getD 0) else none := by
  refine ⟨resized bytes length, ?_, getElem?_resized bytes length⟩
  rw [prepared, h, Array.getElem?_modify, if_pos rfl, hbytes, Option.map_some]

/-! ## Refusals -/

section Refusals
variable {memory memory' : GlobalMemory} {hostBuffers hostBuffers' : Array Bytes} {error : MemoryError}
  {service : ServiceCommand}

theorem range_of_outside {object : ObjectId} {offset length : Nat}
    (h : memory.outside? object offset length = some error) :
    memory.range object offset length = .error error := by
  unfold GlobalMemory.outside? GlobalMemory.sizeOf? at h
  unfold GlobalMemory.range
  cases hfound : memory.mappings.find? object with
  | none => simpa [hfound] using h
  | some mapping =>
    simp only [hfound, Option.map_some] at h ⊢
    split at h
    · cases h
    · next houtside =>
      rw [if_neg houtside, Option.some.inj h]

theorem range_of_inside {object : ObjectId} {offset length : Nat}
    (h : memory.outside? object offset length = none) :
    ∃ start, memory.range object offset length = .ok start := by
  unfold GlobalMemory.outside? GlobalMemory.sizeOf? at h
  unfold GlobalMemory.range
  cases hfound : memory.mappings.find? object with
  | none => simp [hfound] at h
  | some mapping =>
    simp only [hfound, Option.map_some] at h ⊢
    split at h
    · next hinside => exact ⟨_, if_pos hinside⟩
    · cases h

theorem fitsArray_of_not_overlong {length : Nat} (h : ¬ Size.arrayLimit < length) :
    Size.fitsArray length 1 = .ok () := by
  rw [Size.fitsArray, if_pos (by omega)]

/-- A read of too many bytes breaks down before it has touched anything. -/
theorem execute_of_overlong (h : service.Overlong) :
    service.execute memory hostBuffers = (.error (.fault .capacityOverflow), memory, hostBuffers) := by
  cases service with
  | readBuffer buffer offset length hostBuffer =>
    have hlong : ¬ length * 1 ≤ Size.arrayLimit := by
      rw [Nat.mul_one]
      exact Nat.not_le.2 h
    simp only [execute, Size.fitsArray, if_neg hlong]
  | marker | barrier | writeBuffer | copyBuffer | fillBuffer => exact h.elim

/-- A refused service does nothing but prepare its host buffer. -/
theorem execute_of_refusal (hlong : ¬ service.Overlong) (h : service.refusal? memory = some error) :
    service.execute memory hostBuffers = (.error (.refused error), memory, service.prepared hostBuffers) := by
  cases service with
  | marker | barrier => cases h
  | readBuffer buffer offset length hostBuffer =>
    simp only [execute, fitsArray_of_not_overlong hlong, GlobalMemory.read, range_of_outside h, bind, Except.bind]
    rfl
  | writeBuffer buffer offset data =>
    simp only [execute, GlobalMemory.write, range_of_outside h, bind, Except.bind, execute.settle]
    rfl
  | copyBuffer source sourceOffset target targetOffset length =>
    simp only [execute, GlobalMemory.copy]
    cases hsource : memory.outside? source sourceOffset length with
    | some error' =>
      obtain rfl : error' = error := by simpa [refusal?, hsource] using h
      simp only [range_of_outside hsource, bind, Except.bind, execute.settle]
      rfl
    | none =>
      obtain ⟨start, hstart⟩ := range_of_inside hsource
      have htarget : memory.outside? target targetOffset length = some error := by
        simpa [refusal?, hsource] using h
      simp only [hstart, range_of_outside htarget, bind, Except.bind, execute.settle]
      rfl
  | fillBuffer buffer offset pattern length =>
    simp only [execute, GlobalMemory.fill]
    cases hrange : memory.outside? buffer offset length with
    | some error' =>
      obtain rfl : error' = error := by simpa [refusal?, hrange] using h
      simp only [range_of_outside hrange, bind, Except.bind, execute.settle]
      rfl
    | none =>
      obtain ⟨start, hstart⟩ := range_of_inside hrange
      have hpattern : (pattern.size ≠ 0 ∧ length % pattern.size ≠ 0) ∧
          .patternMismatch length pattern.size = error := by
        simpa [refusal?, hrange] using h
      obtain ⟨⟨hsize, hmismatch⟩, rfl⟩ := hpattern
      have hfilled : pattern.isEmpty = false := by simpa [Array.isEmpty] using hsize
      simp only [hstart, hfilled, bind, Except.bind, if_pos hmismatch, throw, throwThe, MonadExceptOf.throw,
        execute.settle, Bool.false_eq_true, if_false]
      rfl

/-- A service that is not refused is done. -/
theorem execute_of_accepted (hlong : ¬ service.Overlong) (h : service.refusal? memory = none) :
    (service.execute memory hostBuffers).1 = .ok () := by
  cases service with
  | marker | barrier => rfl
  | readBuffer buffer offset length hostBuffer =>
    obtain ⟨start, hstart⟩ := range_of_inside h
    simp only [execute, fitsArray_of_not_overlong hlong, GlobalMemory.read, hstart, bind, Except.bind, pure,
      Except.pure]
  | writeBuffer buffer offset data =>
    obtain ⟨start, hstart⟩ := range_of_inside h
    simp only [execute, GlobalMemory.write, hstart, bind, Except.bind, pure, Except.pure, execute.settle]
  | copyBuffer source sourceOffset target targetOffset length =>
    obtain ⟨hsource, htarget⟩ := Option.or_eq_none_iff.1 h
    obtain ⟨start, hstart⟩ := range_of_inside hsource
    obtain ⟨goal, hgoal⟩ := range_of_inside htarget
    simp only [execute, GlobalMemory.copy, hstart, hgoal, bind, Except.bind, pure, Except.pure, execute.settle]
  | fillBuffer buffer offset pattern length =>
    obtain ⟨hrange, hpattern⟩ := Option.or_eq_none_iff.1 h
    obtain ⟨start, hstart⟩ := range_of_inside hrange
    have hpattern : ¬ (pattern.size ≠ 0 ∧ length % pattern.size ≠ 0) := by simpa using hpattern
    simp only [execute, GlobalMemory.fill, hstart, bind, Except.bind, pure, Except.pure]
    by_cases hempty : pattern.isEmpty = true
    · simp only [if_pos hempty, execute.settle]
    · have hsize : pattern.size ≠ 0 := by simpa [Array.isEmpty] using hempty
      have hfits : ¬ length % pattern.size ≠ 0 := fun hmismatch => hpattern ⟨hsize, hmismatch⟩
      simp only [if_neg hempty, if_neg hfits, execute.settle]

/-- All ways a service can end. -/
theorem execute_cases (service : ServiceCommand) (memory : GlobalMemory) (hostBuffers : Array Bytes) :
    (service.Overlong ∧
      service.execute memory hostBuffers = (.error (.fault .capacityOverflow), memory, hostBuffers)) ∨
    (¬ service.Overlong ∧ ∃ error, service.refusal? memory = some error ∧
      service.execute memory hostBuffers =
        (.error (.refused error), memory, service.prepared hostBuffers)) ∨
    (¬ service.Overlong ∧ service.refusal? memory = none ∧
      (service.execute memory hostBuffers).1 = .ok ()) := by
  by_cases hlong : service.Overlong
  · exact .inl ⟨hlong, execute_of_overlong hlong⟩
  · cases hrefusal : service.refusal? memory with
    | some error => exact .inr (.inl ⟨hlong, error, rfl, execute_of_refusal hlong hrefusal⟩)
    | none => exact .inr (.inr ⟨hlong, rfl, execute_of_accepted hlong hrefusal⟩)

theorem execute_eq_refused_iff :
    service.execute memory hostBuffers = (.error (.refused error), memory', hostBuffers') ↔
      ¬ service.Overlong ∧ service.refusal? memory = some error ∧ memory' = memory ∧
        hostBuffers' = service.prepared hostBuffers := by
  constructor
  · intro h
    rcases service.execute_cases memory hostBuffers with
      ⟨-, hfault⟩ | ⟨hlong, error', hrefusal, hrefused⟩ | ⟨-, -, hdone⟩
    · cases h.symm.trans hfault
    · cases h.symm.trans hrefused
      exact ⟨hlong, hrefusal, rfl, rfl⟩
    · rw [h] at hdone
      cases hdone
  · rintro ⟨hlong, hrefusal, rfl, rfl⟩
    exact execute_of_refusal hlong hrefusal

theorem execute_eq_fault_iff {fault : Fault} :
    service.execute memory hostBuffers = (.error (.fault fault), memory', hostBuffers') ↔
      service.Overlong ∧ fault = .capacityOverflow ∧ memory' = memory ∧ hostBuffers' = hostBuffers := by
  constructor
  · intro h
    rcases service.execute_cases memory hostBuffers with
      ⟨hlong, hfault⟩ | ⟨-, error', -, hrefused⟩ | ⟨-, -, hdone⟩
    · cases h.symm.trans hfault
      exact ⟨hlong, rfl, rfl, rfl⟩
    · cases h.symm.trans hrefused
    · rw [h] at hdone
      cases hdone
  · rintro ⟨hlong, rfl, rfl, rfl⟩
    exact execute_of_overlong hlong

/-- Everything a service that fails leaves behind. A refused one leaves memory as it was, and its host
buffer at the length of the read, with the bytes it had up to there and zeros after them: all host buffers
are as they were exactly if it had that length. One that breaks down leaves everything as it was. -/
theorem execute_failed_iff (service : ServiceCommand) (memory memory' : GlobalMemory)
    (hostBuffers hostBuffers' : Array Bytes) :
    (∀ error, service.execute memory hostBuffers = (.error (.refused error), memory', hostBuffers') ↔
      ¬ service.Overlong ∧ service.refusal? memory = some error ∧ memory' = memory ∧
        hostBuffers' = service.prepared hostBuffers) ∧
    (service.prepared hostBuffers = hostBuffers ↔ service.Fitted hostBuffers) ∧
    (∀ n, (∀ length, service.destination? ≠ some (n, length)) →
      (service.prepared hostBuffers)[n]? = hostBuffers[n]?) ∧
    (∀ number length bytes, service.destination? = some (number, length) → hostBuffers[number]? = some bytes →
      ∃ left, (service.prepared hostBuffers)[number]? = some left ∧
        ∀ i, left[i]? = if i < length then some (bytes[i]?.getD 0) else none) ∧
    ∀ fault, service.execute memory hostBuffers = (.error (.fault fault), memory', hostBuffers') ↔
      service.Overlong ∧ fault = .capacityOverflow ∧ memory' = memory ∧ hostBuffers' = hostBuffers :=
  ⟨fun _ => execute_eq_refused_iff, prepared_eq_self_iff service hostBuffers, fun _ => prepared_other,
    fun _ _ _ => prepared_destination, fun _ => execute_eq_fault_iff⟩

/-- A read that is refused because it ends one byte past the end of its object has already cut a host
buffer of eight bytes to five. -/
theorem refused_read_cuts : ¬ ∀ (capacity : Nat) (ops : List MemoryOp) (service : ServiceCommand)
    (hostBuffers hostBuffers' : Array Bytes) (error : MemoryError) (memory' : GlobalMemory),
    service.execute (.after capacity ops) hostBuffers = (.error (.refused error), memory', hostBuffers') →
      memory' = .after capacity ops ∧ hostBuffers' = hostBuffers := by
  intro hall
  have hsame := hall 8 [.map (.buffer ⟨0⟩ 8)] (.readBuffer ⟨0⟩ 4 5 0) #[#[1, 2, 3, 4, 5, 6, 7, 8]] _ _ _ rfl
  exact absurd hsame.2 (by decide)

end Refusals

end ServiceCommand

end ComputeCore
