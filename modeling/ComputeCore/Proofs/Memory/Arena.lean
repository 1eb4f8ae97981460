import Mathlib.Algebra.GroupWithZero.Nat
import ComputeCore.Memory.Arena
/-!
# Runs of an arena

A run of an arena is a list of resets and allocations, of any sizes. A call that faults leaves the arena as it
was, so whoever contains the fault can go on as if the call had not been made.

The arena compares a size with what is left of it, and with no sum. `Lawful` says what this comes to: nothing
leaves the range of sizes, and allocations after a reset succeed exactly when all of them, added up without a
bound, fit above the static prefix. A call has four ways to end (`Outcome`), and the lemmas below are case
analyses over them.
-/

namespace ComputeCore

/-- A call of an arena. -/
inductive ArenaCall where
  | reset (staticSize : Nat)
  | alloc (size : Nat)
  deriving DecidableEq

inductive ArenaAnswer where
  | address (start : Address)
  | done
  | fault (fault : Fault)
  deriving DecidableEq

/-- The range lies between two distances from an address. -/
structure Region.Between (range : Region) (base : Address) (bottom top : Nat) : Prop where
  block : range.start.block = base.block
  lower : base.offset + bottom ≤ range.start.offset
  upper : range.start.offset + range.size ≤ base.offset + top

theorem Region.overlaps_eq_false {a b : Region} (h : a.start.offset + a.size ≤ b.start.offset) :
    a.overlaps b = false := by
  simp only [overlaps, decide_eq_false_iff_not]
  omega

namespace LocalArena

/-! ## Runs -/

def perform (arena : LocalArena) : ArenaCall → ArenaAnswer × LocalArena
  | .reset staticSize =>
    match arena.reset staticSize with
    | .ok arena => (.done, arena)
    | .error fault => (.fault fault, arena)
  | .alloc size =>
    match arena.alloc size with
    | .ok (start, arena) => (.address start, arena)
    | .error fault => (.fault fault, arena)

/-- The arena after a run that starts from this one. -/
def after (arena : LocalArena) (calls : List ArenaCall) : LocalArena :=
  calls.foldl (fun arena call => (arena.perform call).2) arena

/-- What the calls of a run are answered with, in order. -/
def answers : LocalArena → List ArenaCall → List ArenaAnswer
  | _, [] => []
  | arena, call :: calls => (arena.perform call).1 :: answers (arena.perform call).2 calls

/-- The range that a call is given. -/
def grant? : ArenaCall → ArenaAnswer → Option Region
  | .alloc size, .address start => some { start, size }
  | _, _ => none

/-- The ranges that the calls of a run are given, in order. -/
def granted : LocalArena → List ArenaCall → List Region
  | _, [] => []
  | arena, call :: calls =>
    (grant? call (arena.perform call).1).toList ++ granted (arena.perform call).2 calls

/-- Allocations of these sizes, made one after the other, all succeed. -/
def Affords (arena : LocalArena) (sizes : List Nat) : Prop :=
  ∀ answer ∈ arena.answers (sizes.map .alloc), ∃ start, answer = .address start

/-- What holds of a fresh arena of this capacity after a run, and however it goes on. -/
structure Lawful (fresh : LocalArena) (capacity : Nat) (calls : List ArenaCall) : Prop where
  /-- The arena neither moves nor grows. -/
  region : (fresh.after calls).region = { start := fresh.base, size := capacity }
  used_le : (fresh.after calls).used ≤ (fresh.after calls).capacity
  /-- What is left is a difference that does not wrap. -/
  remaining : Size.sub (fresh.after calls).capacity (fresh.after calls).used = .ok (fresh.after calls).remaining
  /-- What is used after an allocation is a sum that does not wrap. -/
  sum : ∀ size start next, (fresh.after calls).alloc size = .ok (start, next) →
    Size.add (fresh.after calls).used size = .ok next.used
  resets : ∀ staticSize, ((fresh.after calls).perform (.reset staticSize)).1 = .done ↔ staticSize ≤ capacity
  /-- Allocations after a reset succeed in full exactly if they fit above the static prefix. -/
  affords : ∀ (staticSize : Nat) (sizes : List Nat), staticSize ≤ capacity →
    ((fresh.after (calls ++ [.reset staticSize])).Affords sizes ↔ staticSize + sizes.sum ≤ capacity)
  /-- As far as they fit, each of them starts where the one before it ends. -/
  addresses : ∀ (staticSize : Nat) (sizes : List Nat) (n : Nat), staticSize ≤ capacity → n < sizes.length →
    staticSize + (sizes.take (n + 1)).sum ≤ capacity →
    ((fresh.after (calls ++ [.reset staticSize])).answers (sizes.map .alloc))[n]? =
      some (.address (fresh.base.advance (staticSize + (sizes.take n).sum)))
  /-- What is handed out between a reset and the next one that succeeds lies above the prefix, inside the
  arena. -/
  inside : ∀ (staticSize : Nat) (more : List ArenaCall), staticSize ≤ capacity →
    (∀ larger, .reset larger ∈ more → capacity < larger) →
    ∀ range ∈ (fresh.after (calls ++ [.reset staticSize])).granted more, range.Between fresh.base staticSize capacity
  apart : ∀ (staticSize : Nat) (more : List ArenaCall), staticSize ≤ capacity →
    (∀ larger, .reset larger ∈ more → capacity < larger) →
    ((fresh.after (calls ++ [.reset staticSize])).granted more).Pairwise fun a b => a.overlaps b = false
  /-- A call that faults leaves what is used. -/
  kept : ∀ call fault, ((fresh.after calls).perform call).1 = .fault fault →
    (fresh.after (calls ++ [call])).used = (fresh.after calls).used
  /-- Without such a call the same run goes the same way, and only the answer to that call is missing. -/
  unmade : ∀ call fault later, ((fresh.after calls).perform call).1 = .fault fault →
    fresh.after (calls ++ call :: later) = fresh.after (calls ++ later) ∧
      (fresh.answers (calls ++ call :: later)).eraseIdx calls.length = fresh.answers (calls ++ later)

/-! ## How a call ends -/

/-- All ways in which a call can end, with the arena it leaves. -/
inductive Outcome (arena : LocalArena) : ArenaCall → ArenaAnswer → LocalArena → Prop
  | reset {staticSize} (fits : staticSize ≤ arena.capacity) :
      Outcome arena (.reset staticSize) .done { arena with used := staticSize }
  | tooLarge {staticSize} (exceeds : arena.capacity < staticSize) :
      Outcome arena (.reset staticSize) (.fault (.staticLocalOverflow staticSize arena.capacity)) arena
  | alloc {size} (fits : arena.used + size ≤ arena.capacity) :
      Outcome arena (.alloc size) (.address (arena.base.advance arena.used))
        { arena with used := arena.used + size }
  | overflow {size} (exceeds : arena.capacity < arena.used + size) :
      Outcome arena (.alloc size) (.fault (.arenaOverflow size arena.used arena.capacity)) arena

section Runs
variable {fresh arena next : LocalArena} {call : ArenaCall} {calls : List ArenaCall} {answer : ArenaAnswer}
  {sizes : List Nat} {n size capacity staticSize : Nat} {start : Address} {fault : Fault}

theorem reset_of_fits (h : staticSize ≤ arena.capacity) :
    arena.reset staticSize = .ok { arena with used := staticSize } :=
  if_neg (Nat.not_lt.2 h)

theorem reset_of_exceeds (h : arena.capacity < staticSize) :
    arena.reset staticSize = .error (.staticLocalOverflow staticSize arena.capacity) :=
  if_pos h

/-- An allocation is checked against a difference, which is a check of the sum. -/
theorem alloc_of_fits (h : arena.used + size ≤ arena.capacity) :
    arena.alloc size = .ok (arena.base.advance arena.used, { arena with used := arena.used + size }) := by
  unfold alloc remaining
  rw [if_neg (by omega)]

/-- The difference stands for the sum only as long as no more is used than there is. -/
theorem alloc_of_exceeds (hused : arena.used ≤ arena.capacity) (h : arena.capacity < arena.used + size) :
    arena.alloc size = .error (.arenaOverflow size arena.used arena.capacity) := by
  unfold alloc remaining
  rw [if_pos (by omega)]

theorem reset_eq_ok (h : arena.reset staticSize = .ok next) : next = { arena with used := staticSize } := by
  unfold reset at h
  split at h
  · cases h
  · cases h
    rfl

theorem alloc_eq_ok (h : arena.alloc size = .ok (start, next)) :
    start = arena.base.advance arena.used ∧ next = { arena with used := arena.used + size } := by
  unfold alloc at h
  split at h
  · cases h
  · cases h
    exact ⟨rfl, rfl⟩

theorem outcome_of_perform (h : arena.used ≤ arena.capacity) (hperform : arena.perform call = (answer, next)) :
    arena.Outcome call answer next := by
  cases call with
  | reset staticSize =>
    rcases Nat.lt_or_ge arena.capacity staticSize with hexceeds | hfits
    · rw [perform, reset_of_exceeds hexceeds] at hperform
      obtain ⟨rfl, rfl⟩ := Prod.mk.inj hperform
      exact .tooLarge hexceeds
    · rw [perform, reset_of_fits hfits] at hperform
      obtain ⟨rfl, rfl⟩ := Prod.mk.inj hperform
      exact .reset hfits
  | alloc size =>
    rcases Nat.lt_or_ge arena.capacity (arena.used + size) with hexceeds | hfits
    · rw [perform, alloc_of_exceeds h hexceeds] at hperform
      obtain ⟨rfl, rfl⟩ := Prod.mk.inj hperform
      exact .overflow hexceeds
    · rw [perform, alloc_of_fits hfits] at hperform
      obtain ⟨rfl, rfl⟩ := Prod.mk.inj hperform
      exact .alloc hfits

/-- The arena is the fresh one with other bytes in use, but no more of them than there are. -/
structure Stems (arena fresh : LocalArena) : Prop where
  base : arena.base = fresh.base
  capacity : arena.capacity = fresh.capacity
  used_le : arena.used ≤ arena.capacity

theorem Stems.perform (h : arena.Stems fresh) (call : ArenaCall) : (arena.perform call).2.Stems fresh := by
  cases hperform : arena.perform call with
  | mk answer next =>
  cases outcome_of_perform h.used_le hperform with
  | reset fits => exact { h with used_le := fits }
  | alloc fits => exact { h with used_le := fits }
  | tooLarge | overflow => exact h

theorem Stems.after (h : arena.Stems fresh) (calls : List ArenaCall) : (arena.after calls).Stems fresh := by
  induction calls generalizing arena with
  | nil => exact h
  | cons call calls ih => exact ih (h.perform call)

theorem perform_reset (hfits : staticSize ≤ arena.capacity) :
    arena.perform (.reset staticSize) = (.done, { arena with used := staticSize }) := by
  rw [perform, reset_of_fits hfits]

theorem perform_reset_done_iff (h : arena.used ≤ arena.capacity) :
    (arena.perform (.reset staticSize)).1 = .done ↔ staticSize ≤ arena.capacity := by
  refine ⟨fun hdone => ?_, fun hfits => congrArg Prod.fst (perform_reset hfits)⟩
  cases hperform : arena.perform (.reset staticSize) with
  | mk answer next =>
  rw [hperform] at hdone
  cases outcome_of_perform h hperform with
  | reset fits => exact fits
  | tooLarge => cases hdone

theorem arena_eq_of_fault (h : arena.used ≤ arena.capacity) (hfault : (arena.perform call).1 = .fault fault) :
    (arena.perform call).2 = arena := by
  cases hperform : arena.perform call with
  | mk answer next =>
  rw [hperform] at hfault
  cases outcome_of_perform h hperform with
  | reset | alloc => cases hfault
  | tooLarge | overflow => rfl

/-! ## Allocations one after the other -/

theorem affords_iff (h : arena.used ≤ arena.capacity) :
    arena.Affords sizes ↔ arena.used + sizes.sum ≤ arena.capacity := by
  induction sizes generalizing arena with
  | nil => simpa [Affords, answers] using h
  | cons size sizes ih =>
    have hcons : arena.Affords (size :: sizes) ↔ (∃ start, (arena.perform (.alloc size)).1 = .address start) ∧
        (arena.perform (.alloc size)).2.Affords sizes := by
      simp [Affords, answers]
    rw [hcons, List.sum_cons]
    cases hperform : arena.perform (.alloc size) with
    | mk answer next =>
    cases outcome_of_perform h hperform with
    | alloc fits =>
      have hrest := @ih { arena with used := arena.used + size } fits
      simp only [hrest, Nat.add_assoc, ArenaAnswer.address.injEq, exists_eq', true_and]
    | overflow exceeds =>
      simp only [reduceCtorEq, exists_false, false_and, false_iff]
      omega

theorem getElem?_answers (h : arena.used ≤ arena.capacity) (hn : n < sizes.length)
    (hfits : arena.used + (sizes.take (n + 1)).sum ≤ arena.capacity) :
    (arena.answers (sizes.map .alloc))[n]? =
      some (.address (arena.base.advance (arena.used + (sizes.take n).sum))) := by
  induction sizes generalizing arena n with
  | nil => simp at hn
  | cons size sizes ih =>
    rw [List.take_succ_cons, List.sum_cons] at hfits
    rw [List.map_cons, answers]
    cases hperform : arena.perform (.alloc size) with
    | mk answer next =>
    cases outcome_of_perform h hperform with
    | overflow exceeds => omega
    | alloc fits =>
      cases n with
      | zero => simp
      | succ n =>
        rw [List.getElem?_cons_succ, ih fits (by simpa using hn) (by simpa [Nat.add_assoc] using hfits)]
        simp [Nat.add_assoc]

/-! ## What is handed out between two resets -/

/-- By induction on the calls: what is handed out later lies above all that is in use by then. -/
theorem granted_stacked (h : arena.used ≤ arena.capacity)
    (hresets : ∀ larger, .reset larger ∈ calls → arena.capacity < larger) :
    (∀ range ∈ arena.granted calls, range.Between arena.base arena.used arena.capacity) ∧
      (arena.granted calls).Pairwise fun a b => a.start.offset + a.size ≤ b.start.offset := by
  induction calls generalizing arena with
  | nil => simp [granted]
  | cons call calls ih =>
    have hlater : ∀ larger, .reset larger ∈ calls → arena.capacity < larger :=
      fun larger hlarger => hresets larger (List.mem_cons_of_mem call hlarger)
    rw [granted]
    cases hperform : arena.perform call with
    | mk answer next =>
    cases outcome_of_perform h hperform with
    | reset fits => exact absurd (hresets _ List.mem_cons_self) (Nat.not_lt.2 fits)
    | tooLarge | overflow => exact ih h hlater
    | @alloc size fits =>
      obtain ⟨hbetween, hpairwise⟩ := @ih { arena with used := arena.used + size } fits hlater
      simp only [grant?, Option.toList_some, List.singleton_append]
      constructor
      · intro range hrange
        rcases List.mem_cons.1 hrange with rfl | hrange
        · exact ⟨rfl, Nat.le_refl _, by simp only [Address.advance]; omega⟩
        · have hrest := hbetween range hrange
          exact { hrest with lower := Nat.le_trans (by simp only; omega) hrest.lower }
      · refine List.pairwise_cons.2 ⟨fun range hrange => ?_, hpairwise⟩
        have hlower := (hbetween range hrange).lower
        simp only [Address.advance] at hlower ⊢
        omega

/-! ## Putting runs together -/

theorem after_append (arena : LocalArena) (calls more : List ArenaCall) :
    arena.after (calls ++ more) = (arena.after calls).after more :=
  List.foldl_append

theorem answers_append (arena : LocalArena) (calls more : List ArenaCall) :
    arena.answers (calls ++ more) = arena.answers calls ++ (arena.after calls).answers more := by
  induction calls generalizing arena with
  | nil => rfl
  | cons call calls ih => exact congrArg _ (ih _)

theorem length_answers (arena : LocalArena) (calls : List ArenaCall) :
    (arena.answers calls).length = calls.length := by
  induction calls generalizing arena with
  | nil => rfl
  | cons call calls ih => exact congrArg (· + 1) (ih _)

/-- A reset that succeeds brings the arena to the same state after every run. -/
theorem after_reset (h : (fresh.after calls).Stems fresh) (hfits : staticSize ≤ fresh.capacity) :
    fresh.after (calls ++ [.reset staticSize]) = { fresh with used := staticSize } := by
  have hreset : fresh.after (calls ++ [.reset staticSize]) = ((fresh.after calls).perform (.reset staticSize)).2 :=
    after_append fresh calls [.reset staticSize]
  rw [hreset, perform_reset (h.capacity ▸ hfits), h.base, h.capacity]

theorem create_eq_ok {heap heap' : Heap} (h : create heap capacity = .ok (fresh, heap')) :
    fresh.capacity = capacity ∧ fresh.used = 0 ∧ capacity ≤ heap.blockLimit ∧
      heap'.blockLimit = heap.blockLimit := by
  unfold create Heap.allocate? at h
  by_cases hroom : capacity ≤ heap.blockLimit
  · simp only [if_pos hroom, Except.ok.injEq, Prod.mk.injEq] at h
    obtain ⟨rfl, rfl⟩ := h
    exact ⟨rfl, rfl, hroom, rfl⟩
  · simp [hroom] at h

/-- An arena lies in one block, and the size of a block is one. -/
theorem add_of_alloc {heap : Heap} (hcapacity : arena.capacity ≤ heap.blockLimit) (h : arena.used ≤ arena.capacity)
    (halloc : arena.alloc size = .ok (start, next)) : Size.add arena.used size = .ok next.used := by
  have hperform : arena.perform (.alloc size) = (.address start, next) := by
    simp only [perform, halloc]
  cases outcome_of_perform h hperform with
  | alloc fits =>
    have hlimit := heap.blockLimit.isLt
    rw [Size.add, if_pos (by omega)]

/-- A faulted call can be left out of a run. -/
theorem after_without_fault (h : (fresh.after calls).used ≤ (fresh.after calls).capacity)
    (hfault : ((fresh.after calls).perform call).1 = .fault fault) (later : List ArenaCall) :
    fresh.after (calls ++ call :: later) = fresh.after (calls ++ later) := by
  rw [after_append, after_append]
  exact congrArg (after · later) (arena_eq_of_fault h hfault)

theorem answers_without_fault (h : (fresh.after calls).used ≤ (fresh.after calls).capacity)
    (hfault : ((fresh.after calls).perform call).1 = .fault fault) (later : List ArenaCall) :
    (fresh.answers (calls ++ call :: later)).eraseIdx calls.length = fresh.answers (calls ++ later) := by
  rw [answers_append, answers_append, answers, arena_eq_of_fault h hfault, ← length_answers fresh calls,
    List.eraseIdx_append_of_length_le (Nat.le_refl _), Nat.sub_self, List.eraseIdx_zero, List.tail_cons]

/-- An arena over a block of the heap obeys its law, whatever is asked of it. -/
theorem lawful_after {heap heap' : Heap} (hcreate : create heap capacity = .ok (fresh, heap'))
    (calls : List ArenaCall) : fresh.Lawful capacity calls := by
  obtain ⟨rfl, hunused, hlimit, -⟩ := create_eq_ok hcreate
  have hfresh : fresh.Stems fresh := ⟨rfl, rfl, by omega⟩
  have hstems := hfresh.after calls
  have hused := hstems.used_le
  exact {
    region := by rw [region, hstems.base, hstems.capacity]
    used_le := hused
    remaining := by rw [Size.sub, if_pos hused, remaining]
    sum := fun size start next => add_of_alloc (hstems.capacity ▸ hlimit) hused
    resets := fun staticSize => hstems.capacity ▸ perform_reset_done_iff hused
    affords := fun staticSize sizes hstatic => by
      rw [after_reset hstems hstatic]
      exact affords_iff hstatic
    addresses := fun staticSize sizes n hstatic hn hfits => by
      rw [after_reset hstems hstatic]
      exact @getElem?_answers { fresh with used := staticSize } _ _ hstatic hn hfits
    inside := fun staticSize more hstatic hresets => by
      rw [after_reset hstems hstatic]
      exact (@granted_stacked { fresh with used := staticSize } _ hstatic hresets).1
    apart := fun staticSize more hstatic hresets => by
      rw [after_reset hstems hstatic]
      exact (@granted_stacked { fresh with used := staticSize } _ hstatic hresets).2.imp Region.overlaps_eq_false
    kept := fun call fault hfault => by
      rw [after_append]
      exact congrArg used (arena_eq_of_fault hused hfault)
    unmade := fun call fault later hfault =>
      ⟨after_without_fault hused hfault later, answers_without_fault hused hfault later⟩ }

/-- The first arena of a heap. -/
def smallArena : LocalArena :=
  { base := ⟨0, 0⟩, capacity := 64 }

/-- Two allocations, the second of which overflows, a reset that is too large and one that is not, and an
allocation whose sum with what is in use then would wrap. -/
def crampedRun : List ArenaCall :=
  [.alloc 40, .alloc 30, .reset 65, .reset 8, .alloc (Size.limit - 8), .alloc 16]

/-- After a reset it has room for 40 bytes in three pieces, and for no more than that. -/
theorem lawful_crampedRun : create {} 64 = .ok (smallArena, { blocks := #[Array.replicate 64 0] }) ∧
    smallArena.Lawful 64 crampedRun ∧
    smallArena.answers crampedRun = [.address ⟨0, 0⟩, .fault (.arenaOverflow 30 40 64),
      .fault (.staticLocalOverflow 65 64), .done, .fault (.arenaOverflow (Size.limit - 8) 8 64), .address ⟨0, 8⟩] ∧
    (smallArena.after (crampedRun ++ [.reset 24])).Affords [8, 0, 32] ∧
    ¬ (smallArena.after (crampedRun ++ [.reset 24])).Affords [8, 0, 33] := by
  have hcreate : create {} 64 = .ok (smallArena, { blocks := #[Array.replicate 64 0] }) := rfl
  have hlawful := lawful_after hcreate crampedRun
  refine ⟨hcreate, hlawful, by decide, ?_, fun hover => ?_⟩
  · exact (hlawful.affords 24 [8, 0, 32] (by decide)).2 (by decide)
  · exact absurd ((hlawful.affords 24 [8, 0, 33] (by decide)).1 hover) (by decide)

end Runs

end LocalArena

end ComputeCore
