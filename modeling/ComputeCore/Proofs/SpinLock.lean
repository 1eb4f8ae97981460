import Mathlib.Algebra.BigOperators.Group.List.Basic
import Mathlib.Logic.Relation
import ComputeCore.Proofs.Sums
import ComputeCore.SpinLock
/-!
# The lock keeps out all but one

`Contest` lets the threads of a tally run among visitors, who try the lock and release it only when they got it.
Every step takes the lock from nobody, gives it back from its holder, or leaves it with whoever has it
(`Step.passage`), so there is never more than one holder, and the counter misses no addition
(`Contest.Reachable.no_update_lost`). Whatever has happened, all threads can still come to their end.
-/

namespace ComputeCore

/-- What a step may do to the lock, and to whether the party whose step it is holds it. -/
inductive SpinLock.Passage : SpinLock → Bool → SpinLock → Bool → Prop
  | stays (lock : SpinLock) (inside : Bool) : Passage lock inside lock inside
  | takes {lock : SpinLock} (free : lock.locked = false) : Passage lock false { locked := true } true
  | frees (lock : SpinLock) : Passage lock true lock.release false

/-- Whoever tries the lock takes it or is left outside. -/
theorem SpinLock.passage_tryAcquire (lock : SpinLock) :
    Passage lock false lock.tryAcquire.2 lock.tryAcquire.1 := by
  cases hlocked : lock.locked with
  | true =>
    simp only [tryAcquire, hlocked, if_true]
    exact .stays lock false
  | false =>
    simp only [tryAcquire, hlocked, Bool.false_eq_true, if_false]
    exact .takes hlocked

/-! ## A counting thread -/

/-- The thread has taken the lock and not yet released it. -/
def TallyStage.inside : TallyStage → Bool
  | .reading | .writing _ | .releasing => true
  | .outside | .spinning => false

/-- How many additions of the thread the counter does not show yet. -/
def TallyThread.owed (thread : TallyThread) : Nat :=
  if thread.stage = .releasing then thread.left - 1 else thread.left

/-- The steps the thread has before it, once nobody is in its way. -/
def TallyThread.toDo (thread : TallyThread) : Nat :=
  match thread.stage with
  | .spinning => 5 * thread.left + 1
  | .outside => 5 * thread.left
  | .reading => 5 * thread.left - 1
  | .writing _ => 5 * thread.left - 2
  | .releasing => 5 * thread.left - 3

namespace Tally

/-- How many additions the counter does not show yet. -/
def owed (tally : Tally) : Nat :=
  (tally.threads.toList.map TallyThread.owed).sum

/-- The tally with another thread in the place of that one. -/
def setThread (tally : Tally) (n : Nat) (thread : TallyThread) : Tally :=
  { tally with threads := tally.threads.setIfInBounds n thread }

/-- One step of a thread, by what it does to the lock and the counter. -/
inductive Turn (tally : Tally) (n : Nat) (thread : TallyThread) : Tally → Prop
  | take (stage : thread.stage = .outside) (due : thread.left ≠ 0) (free : tally.lock.locked = false) :
      Turn tally n thread
        { tally.setThread n { thread with stage := .reading } with lock := { locked := true } }
  /-- It finds the lock held, fails without cause, or goes on spinning. -/
  | idle {stage : TallyStage} (out : thread.stage.inside = false) (out' : stage.inside = false)
      (due : thread.stage = .outside → thread.left ≠ 0) :
      Turn tally n thread (tally.setThread n { thread with stage })
  | read (stage : thread.stage = .reading) :
      Turn tally n thread (tally.setThread n { thread with stage := .writing tally.counter })
  | write {seen : Nat} (stage : thread.stage = .writing seen) :
      Turn tally n thread
        { tally.setThread n { thread with stage := .releasing } with counter := seen + 1 }
  | release (stage : thread.stage = .releasing) :
      Turn tally n thread
        { tally.setThread n { stage := .outside, left := thread.left - 1 } with
          lock := tally.lock.release }

section Turns
variable {tally tally' : Tally} {n : Nat} {thread : TallyThread}

theorem turn (h : tally.step? n = some tally') :
    ∃ thread, tally.threads[n]? = some thread ∧ Turn tally n thread tally' := by
  unfold step? at h
  obtain ⟨thread, hthread, h⟩ := Option.bind_eq_some_iff.1 h
  refine ⟨thread, hthread, ?_⟩
  cases hstage : thread.stage with
  | outside =>
    simp only [hstage, Option.ite_none_left_eq_some] at h
    obtain ⟨hdue, h⟩ := h
    cases hlocked : tally.lock.locked with
    | true =>
      simp only [SpinLock.tryAcquire, hlocked, if_true, Option.some.injEq] at h
      exact h ▸ .idle (by rw [hstage]; rfl) rfl fun _ => hdue
    | false =>
      simp only [SpinLock.tryAcquire, hlocked, Bool.false_eq_true, if_false, Option.some.injEq] at h
      exact h ▸ .take hstage hdue hlocked
  | spinning =>
    simp only [hstage, Option.some.injEq] at h
    refine h ▸ .idle (by rw [hstage]; rfl) ?_ (by simp [hstage])
    split <;> rfl
  | reading =>
    simp only [hstage, Option.some.injEq] at h
    exact h ▸ .read hstage
  | writing seen =>
    simp only [hstage, Option.some.injEq] at h
    exact h ▸ .write hstage
  | releasing =>
    simp only [hstage, Option.some.injEq] at h
    exact h ▸ .release hstage

/-- A compare-and-swap that fails without cause is a step like any other. -/
theorem turn_of_miss (stage : thread.stage = .outside) (due : thread.left ≠ 0) :
    tally.Turn n thread (tally.setThread n { thread with stage := .spinning }) :=
  .idle (by rw [stage]; rfl) rfl fun _ => due

theorem getElem?_setThread (h : tally.threads[n]? = some thread) (new : TallyThread) (m : Nat) :
    (tally.setThread n new).threads[m]? = if m = n then some new else tally.threads[m]? := by
  have hlt := (Array.getElem?_eq_some_iff.1 h).1
  by_cases heq : m = n
  · subst heq
    rw [setThread, if_pos rfl, Array.getElem?_setIfInBounds_self_of_lt hlt]
  · rw [setThread, if_neg heq, Array.getElem?_setIfInBounds_ne (Ne.symm heq)]

theorem Turn.passage (turn : tally.Turn n thread tally') :
    ∃ new, tally'.threads = tally.threads.setIfInBounds n new ∧
      SpinLock.Passage tally.lock thread.stage.inside tally'.lock new.stage.inside := by
  cases turn with
  | take stage due free =>
    rw [stage]
    exact ⟨_, rfl, .takes free⟩
  | idle out out' due =>
    refine ⟨_, rfl, ?_⟩
    rw [out, out']
    exact .stays _ _
  | read stage | write stage =>
    rw [stage]
    exact ⟨_, rfl, .stays _ _⟩
  | release stage =>
    rw [stage]
    exact ⟨_, rfl, .frees _⟩

theorem owed_setThread (h : tally.threads[n]? = some thread) (new : TallyThread) :
    (tally.setThread n new).owed + thread.owed = tally.owed + new.owed := by
  simp only [owed, setThread, Array.toList_setIfInBounds]
  exact sum_map_set TallyThread.owed new (by rwa [Array.getElem?_toList])

end Turns

/-! ## No addition is lost -/

/-- The counter and what it does not show yet make up the goal. -/
structure Accounted (goal : Nat) (tally : Tally) : Prop where
  due : ∀ (n : Nat) (thread : TallyThread), tally.threads[n]? = some thread →
    thread.stage ≠ .outside → thread.left ≠ 0
  /-- What a thread has read of the counter is still so when it writes. -/
  current : ∀ (n : Nat) (thread : TallyThread), tally.threads[n]? = some thread →
    ∀ seen, thread.stage = .writing seen → seen = tally.counter
  balance : tally.counter + tally.owed = goal

section Accounts
variable {goal : Nat} {tally tally' : Tally} {n : Nat} {thread new : TallyThread}

theorem Accounted.set (h : tally.Accounted goal) (here : tally.threads[n]? = some thread)
    (threads' : tally'.threads = (tally.setThread n new).threads)
    (due : new.stage ≠ .outside → new.left ≠ 0)
    (current : ∀ seen, new.stage = .writing seen → seen = tally'.counter)
    (others : ∀ m other seen, m ≠ n → tally.threads[m]? = some other → other.stage = .writing seen →
      tally'.counter = tally.counter)
    (balance : tally'.counter + new.owed = tally.counter + thread.owed) : tally'.Accounted goal := by
  have hthreads : ∀ m, tally'.threads[m]? = if m = n then some new else tally.threads[m]? :=
    fun m => threads' ▸ getElem?_setThread here new m
  refine ⟨fun m other hm => ?_, fun m other hm seen hseen => ?_, ?_⟩
  · rw [hthreads] at hm
    split at hm
    · exact Option.some_inj.1 hm ▸ due
    · exact h.due m other hm
  · rw [hthreads] at hm
    split at hm
    · exact current seen (Option.some_inj.1 hm ▸ hseen)
    · next hne => rw [h.current m other hm seen hseen, others m other seen hne hm hseen]
  · have howed : tally'.owed + thread.owed = tally.owed + new.owed := by
      rw [← owed_setThread here new, owed, owed, threads']
    have := h.balance
    omega

/-- A step of a thread keeps the accounts, if no other thread is inside while it is. -/
theorem Accounted.turn (h : tally.Accounted goal) (here : tally.threads[n]? = some thread)
    (alone : thread.stage.inside = true → ∀ m other, tally.threads[m]? = some other →
      other.stage.inside = true → m = n)
    (turn : tally.Turn n thread tally') : tally'.Accounted goal := by
  cases turn with
  | take stage due free =>
    exact h.set here rfl (fun _ => due) nofun (fun _ _ _ _ _ _ => rfl) (by simp [setThread, TallyThread.owed, stage])
  | @idle stage out out' due =>
    have hdue : thread.left ≠ 0 := by
      by_cases hstage : thread.stage = .outside
      · exact due hstage
      · exact h.due n thread here hstage
    refine h.set here rfl (fun _ => hdue) (fun seen hseen => ?_) (fun _ _ _ _ _ _ => rfl) ?_
    · rw [show stage = .writing seen from hseen] at out'
      cases out'
    · have hout : ∀ stage : TallyStage, stage.inside = false → stage ≠ .releasing := by
        rintro _ hinside rfl
        cases hinside
      simp [setThread, TallyThread.owed, hout _ out, hout _ out']
  | read stage =>
    have hdue := h.due n thread here (by simp [stage])
    refine h.set here rfl (fun _ => hdue) (fun seen hseen => ?_) (fun _ _ _ _ _ _ => rfl) ?_
    · exact (TallyStage.writing.inj hseen).symm
    · simp [setThread, TallyThread.owed, stage]
  | @write seen stage =>
    have hdue := h.due n thread here (by simp [stage])
    have hcurrent := h.current n thread here seen stage
    refine h.set here rfl (fun _ => hdue) nofun (fun m other seen' hne hm hseen' => ?_) ?_
    · -- Nobody else is about to write: it would be inside, too.
      exact absurd (alone (by rw [stage]; rfl) m other hm (by rw [hseen']; rfl)) hne
    · simp only [TallyThread.owed, stage, if_true, reduceCtorEq, if_false]
      omega
  | release stage =>
    exact h.set here rfl (fun hout => absurd rfl hout) nofun (fun _ _ _ _ _ _ => rfl)
      (by simp [setThread, TallyThread.owed, stage])

/-- The lock does not matter for the accounts. -/
theorem Accounted.setLock (h : tally.Accounted goal) (lock : SpinLock) :
    Accounted goal { tally with lock } :=
  ⟨h.due, h.current, h.balance⟩

theorem accounted_start (threads times : Nat) : (start threads times).Accounted (threads * times) where
  due n thread hthread hout := by
    simp only [start, Array.getElem?_replicate, Option.ite_none_right_eq_some, Option.some.injEq] at hthread
    exact absurd (hthread.2 ▸ rfl) hout
  current n thread hthread seen hseen := by
    simp only [start, Array.getElem?_replicate, Option.ite_none_right_eq_some, Option.some.injEq] at hthread
    rw [← hthread.2] at hseen
    cases hseen
  balance := by simp [start, owed, TallyThread.owed]

theorem Accounted.owed_eq_zero (hdone : ∀ thread ∈ tally.threads, thread.left = 0) : tally.owed = 0 := by
  refine List.sum_eq_zero fun owed howed => ?_
  obtain ⟨thread, hthread, rfl⟩ := List.mem_map.1 howed
  have hleft := hdone thread (by simpa using hthread)
  simp [TallyThread.owed, hleft]

end Accounts

end Tally

/-! ## Threads and visitors -/

/-- A tally among visitors, of whom each one holds the lock or does not. A thread that counts and also
tries the lock in between is one of each. -/
structure Contest where
  tally : Tally
  visitors : List Bool
  deriving Inhabited

/-- Somebody who may take the lock. -/
inductive Party where
  | adder (n : Nat)
  | visitor (n : Nat)
  deriving DecidableEq

namespace Contest

/-- The party has taken the lock and not yet released it. -/
def Holds (contest : Contest) : Party → Prop
  | .adder n => ∃ thread, contest.tally.threads[n]? = some thread ∧ thread.stage.inside = true
  | .visitor n => contest.visitors[n]? = some true

/-- Everybody has done all that they came for. -/
def Done (contest : Contest) : Prop :=
  (∀ thread ∈ contest.tally.threads, thread.stage = .outside ∧ thread.left = 0) ∧
    ∀ inside ∈ contest.visitors, inside = false

/-- Before the first step. -/
def start (threads times visitors : Nat) : Contest :=
  { tally := .start threads times, visitors := List.replicate visitors false }

/-- One step of one of the parties. -/
inductive Step (contest : Contest) : Contest → Prop
  | count {n : Nat} {tally : Tally} (step : contest.tally.step? n = some tally) :
      Step contest { contest with tally }
  /-- The compare-and-swap of a counting thread may fail even if the lock is free. -/
  | miss {n : Nat} {thread : TallyThread} (here : contest.tally.threads[n]? = some thread)
      (stage : thread.stage = .outside) (due : thread.left ≠ 0) :
      Step contest { contest with
        tally := contest.tally.setThread n { thread with stage := .spinning } }
  | visit {n : Nat} (here : contest.visitors[n]? = some false) :
      Step contest {
        tally := { contest.tally with lock := contest.tally.lock.tryAcquire.2 }
        visitors := contest.visitors.set n contest.tally.lock.tryAcquire.1 }
  | leave {n : Nat} (here : contest.visitors[n]? = some true) :
      Step contest {
        tally := { contest.tally with lock := contest.tally.lock.release }
        visitors := contest.visitors.set n false }

/-- What threads that add `times` times each, and visitors, can come to. -/
inductive Reachable (threads times visitors : Nat) : Contest → Prop
  | start : Reachable threads times visitors (start threads times visitors)
  | step {contest contest' : Contest} : Reachable threads times visitors contest →
      Step contest contest' → Reachable threads times visitors contest'

section Steps
variable {contest contest' : Contest} {n : Nat} {thread new : TallyThread}

/-- A step of a counting thread is seen in no other party. -/
theorem holds_of_thread {tally : Tally} {new : TallyThread} (h : contest.tally.threads[n]? = some thread)
    (threads' : tally.threads = contest.tally.threads.setIfInBounds n new) :
    (contest.Holds (.adder n) ↔ thread.stage.inside = true) ∧
      (Holds { contest with tally } (.adder n) ↔ new.stage.inside = true) ∧
      ∀ other, other ≠ .adder n → (Holds { contest with tally } other ↔ contest.Holds other) := by
  have hthreads : ∀ m, tally.threads[m]? = if m = n then some new else contest.tally.threads[m]? :=
    fun m => threads' ▸ Tally.getElem?_setThread h new m
  refine ⟨by simp [Holds, h], by simp [Holds, hthreads], fun other hother => ?_⟩
  cases other with
  | adder m =>
    have hne : m ≠ n := fun heq => hother (heq ▸ rfl)
    simp [Holds, hthreads, hne]
  | visitor m => exact Iff.rfl

theorem holds_of_visitor {inside inside' : Bool} {lock : SpinLock} (h : contest.visitors[n]? = some inside) :
    let contest' : Contest :=
      { tally := { contest.tally with lock }, visitors := contest.visitors.set n inside' }
    (contest.Holds (.visitor n) ↔ inside = true) ∧ (contest'.Holds (.visitor n) ↔ inside' = true) ∧
      ∀ other, other ≠ .visitor n → (contest'.Holds other ↔ contest.Holds other) := by
  have hlt := (List.getElem?_eq_some_iff.1 h).1
  refine ⟨by simp [Holds, h], by simp [Holds, hlt], fun other hother => ?_⟩
  cases other with
  | adder m => exact Iff.rfl
  | visitor m =>
    have hne : n ≠ m := fun heq => hother (heq ▸ rfl)
    simp only [Holds, List.getElem?_set_ne hne]

/-- Every step is a step of one party, and leaves all others where they are. -/
theorem Step.passage (h : Step contest contest') : ∃ party inside inside',
    ((contest.Holds party ↔ inside = true) ∧ (contest'.Holds party ↔ inside' = true) ∧
      ∀ other, other ≠ party → (contest'.Holds other ↔ contest.Holds other)) ∧
    SpinLock.Passage contest.tally.lock inside contest'.tally.lock inside' := by
  cases h with
  | count step =>
    obtain ⟨thread, hthread, turn⟩ := Tally.turn step
    obtain ⟨new, hnew, hpassage⟩ := turn.passage
    exact ⟨_, _, _, holds_of_thread hthread hnew, hpassage⟩
  | miss here stage due =>
    obtain ⟨new, hnew, hpassage⟩ := (Tally.turn_of_miss stage due).passage
    exact ⟨_, _, _, holds_of_thread here hnew, hpassage⟩
  | visit here =>
    exact ⟨_, _, _, holds_of_visitor here, contest.tally.lock.passage_tryAcquire⟩
  | leave here => exact ⟨_, _, _, holds_of_visitor here, .frees _⟩

/-! ## Nobody but the holder -/

/-- At most one party holds the lock, and it is locked while one does. -/
structure Guarded (contest : Contest) : Prop where
  exclusive : ∀ party other, contest.Holds party → contest.Holds other → party = other
  locked : contest.tally.lock.locked = true ↔ ∃ party, contest.Holds party

theorem Guarded.free (h : contest.Guarded) (hfree : contest.tally.lock.locked = false) (party : Party) :
    ¬ contest.Holds party := fun hholds => by
  have hlocked := h.locked.2 ⟨party, hholds⟩
  rw [hfree] at hlocked
  cases hlocked

theorem Guarded.step (h : contest.Guarded) (hstep : Step contest contest') : contest'.Guarded := by
  obtain ⟨party, inside, inside', ⟨hbefore, hafter, hothers⟩, hpassage⟩ := hstep.passage
  generalize hlock : contest.tally.lock = lock at hpassage
  generalize hlock' : contest'.tally.lock = lock' at hpassage
  cases hpassage with
  | stays =>
    have hsame : ∀ other, contest'.Holds other ↔ contest.Holds other := fun other => by
      by_cases hother : other = party
      · rw [hother, hafter, hbefore]
      · exact hothers other hother
    refine ⟨fun a b => ?_, ?_⟩
    · rw [hsame, hsame]
      exact h.exclusive a b
    · simp only [hlock', ← hlock, h.locked, hsame]
  | takes free =>
    have hnone := h.free (hlock ▸ free)
    have hone : ∀ other, contest'.Holds other ↔ other = party := fun other => by
      by_cases hother : other = party
      · simp [hother, hafter]
      · simp [hother, hothers other hother, hnone]
    exact ⟨fun a b ha hb => ((hone a).1 ha).trans ((hone b).1 hb).symm,
      by simp [hlock', hone]⟩
  | frees =>
    have hnone : ∀ other, ¬ contest'.Holds other := fun other hholds => by
      by_cases hother : other = party
      · simp [hother, hafter] at hholds
      · exact hother (h.exclusive other party ((hothers other hother).1 hholds) (hbefore.2 rfl))
    exact ⟨fun a _ ha => absurd ha (hnone a), by simp [hlock', hnone, SpinLock.release]⟩

/-- What is true at every moment. -/
structure Sound (goal : Nat) (contest : Contest) : Prop extends contest.Guarded where
  accounted : contest.tally.Accounted goal

theorem Sound.alone {goal : Nat} (h : contest.Sound goal) (here : contest.tally.threads[n]? = some thread)
    (hinside : thread.stage.inside = true) (m : Nat) (other : TallyThread)
    (hother : contest.tally.threads[m]? = some other) (hinside' : other.stage.inside = true) : m = n := by
  have hsame := h.exclusive (.adder m) (.adder n) ⟨other, hother, hinside'⟩ ⟨thread, here, hinside⟩
  exact Party.adder.inj hsame

theorem Sound.step {goal : Nat} (h : contest.Sound goal) (hstep : Step contest contest') :
    contest'.Sound goal := by
  refine { h.toGuarded.step hstep with accounted := ?_ }
  cases hstep with
  | count step =>
    obtain ⟨thread, here, turn⟩ := Tally.turn step
    exact h.accounted.turn here (h.alone here) turn
  | miss here stage due => exact h.accounted.turn here (h.alone here) (Tally.turn_of_miss stage due)
  | visit here | leave here => exact h.accounted.setLock _

theorem sound_start (threads times visitors : Nat) :
    (start threads times visitors).Sound (threads * times) := by
  have hnone : ∀ party, ¬ (start threads times visitors).Holds party := by
    rintro (n | n) hholds
    · obtain ⟨thread, hthread, hinside⟩ := hholds
      simp only [start, Tally.start, Array.getElem?_replicate, Option.ite_none_right_eq_some,
        Option.some.injEq] at hthread
      rw [← hthread.2] at hinside
      cases hinside
    · simp [Holds, start, List.getElem?_replicate] at hholds
  exact {
    exclusive := fun party _ hholds => absurd hholds (hnone party)
    locked := ⟨nofun, fun ⟨party, hholds⟩ => absurd hholds (hnone party)⟩
    accounted := Tally.accounted_start threads times }

/-! ## Coming to the end -/

/-- The steps that are left until everybody is done, if no thread has to spin from now on. -/
def toDo (contest : Contest) : Nat :=
  (contest.tally.threads.toList.map TallyThread.toDo).sum + contest.visitors.count true

theorem exists_count {tally : Tally} (here : contest.tally.threads[n]? = some thread)
    (hstep : contest.tally.step? n = some tally)
    (threads' : tally.threads = contest.tally.threads.setIfInBounds n new) (hless : new.toDo < thread.toDo) :
    ∃ contest', Step contest contest' ∧ contest'.toDo < contest.toDo := by
  refine ⟨_, .count hstep, ?_⟩
  have hsum := sum_map_set TallyThread.toDo new (by rwa [← Array.getElem?_toList] at here)
  simp only [toDo, threads', Array.toList_setIfInBounds]
  omega

/-- Whoever holds the lock can go on. -/
theorem exists_step_of_holds {party : Party} (hholds : contest.Holds party)
    (hdue : ∀ (n : Nat) (thread : TallyThread), contest.tally.threads[n]? = some thread →
      thread.stage ≠ .outside → thread.left ≠ 0) :
    ∃ contest', Step contest contest' ∧ contest'.toDo < contest.toDo := by
  cases party with
  | adder n =>
    obtain ⟨⟨stage, left⟩, here, hinside⟩ := hholds
    have hleft : left ≠ 0 := hdue n _ here fun hout => by
      rw [show stage = .outside from hout] at hinside
      cases hinside
    cases stage with
    | outside | spinning => cases hinside
    | reading | writing seen | releasing =>
      refine exists_count here (by rw [Tally.step?, here]; rfl) rfl ?_
      simp only [TallyThread.toDo]
      omega
  | visitor n =>
    refine ⟨_, .leave hholds, ?_⟩
    obtain ⟨hlt, hget⟩ := List.getElem?_eq_some_iff.1 hholds
    have hpos : 0 < contest.visitors.count true := List.count_pos_iff.2 (hget ▸ List.getElem_mem hlt)
    have hcount : (contest.visitors.set n false).count true = contest.visitors.count true - 1 := by
      simp [List.count_set hlt, hget]
    simp only [toDo, hcount]
    omega

/-- A thread that has something left to do can go on once the lock is free. -/
theorem exists_step_of_free (hfree : contest.tally.lock.locked = false)
    (here : contest.tally.threads[n]? = some thread) (hout : thread.stage.inside = false)
    (hleft : thread.left ≠ 0) : ∃ contest', Step contest contest' ∧ contest'.toDo < contest.toDo := by
  obtain ⟨stage, left⟩ := thread
  have hleft : left ≠ 0 := hleft
  cases stage with
  | outside =>
    have hstep : contest.tally.step? n = some { contest.tally with
        lock := { locked := true }
        threads := contest.tally.threads.setIfInBounds n { stage := .reading, left } } := by
      simp [Tally.step?, here, hleft, SpinLock.tryAcquire, hfree]
    refine exists_count here hstep rfl ?_
    simp only [TallyThread.toDo]
    omega
  | spinning =>
    have hstep : contest.tally.step? n = some { contest.tally with
        threads := contest.tally.threads.setIfInBounds n { stage := .outside, left } } := by
      simp [Tally.step?, here, hfree]
    refine exists_count here hstep rfl ?_
    simp only [TallyThread.toDo]
    omega
  | reading | writing | releasing => cases hout

/-- As long as somebody has something left to do, somebody can go on. -/
theorem Sound.exists_step {goal : Nat} (h : contest.Sound goal) (hdone : ¬ contest.Done) :
    ∃ contest', Step contest contest' ∧ contest'.toDo < contest.toDo := by
  by_cases hholds : ∃ party, contest.Holds party
  · obtain ⟨party, hholds⟩ := hholds
    exact exists_step_of_holds hholds h.accounted.due
  · have hfree : contest.tally.lock.locked = false := by
      rw [← Bool.not_eq_true, h.locked]
      exact hholds
    have hvisitors : ∀ inside ∈ contest.visitors, inside = false := fun inside hinside => by
      obtain ⟨n, hn⟩ := List.mem_iff_getElem?.1 hinside
      cases inside with
      | false => rfl
      | true => exact absurd ⟨.visitor n, hn⟩ hholds
    by_contra hstuck
    refine hdone ⟨fun thread hthread => ?_, hvisitors⟩
    obtain ⟨n, here⟩ := Array.mem_iff_getElem?.1 hthread
    have hout : thread.stage.inside = false := by
      rw [← Bool.not_eq_true]
      exact fun hinside => hholds ⟨.adder n, thread, here, hinside⟩
    have hleft : thread.left = 0 := by
      by_contra hleft
      exact hstuck (exists_step_of_free hfree here hout hleft)
    refine ⟨?_, hleft⟩
    by_contra hstage
    exact h.accounted.due n thread here hstage hleft

/-- Everybody can come to their end. By induction on what is left to do. -/
theorem Sound.can_finish {goal : Nat} (h : contest.Sound goal) :
    ∃ contest', Relation.ReflTransGen Step contest contest' ∧ contest'.Done := by
  induction htodo : contest.toDo using Nat.strongRecOn generalizing contest with
  | ind todo ih =>
    by_cases hdone : contest.Done
    · exact ⟨contest, .refl, hdone⟩
    · obtain ⟨contest', hstep, hless⟩ := h.exists_step hdone
      obtain ⟨last, hrun, hlast⟩ := ih _ (htodo ▸ hless) (h.step hstep) rfl
      exact ⟨last, .head hstep hrun, hlast⟩

end Steps

section Runs
variable {threads times visitors : Nat} {contest : Contest}

theorem Reachable.sound (h : Reachable threads times visitors contest) :
    contest.Sound (threads * times) := by
  induction h with
  | start => exact sound_start threads times visitors
  | step _ hstep ih => exact ih.step hstep

/-- Threads that take turns, in whatever order, are one way to run. -/
theorem reachable_foldl (order : List Nat) : ∀ {tally : Tally},
    Reachable threads times 0 { tally, visitors := [] } →
    Reachable threads times 0
      { tally := order.foldl (fun tally n => (tally.step? n).getD tally) tally, visitors := [] } := by
  induction order with
  | nil => exact fun h => h
  | cons n order ih =>
    intro tally h
    cases hstep : tally.step? n with
    | none => exact ih (by simpa only [hstep, Option.getD_none] using h)
    | some tally' => exact ih (by simpa only [hstep, Option.getD_some] using h.step (.count hstep))

theorem reachable_run (threads times rounds : Nat) :
    Reachable threads times 0 { tally := Tally.run rounds (.start threads times), visitors := [] } := by
  have hrun : ∀ rounds tally, Reachable threads times 0 { tally, visitors := [] } →
      Reachable threads times 0 { tally := Tally.run rounds tally, visitors := [] } := by
    intro rounds
    induction rounds with
    | zero => exact fun _ h => h
    | succ rounds ih => exact fun tally h => ih _ (reachable_foldl _ h)
  exact hrun rounds _ .start

/-- However the threads and the visitors take their steps, never more than one of them is between taking the
lock and releasing it, and the lock shows whether one is. Everybody can still come to their end, and when all
have, the counter shows every addition and the lock is free. -/
theorem Reachable.no_update_lost (h : Reachable threads times visitors contest) :
    (∀ party other, contest.Holds party → contest.Holds other → party = other) ∧
    (contest.tally.lock.locked = true ↔ ∃ party, contest.Holds party) ∧
    (contest.Done → contest.tally.counter = threads * times ∧ contest.tally.lock.locked = false) ∧
    ∃ contest', Relation.ReflTransGen Step contest contest' ∧ contest'.Done := by
  refine ⟨h.sound.exclusive, h.sound.locked, fun hdone => ?_, h.sound.can_finish⟩
  have hbalance := h.sound.accounted.balance
  rw [Tally.Accounted.owed_eq_zero fun thread hthread => (hdone.1 thread hthread).2] at hbalance
  refine ⟨hbalance, ?_⟩
  rw [← Bool.not_eq_true, h.sound.locked]
  rintro ⟨n | n, hholds⟩
  · obtain ⟨thread, here, hinside⟩ := hholds
    rw [(hdone.1 thread (Array.mem_of_getElem? here)).1] at hinside
    cases hinside
  · cases hdone.2 true (List.mem_of_getElem? hholds)

/-- Two threads and a visitor, who is let in once and once finds the lock held. -/
theorem no_update_lost_two : ∃ contest, Reachable 2 1 1 contest ∧ contest.Done ∧
    contest.tally.counter = 2 ∧ contest.tally.lock.locked = false := by
  have hwaiting : Reachable 2 1 1
      { tally := { threads := #[{ stage := .spinning, left := 1 }, { left := 1 }] }, visitors := [false] } :=
    Reachable.start.step (.visit (n := 0) rfl) |>.step (.count (n := 0) rfl) |>.step (.leave (n := 0) rfl)
  have hwriting : Reachable 2 1 1
      { tally := {
          lock := { locked := true }
          threads := #[{ stage := .spinning, left := 1 }, { stage := .writing 0, left := 1 }] }
        visitors := [false] } :=
    hwaiting.step (.count (n := 1) rfl) |>.step (.count (n := 1) rfl)
      |>.step (.count (n := 0) rfl) |>.step (.visit (n := 0) rfl)
  have hended : Reachable 2 1 1
      { tally := { counter := 2, threads := #[{ left := 0 }, { left := 0 }] }, visitors := [false] } :=
    hwriting.step (.count (n := 1) rfl) |>.step (.count (n := 1) rfl) |>.step (.count (n := 0) rfl)
      |>.step (.count (n := 0) rfl) |>.step (.count (n := 0) rfl) |>.step (.count (n := 0) rfl)
      |>.step (.count (n := 0) rfl)
  have hdone : Done
      { tally := { counter := 2, threads := #[{ left := 0 }, { left := 0 }] }, visitors := [false] } :=
    ⟨by simp, by simp⟩
  obtain ⟨hcounter, hfree⟩ := hended.no_update_lost.2.2.1 hdone
  exact ⟨_, hended, hdone, hcounter, hfree⟩

end Runs

end Contest

end ComputeCore
