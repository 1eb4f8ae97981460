/-!
# The global lock

A spin lock is one flag. Taking it is a compare-and-swap that succeeds only from the free state;
whoever fails keeps reading the flag until it looks free and then tries again. Releasing is a plain
store, whoever does it and whatever the state.

`Tally` is the standard use of the lock: threads that each add one to a shared counter a number of
times, reading and writing the counter in separate steps while they hold the lock.
-/

namespace ComputeCore

/-- A lock that is busy-waited for. -/
structure SpinLock where
  locked : Bool := false
  deriving DecidableEq, Inhabited

namespace SpinLock

/-- Takes the lock if it is free; answers whether that worked. -/
def tryAcquire (lock : SpinLock) : Bool × SpinLock :=
  if lock.locked then (false, lock) else (true, { locked := true })

/-- The lock once acquired, none while a caller has to keep spinning. -/
def acquire? (lock : SpinLock) : Option SpinLock :=
  if lock.locked then none else some { locked := true }

/-- Frees the lock. -/
def release (_lock : SpinLock) : SpinLock :=
  { locked := false }

end SpinLock

/-- Where a counting thread is between two steps. -/
inductive TallyStage where
  /-- About to try to take the lock. -/
  | outside
  /-- The lock was taken; about to read it until it looks free. -/
  | spinning
  /-- Holds the lock; about to read the counter. -/
  | reading
  /-- Holds the lock; about to write one more than it read. -/
  | writing (seen : Nat)
  /-- Holds the lock; about to release it. -/
  | releasing
  deriving DecidableEq, Inhabited

/-- A thread that has to add one to the counter `left` times. -/
structure TallyThread where
  stage : TallyStage := .outside
  left : Nat
  deriving DecidableEq, Inhabited

/-- Threads adding to one counter under one lock. -/
structure Tally where
  lock : SpinLock := {}
  counter : Nat := 0
  threads : Array TallyThread
  deriving DecidableEq, Inhabited

namespace Tally

/-- `threads` threads that add one `times` times each. -/
def start (threads times : Nat) : Tally :=
  { threads := Array.replicate threads { left := times } }

/-- One step of one thread, none once it is done. -/
def step? (tally : Tally) (number : Nat) : Option Tally := do
  let thread ← tally.threads[number]?
  let goTo (stage : TallyStage) : Array TallyThread :=
    tally.threads.setIfInBounds number { thread with stage }
  match thread.stage with
  | .outside =>
    if thread.left = 0 then none
    else
      match tally.lock.tryAcquire with
      | (true, lock) => some { tally with lock, threads := goTo .reading }
      | (false, _) => some { tally with threads := goTo .spinning }
  | .spinning =>
    some { tally with threads := goTo (if tally.lock.locked then .spinning else .outside) }
  | .reading => some { tally with threads := goTo (.writing tally.counter) }
  | .writing seen => some { tally with counter := seen + 1, threads := goTo .releasing }
  | .releasing =>
    some { tally with
      lock := tally.lock.release
      threads := tally.threads.setIfInBounds number { stage := .outside, left := thread.left - 1 } }

/-- Lets the threads take turns, one step each, for a number of rounds. -/
def run : Nat → Tally → Tally
  | 0, tally => tally
  | rounds + 1, tally =>
    run rounds ((List.range tally.threads.size).foldl (fun tally number =>
      (tally.step? number).getD tally) tally)

/-- Rounds enough for every thread to finish when they take turns: in each round whoever holds the
lock gets one step further, and a free lock is taken within two rounds. -/
def rounds (tally : Tally) : Nat :=
  tally.threads.toList.foldr (fun thread rounds => 6 * thread.left + rounds) 6

end Tally

end ComputeCore
