import Mathlib.Data.List.Infix
import Mathlib.Data.Nat.Find
import ComputeCore.Proofs.Scheduling.Aftermath
import ComputeCore.Proofs.Scheduling.Lockstep
/-!
# Where a failure cuts a dispatch off

A work-item that traps or panics ends its dispatch there. To say where, two lives are compared: in one of
them the dispatch goes on, in the other one the kernel does the same up to an invocation that fails.
`JobLife.CutsOff` tells the second life from the first, and `Site.Concluded` what its worker does from then
on.
-/

namespace ComputeCore

namespace JobLife

/-! ## A failing invocation -/

section Pairs
variable {life other : JobLife} {range : NDRange} {kernel : Kernel} {m : Nat} {answer : Answer}
  {status : Status}

/-- The turn before which the first life has made invocation `m`, and up to which the two agree. -/
theorem Twins.reaches (htwins : life.Twins other range kernel) (hfollows : other.Follows life m)
    (hreaches : ∃ n, m < (life.trace n).calls.length) :
    ∃ begun, m < (life.trace begun).calls.length ∧ (∀ n < begun, (life.trace n).calls.length ≤ m) ∧
      ∀ n ≤ begun, life.InStep other range.kernel kernel n := by
  have hbefore : ∀ n < Nat.find hreaches, (life.trace n).calls.length ≤ m := fun n hn =>
    Nat.le_of_not_lt (Nat.find_min hreaches hn)
  exact ⟨_, Nat.find_spec hreaches, hbefore, fun n hn =>
    htwins.inStep hfollows fun k hk => hbefore k (by omega)⟩

/-- If the first life makes invocation `m`, so does the other one, and it comes to its end there. -/
theorem Twins.answered (htwins : life.Twins other range kernel) (hfollows : other.Follows life m)
    (hreaches : ∃ n, m < (life.trace n).calls.length) (hunblocked : other.Unblocked) :
    ∃ n, m < (other.trace n).answers.length := by
  obtain ⟨begun, hmade, -, hsame⟩ := htwins.reaches hfollows hreaches
  rw [← (hsame begun (Nat.le_refl _)).trace] at hmade
  by_cases hanswered : m < (other.trace begun).answers.length
  · exact ⟨begun, hanswered⟩
  · obtain ⟨hinside, -, hlength⟩ := inside_of_unanswered hmade (Nat.le_of_not_lt hanswered)
    obtain ⟨arena, dispatch, turn, body, hstage⟩ := exists_of_inside hinside
    obtain ⟨done, last, -, hdone, htrace, hnone⟩ := hunblocked.answers body begun hstage
    obtain ⟨n, -, hn, htrace', stage, hafter⟩ := hunblocked.steps hdone
    have hnext := (next_of_step hn hafter).2
    refine ⟨n + 1, ?_⟩
    rw [hnext, htrace', htrace]
    cases last with
    | ask request next => exact absurd rfl (hnone request next)
    | done result | fault fault => simp [Trace.record, hlength]

end Pairs

/-! ## An argument that is not mapped -/

end JobLife

end ComputeCore
