import ComputeCore.Proofs.Scheduling.Lives
/-!
# The invocations of a life

In one turn of its life a job begins an invocation of its kernel, ends one, or adds nothing to its trace
(`JobLife.adds`). So traces only grow, all invocations have been answered but the one the job is in
(`JobLife.balanced`), and a job is in this one until there is an answer.
-/

namespace ComputeCore

/-- The invocation a job is in, and the arena meanwhile. -/
def JobStage.invocation? : JobStage → Option (LocalArena × Dispatch × Turn)
  | .going arena (.invoking dispatch turn _) => some (arena, dispatch, turn)
  | _ => none

namespace JobLife

/-! ## What a turn adds to the trace -/

/-- One turn makes an invocation, ends one, or adds nothing. -/
inductive Adds (life : JobLife) (n : Nat) : Prop
  | nothing (trace : life.trace (n + 1) = life.trace n)
      (invocation : (life.stage (n + 1)).invocation? = (life.stage n).invocation?)
  | call (call : Call) (outside : (life.stage n).invocation? = none)
      (trace : life.trace (n + 1) = { life.trace n with calls := (life.trace n).calls ++ [call] })
      (inside : (life.stage (n + 1)).invocation?.isSome)
  | answer (answer : Answer) (inside : (life.stage n).invocation?.isSome)
      (trace : life.trace (n + 1) = { life.trace n with answers := (life.trace n).answers ++ [answer] })
      (outside : (life.stage (n + 1)).invocation? = none) (kept : life.left n = life.world n)
      (fails : ∀ status, answer.status? = some status → life.stage (n + 1) = .ended (.exit status))

section Turns
variable {life : JobLife} {n k : Nat}

/-- An invocation that is over asks for nothing any more. -/
theorem left_of_over {arena : LocalArena} {dispatch : Dispatch} {turn : Turn}
    {body : Process (Outcome × Frame)} (hstage : life.stage n = .going arena (.invoking dispatch turn body))
    (hover : ∀ request next, body ≠ .ask request next) : life.left n = life.world n := by
  simp only [left, leave, hstage]
  cases body with
  | ask request next => exact absurd rfl (hover request next)
  | fault fault => rfl
  | done result =>
    simp only [Worker.stepJob, Worker.stepProcess]
    rcases dispatch.accept turn result.1 result.2 with fault | (next | status) <;> rfl

/-- In a turn the job takes a step, or waits or is over. The scheduler never waits. -/
theorem next_or_rests (life : JobLife) (n : Nat) :
    (∃ arena job, life.stage n = .going arena job ∧ JobStage.Next (life.world n) life.command arena
      (life.trace n) job (life.stage (n + 1)) (life.trace (n + 1))) ∨
    (life.stage (n + 1) = life.stage n ∧ life.trace (n + 1) = life.trace n ∧
      ∀ arena dispatch, life.stage n ≠ .going arena (.scheduling dispatch)) := by
  cases hstage : life.stage n with
  | ended | broken =>
    have hover : ∀ arena job, life.stage n ≠ .going arena job := by simp [hstage]
    obtain ⟨hsame, htrace⟩ := next_of_over hover
    exact .inr ⟨hsame.trans hstage, htrace, by simp⟩
  | going arena job =>
    cases hafter : JobStage.after (Worker.stepJob (life.world n) arena life.command job) with
    | some stage =>
      obtain ⟨hnext, htrace⟩ := next_of_step hstage hafter
      refine .inl ⟨arena, job, rfl, ?_⟩
      rw [hnext, htrace]
      exact JobStage.next_of_after _ hafter
    | none =>
      have hblocked := after_eq_none.1 hafter
      obtain ⟨hsame, htrace⟩ := next_of_waits ⟨arena, job, hstage, hblocked⟩
      refine .inr ⟨hsame.trans hstage, htrace, fun arena' dispatch heq => ?_⟩
      cases heq
      simp only [Worker.stepJob] at hblocked
      split at hblocked <;> cases hblocked

theorem adds (life : JobLife) (n : Nat) : life.Adds n := by
  rcases life.next_or_rests n with ⟨arena, job, hstage, hnext⟩ | ⟨hsame, htrace, -⟩
  · generalize hstage' : life.stage (n + 1) = stage at hnext
    generalize htrace : life.trace (n + 1) = trace at hnext
    have hquiet : trace = life.trace n → stage.invocation? = (JobStage.going arena job).invocation? →
        life.Adds n := fun hsame hinvocation =>
      .nothing (htrace.trans hsame) (by rw [hstage', hstage, hinvocation])
    cases hnext with
    | invoke step => exact .call _ (by rw [hstage]; rfl) htrace (by rw [hstage']; rfl)
    | goOn accepted | reject accepted =>
      refine .answer _ (by rw [hstage]; rfl) htrace (by rw [hstage']; rfl)
        (left_of_over hstage (by simp)) fun status hstatus => ?_
      rename_i outcome frame _
      cases outcome with
      | done | barrier => simp [Answer.status?] at hstatus
      | trap => cases accepted
    | trap | panic =>
      refine .answer _ (by rw [hstage]; rfl) htrace (by rw [hstage']; rfl)
        (left_of_over hstage (by simp)) fun status hstatus => ?_
      rw [hstage', ← Option.some.inj hstatus]
    | serve kind finished =>
      refine hquiet rfl ?_
      cases stage with
      | going arena' job => exact absurd rfl (finished arena' job)
      | ended | broken => rfl
    | _ => exact hquiet rfl rfl
  · exact .nothing htrace (by rw [hsame])

/-- All invocations have been answered but the one the job is in. -/
theorem balanced (life : JobLife) (n : Nat) : (life.trace n).calls.length =
    (life.trace n).answers.length + if (life.stage n).invocation?.isSome then 1 else 0 := by
  induction n with
  | zero => rfl
  | succ n ih =>
    cases life.adds n with
    | nothing trace invocation => rw [trace, invocation, ih]
    | call call outside trace inside => simp [trace, inside, ih, outside]
    | answer answer inside trace outside => simp [trace, outside, ih, inside]

/-- The job is in the invocation that has no answer. -/
theorem inside_of_unanswered {m : Nat} (hmade : m < (life.trace n).calls.length)
    (hopen : (life.trace n).answers.length ≤ m) : (life.stage n).invocation?.isSome ∧
      (life.trace n).calls.length = m + 1 ∧ (life.trace n).answers.length = m := by
  have hbalanced := life.balanced n
  by_cases hinside : (life.stage n).invocation?.isSome
  · rw [if_pos hinside] at hbalanced
    exact ⟨hinside, by omega, by omega⟩
  · rw [if_neg hinside] at hbalanced
    omega

theorem exists_of_inside (hinside : (life.stage n).invocation?.isSome) :
    ∃ arena dispatch turn body, life.stage n = .going arena (.invoking dispatch turn body) := by
  match hstage : life.stage n with
  | .ended _ | .broken | .going _ .fresh | .going _ (.native _) | .going _ (.binding ..)
  | .going _ (.scheduling _) => simp [hstage, JobStage.invocation?] at hinside
  | .going arena (.invoking dispatch turn body) => exact ⟨arena, dispatch, turn, body, rfl⟩

theorem calls_mono (hle : n ≤ k) : (life.trace n).calls <+: (life.trace k).calls := by
  induction k, hle using Nat.le_induction with
  | base => exact List.prefix_rfl
  | succ k _ ih =>
    refine ih.trans ?_
    cases life.adds k with
    | nothing trace | answer _ _ trace | call _ _ trace => simp [trace]

theorem answers_mono (hle : n ≤ k) : (life.trace n).answers <+: (life.trace k).answers := by
  induction k, hle using Nat.le_induction with
  | base => exact List.prefix_rfl
  | succ k _ ih =>
    refine ih.trans ?_
    cases life.adds k with
    | nothing trace | answer _ _ trace | call _ _ trace => simp [trace]

end Turns

end JobLife

end ComputeCore
