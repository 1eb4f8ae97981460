import ComputeCore.Proofs.Scheduling.Barriers
import ComputeCore.Proofs.Scheduling.Thread
/-!
# Lives of a job

A life of a job is one endless sequence of turns. In each turn the job takes its next step, in the
shared state that the other threads have left it by then, or waits, or is over. Where a `JobRun` is
one of the ways in which a job may come to a stage, a life has a next turn at every stage, and so
tells what the job does come to.

Every stage of a life is the end of a run (`JobLife.run`). A job whose waits all end always has
another step ahead of it (`JobLife.Unblocked.steps`), and so comes to the end of every invocation of its
kernel (`JobLife.Unblocked.answers`).
-/

namespace ComputeCore

/-- A command, the arena of the worker that carries it out, and the shared state at each turn. -/
structure JobLife where
  command : Command
  arena : LocalArena
  world : Nat → Shared

namespace JobLife

/-- One turn of a job. -/
def turn (command : Command) (shared : Shared) : JobStage × Trace → JobStage × Trace
  | (.going arena job, trace) =>
    match JobStage.after (Worker.stepJob shared arena command job) with
    | some stage => (stage, trace.record arena job)
    | none => (.going arena job, trace)
  | ended => ended

/-- The stage and the trace of a life before its turn `n`. -/
def state (life : JobLife) : Nat → JobStage × Trace
  | 0 => (.going life.arena .fresh, {})
  | n + 1 => turn life.command (life.world n) (life.state n)

def stage (life : JobLife) (n : Nat) : JobStage :=
  (life.state n).1

def trace (life : JobLife) (n : Nat) : Trace :=
  (life.state n).2

/-- In turn `n` the job has to wait. -/
def Waits (life : JobLife) (n : Nat) : Prop :=
  ∃ arena job, life.stage n = .going arena job ∧
    Worker.stepJob (life.world n) arena life.command job = .blocked

/-- The shared state a turn leaves to the other threads. -/
def leave (command : Command) (shared : Shared) : JobStage → Shared
  | .going arena job => (Worker.stepJob shared arena command job).shared?.getD shared
  | _ => shared

def left (life : JobLife) (n : Nat) : Shared :=
  leave life.command (life.world n) (life.stage n)

/-- The arguments are mapped when they are looked up, and no wait goes on forever. -/
structure Served (life : JobLife) : Prop where
  resolving : ∀ n arena job, life.stage n = .going arena job → Resolving job (life.world n)
  unblocked : ∀ n, ∃ m, n ≤ m ∧ ¬ life.Waits m

/-- No wait goes on forever. -/
def Unblocked (life : JobLife) : Prop :=
  ∀ n, ∃ m, n ≤ m ∧ ¬ life.Waits m

section Turns
variable {life : JobLife} {n : Nat} {arena : LocalArena} {job : Job}

/-! ## One turn -/

theorem after_eq_none {outcome : Worker.JobStep} :
    JobStage.after outcome = none ↔ outcome = .blocked := by
  cases outcome <;> simp [JobStage.after]

theorem next_of_step {stage : JobStage} (hgoing : life.stage n = .going arena job)
    (hstep : JobStage.after (Worker.stepJob (life.world n) arena life.command job) = some stage) :
    life.stage (n + 1) = stage ∧ life.trace (n + 1) = (life.trace n).record arena job := by
  have hstate : life.state n = (.going arena job, life.trace n) := Prod.ext hgoing rfl
  have hnext : life.state (n + 1) = (stage, (life.trace n).record arena job) := by
    rw [state, hstate]
    simp only [turn, hstep]
  exact ⟨congrArg Prod.fst hnext, congrArg Prod.snd hnext⟩

theorem next_of_waits (hwaits : life.Waits n) :
    life.stage (n + 1) = life.stage n ∧ life.trace (n + 1) = life.trace n := by
  obtain ⟨arena, job, hgoing, hblocked⟩ := hwaits
  have hstate : life.state n = (.going arena job, life.trace n) := Prod.ext hgoing rfl
  have hnext : life.state (n + 1) = life.state n := by
    rw [state, hstate]
    simp only [turn, hblocked, JobStage.after]
  exact ⟨congrArg Prod.fst hnext, congrArg Prod.snd hnext⟩

theorem next_of_over (hover : ∀ arena job, life.stage n ≠ .going arena job) :
    life.stage (n + 1) = life.stage n ∧ life.trace (n + 1) = life.trace n := by
  have hstate : life.state (n + 1) = life.state n := by
    rw [state]
    unfold turn
    split
    · rename_i arena job trace heq
      exact absurd (congrArg Prod.fst heq) (hover arena job)
    · rfl
  exact ⟨congrArg Prod.fst hstate, congrArg Prod.snd hstate⟩

/-- A job that is over stays so. -/
theorem stays_over (hover : ∀ arena job, life.stage n ≠ .going arena job) {k : Nat} (hle : n ≤ k) :
    life.stage k = life.stage n ∧ life.trace k = life.trace n := by
  induction k, hle using Nat.le_induction with
  | base => exact ⟨rfl, rfl⟩
  | succ k _ ih =>
    obtain ⟨hsame, htrace⟩ := next_of_over (n := k) (ih.1.symm ▸ hover)
    exact ⟨hsame.trans ih.1, htrace.trans ih.2⟩

/-- Every stage of a life is the end of a run. By induction on the turns: those that are waits, or
come after the end, change nothing. -/
theorem run {world : Job → Shared → Prop}
    (hworld : ∀ n arena job, life.stage n = .going arena job → world job (life.world n)) (n : Nat) :
    JobRun world life.command life.arena (life.stage n) (life.trace n) := by
  induction n with
  | zero => exact .begun
  | succ n ih =>
    cases hstage : life.stage n with
    | ended | broken =>
      have hover : ∀ arena job, life.stage n ≠ .going arena job := by simp [hstage]
      obtain ⟨hsame, htrace⟩ := next_of_over hover
      rw [hsame, htrace]
      exact ih
    | going arena job =>
      cases hafter : JobStage.after (Worker.stepJob (life.world n) arena life.command job) with
      | none =>
        obtain ⟨hsame, htrace⟩ := next_of_waits ⟨arena, job, hstage, after_eq_none.1 hafter⟩
        rw [hsame, htrace]
        exact ih
      | some next =>
        obtain ⟨hnext, htrace⟩ := next_of_step hstage hafter
        rw [hnext, htrace]
        exact (hstage ▸ ih).step _ (hworld n arena job hstage) hafter

/-! ## Later turns -/

/-- After all its waits, a job that is not over takes its next step. -/
theorem Unblocked.steps (hunblocked : life.Unblocked) (hgoing : life.stage n = .going arena job) :
    ∃ m, n ≤ m ∧ life.stage m = .going arena job ∧ life.trace m = life.trace n ∧ ∃ next,
      JobStage.after (Worker.stepJob (life.world m) arena life.command job) = some next := by
  obtain ⟨later, hle, hmoves⟩ := hunblocked n
  obtain ⟨waits, rfl⟩ := Nat.exists_eq_add_of_le hle
  clear hle
  -- By induction on the turns until one in which the job does not wait.
  induction waits generalizing n with
  | zero =>
    refine ⟨n, Nat.le_refl n, hgoing, rfl, Option.ne_none_iff_exists'.1 fun hnone => hmoves ?_⟩
    exact ⟨arena, job, hgoing, after_eq_none.1 hnone⟩
  | succ waits ih =>
    by_cases hwaits : life.Waits n
    · obtain ⟨hsame, htrace⟩ := next_of_waits hwaits
      obtain ⟨m, hm, hstage, htrace', hnext⟩ := ih (n := n + 1) (hsame.trans hgoing)
        (by rwa [Nat.add_right_comm])
      exact ⟨m, by omega, hstage, htrace'.trans htrace, hnext⟩
    · refine ⟨n, Nat.le_refl n, hgoing, rfl, Option.ne_none_iff_exists'.1 fun hnone => hwaits ?_⟩
      exact ⟨arena, job, hgoing, after_eq_none.1 hnone⟩

/-- Every invocation comes to its end: a process asks for one thing after the other only as long as it
is not over. By induction on the process. -/
theorem Unblocked.answers (hunblocked : life.Unblocked) {dispatch : Dispatch} {turn : Turn}
    (body : Process (Outcome × Frame)) :
    ∀ n, life.stage n = .going arena (.invoking dispatch turn body) →
      ∃ m last, n ≤ m ∧ life.stage m = .going arena (.invoking dispatch turn last) ∧
        life.trace m = life.trace n ∧ ∀ request next, last ≠ .ask request next := by
  induction body with
  | done value => exact fun n hstage => ⟨n, _, Nat.le_refl n, hstage, rfl, by simp⟩
  | fault fault => exact fun n hstage => ⟨n, _, Nat.le_refl n, hstage, rfl, by simp⟩
  | ask request next ih =>
    intro n hstage
    obtain ⟨m, hm, hstage, htrace, stage, hnext⟩ := hunblocked.steps hstage
    obtain ⟨hstage', htrace'⟩ := next_of_step hstage hnext
    have hrecord : (life.trace m).record arena (.invoking dispatch turn (.ask request next)) =
        life.trace n := by simpa [Trace.record] using htrace
    rw [hrecord] at htrace'
    simp only [Worker.stepJob, Worker.stepProcess] at hnext
    cases hreply : (life.world m).perform life.command.id request with
    | none => simp [hreply, JobStage.after] at hnext
    | some reply =>
      rcases reply with fault | ⟨reply, shared⟩
      · simp only [hreply, JobStage.after, Option.some.injEq] at hnext
        exact ⟨m + 1, .fault fault, by omega, hstage'.trans hnext.symm, htrace', by simp⟩
      · simp only [hreply, JobStage.after, Option.some.injEq] at hnext
        obtain ⟨k, last, hk, hlast, htrace'', hover⟩ := ih reply (m + 1) (hstage'.trans hnext.symm)
        exact ⟨k, last, by omega, hlast, htrace''.trans htrace', hover⟩

end Turns

/-! ## A job that nobody disturbs -/

section Alone
variable (command : Command) (arena : LocalArena) (shared : Shared)

/-- The stage, the trace and the shared state of a job when no other thread runs. -/
def progress : Nat → (JobStage × Trace) × Shared
  | 0 => ((.going arena .fresh, {}), shared)
  | n + 1 =>
    let before := progress n
    (turn command before.2 before.1, leave command before.2 before.1.1)

def alone : JobLife where
  command
  arena
  world n := (progress command arena shared n).2

theorem alone_state (n : Nat) :
    (alone command arena shared).state n = (progress command arena shared n).1 := by
  induction n with
  | zero => rfl
  | succ n ih =>
    rw [state, ih]
    rfl

theorem alone_left (n : Nat) :
    (alone command arena shared).left n = (alone command arena shared).world (n + 1) := by
  rw [left, stage, alone_state]
  rfl

/-- A dispatch changes nothing about what is mapped. -/
theorem leave_mappings {range : NDRange} (hkind : command.kind = .ndrange range) (stage : JobStage) :
    (leave command shared stage).memory.mappings = shared.memory.mappings := by
  cases stage with
  | ended | broken => rfl
  | going arena job =>
    cases hnext : (Worker.stepJob shared arena command job).shared? with
    | none => simp [leave, hnext]
    | some shared' =>
      rw [leave, hnext, Option.getD_some]
      obtain rfl | ⟨service, memory, hostBuffers, hservice, -⟩ | ⟨request, reply, -, hreply⟩ :=
        Worker.stepJob_shared hnext
      · rfl
      · simp [hkind] at hservice
      · exact (Shared.perform_kept hreply).2.2.2

theorem alone_mappings {range : NDRange} (hkind : command.kind = .ndrange range) (n : Nat) :
    ((alone command arena shared).world n).memory.mappings = shared.memory.mappings := by
  induction n with
  | zero => rfl
  | succ n ih => exact (leave_mappings command _ hkind _).trans ih

end Alone

end JobLife

end ComputeCore
