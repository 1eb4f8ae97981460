import ComputeCore.Proofs.Scheduling.Aftermath
import ComputeCore.Proofs.Scheduling.Services
/-!
# Commands that run no kernel

A service that memory refuses ends with the abnormal status, host code ends with the status it returns, or
with the abnormal one if it panics, and the worker serves on (`Command.EndsAs`, `Site.ServesOn`). The one
command without a kernel that its worker does not survive is a read of more bytes than any host buffer can
hold (`Command.Overlong`): the host buffer is brought to the length of the read before memory is asked, and
the fault of that escapes.

`survived_unless_overlong` says this of every life of such a command, and of every site that has only had
commands which are `Command.Harmless`.
-/

namespace ComputeCore

namespace Command

/-- A read of more bytes than any host buffer can hold. -/
def Overlong (command : Command) : Prop :=
  match command.kind with
  | .service service => service.Overlong
  | _ => False

/-- No kernel, and no read that cannot succeed whatever is mapped. -/
def Harmless (command : Command) : Prop :=
  command.isNDRange = false ∧ ¬ command.Overlong

/-- How a command without a kernel ends, by what is left of it and what it finds in memory. -/
inductive EndsAs (command : Command) (shared : Shared) : Job → Ending → Prop
  | served {service} (kind : command.kind = .service service)
      (accepted : service.refusal? shared.memory = none) : EndsAs command shared .fresh .done
  | refused {service error} (kind : command.kind = .service service)
      (refusal : service.refusal? shared.memory = some error) :
      EndsAs command shared .fresh (.exit .abnormal)
  /-- The host code was taken out before. -/
  | missing (kind : command.kind = .exec none) : EndsAs command shared .fresh (.exit .abnormal)
  | returned {status} : EndsAs command shared (.native (.done status)) (.exit status)
  | panicked {fault} : EndsAs command shared (.native (.fault fault)) (.exit .abnormal)

end Command

/-- Not begun, or in host code. -/
def Job.Kernelless : Job → Prop
  | .fresh | .native _ => True
  | _ => False

/-! ## Steps of such a job -/

namespace Worker
variable {shared shared' : Shared} {arena arena' : LocalArena} {command : Command} {job job' : Job}
  {ending : Ending}

theorem stepJob_of_overlong (h : command.Overlong) :
    stepJob shared arena command .fresh = .broken shared := by
  unfold Command.Overlong at h
  split at h
  · next service hkind =>
    simp only [stepJob, hkind, begin, ServiceCommand.execute_of_overlong h]
  · exact h.elim

theorem stepJob_fresh_ne_blocked : stepJob shared arena command .fresh ≠ .blocked := by
  simp only [stepJob]
  cases command.kind with
  | ndrange range => rintro ⟨⟩
  | exec body => cases body <;> rintro ⟨⟩
  | service service =>
    simp only [begin]
    rcases service.execute shared.memory shared.hostBuffers with ⟨(_ | _) | _, memory, buffers⟩ <;> rintro ⟨⟩

/-- A harmless command goes on without a kernel or ends, but does not break. -/
theorem stepJob_harmless (h : command.Harmless) (hjob : job.Kernelless) (shared : Shared)
    (arena : LocalArena) :
    (∀ shared', stepJob shared arena command job ≠ .broken shared') ∧
    (∀ shared' arena' job', stepJob shared arena command job = .moved shared' arena' job' → job'.Kernelless) ∧
    ∀ shared' ending, stepJob shared arena command job = .ended shared' ending →
      command.EndsAs shared job ending := by
  obtain ⟨hkernel, hlong⟩ := h
  cases job with
  | binding | scheduling | invoking => exact hjob.elim
  | fresh =>
    simp only [stepJob]
    cases hkind : command.kind with
    | ndrange range => simp [Command.isNDRange, hkind] at hkernel
    | exec body =>
      cases body with
      | none =>
        refine ⟨by rintro _ ⟨⟩, by rintro _ _ _ ⟨⟩, ?_⟩
        rintro _ _ ⟨⟩
        exact .missing hkind
      | some body =>
        refine ⟨by rintro _ ⟨⟩, ?_, by rintro _ _ ⟨⟩⟩
        rintro _ _ _ ⟨⟩
        trivial
    | service service =>
      rw [Command.Overlong, hkind] at hlong
      rcases service.execute_cases shared.memory shared.hostBuffers with
        ⟨hlong', -⟩ | ⟨-, error, hrefusal, hrefused⟩ | ⟨-, haccepted, hdone⟩
      · exact absurd hlong' hlong
      · simp only [begin, hrefused]
        refine ⟨by rintro _ ⟨⟩, by rintro _ _ _ ⟨⟩, ?_⟩
        rintro _ _ ⟨⟩
        exact .refused hkind hrefusal
      · simp only [begin, hdone]
        refine ⟨by rintro _ ⟨⟩, by rintro _ _ _ ⟨⟩, ?_⟩
        rintro _ _ ⟨⟩
        exact .served hkind haccepted
  | native body =>
    simp only [stepJob]
    cases body with
    | done status =>
      refine ⟨by rintro _ ⟨⟩, by rintro _ _ _ ⟨⟩, ?_⟩
      rintro _ _ ⟨⟩
      exact .returned
    | fault fault =>
      refine ⟨by rintro _ ⟨⟩, by rintro _ _ _ ⟨⟩, ?_⟩
      rintro _ _ ⟨⟩
      exact .panicked
    | ask request next =>
      simp only [stepProcess]
      rcases shared.perform command.id request with _ | (fault | ⟨reply, shared''⟩)
      · exact ⟨by rintro _ ⟨⟩, by rintro _ _ _ ⟨⟩, by rintro _ _ ⟨⟩⟩
      all_goals
        refine ⟨by rintro _ ⟨⟩, ?_, by rintro _ _ ⟨⟩⟩
        rintro _ _ _ ⟨⟩
        trivial

theorem step?_reporting {worker : Worker} {healthy : Bool}
    (hphase : worker.phase = .reporting command ending healthy) : worker.step? shared =
      some ((shared.report command.id ending).2, { worker with
        phase := if (shared.report command.id ending).1 then .completing command healthy
          else afterReport healthy }) := by
  simp only [step?, hphase]

theorem step?_completing {worker : Worker} {healthy : Bool}
    (hphase : worker.phase = .completing command healthy) : worker.step? shared =
      some (shared.complete command.event, { worker with phase := afterReport healthy }) := by
  simp only [step?, hphase]

end Worker

/-! ## A worker that serves on -/

namespace Site

/-- The command the worker has come to the end of was not reported before, and is reported once, with this
ending. Left to itself the worker comes back to its queue at once, and finds it as it was. Whatever can
follow could follow any other ending. -/
structure ServesOn (ended : Site) (command : Command) (ending : Ending) : Prop where
  unreported : command.id ∉ ended.reported.map Command.id
  reports : ∀ told later, ended.Run told later →
    (told = [] ∧ later.parked = false ∧ (later.worker.phase = .uncounting command ending true ∨
      later.worker.phase = .reporting command ending true)) ∨
    ∃ rest, told = { command := command.id, ending } :: rest ∧ command.id ∉ rest.map Report.command
  returns : ∃ later, ended.Run [{ command := command.id, ending }] later ∧
    later.worker.phase = .fetching ∧ later.worker.queue = ended.worker.queue ∧ later.parked = false
  indifferent : ∀ other used told later, ended.Run told later → ∃ told' later',
    (ended.aside ended.shared used (.uncounting command other true)).Run told' later' ∧
      Parallel command ending other told later told' later'

/-- The worker has not given up, has begun all it has taken out of its queue, and does not close it. -/
structure Healthy (site : Site) : Prop where
  trusted : site.worker.phase.trusted = true ∨ site.worker.phase = .stopped
  going : ∀ command, site.worker.phase ≠ .failing command
  begun : site.accepted = site.executed ++ site.worker.queue.pending
  queue : ∀ shared worker, site.worker.step? site.shared = some (shared, worker) →
    worker.queue.closed = site.worker.queue.closed

section Sites
variable {site site' : Site} {command : Command} {ending : Ending}

/-- The worker takes its next step, and nobody else does. -/
theorem Run.works {start : Site} {told : List Report} {shared : Shared} {worker : Worker}
    (hrun : start.Run told site) (hawake : site.parked = false)
    (hturn : site.worker.step? site.shared = some (shared, worker)) :
    ∃ next, start.Run (told ++ site.worker.report?.toList) next ∧ next.worker = worker ∧
      next.parked = false := by
  have hnext := hrun.step (.work hawake hturn)
  rw [told?_work] at hnext
  exact ⟨_, hnext, rfl, hawake⟩

/-- Nothing holds a worker up between the end of a command and its queue. -/
theorem returns_of_uncounting (hphase : site.worker.phase = .uncounting command ending true)
    (hawake : site.parked = false) : ∃ later, site.Run [{ command := command.id, ending }] later ∧
      later.worker.phase = .fetching ∧ later.worker.queue = site.worker.queue ∧ later.parked = false := by
  obtain ⟨counted, hcounted, hworker, hawake⟩ := Run.here.works hawake (Worker.step?_uncounting hphase)
  have hphase' : counted.worker.phase = .reporting command ending true := by rw [hworker]
  have hqueue : counted.worker.queue = site.worker.queue := by rw [hworker, Worker.queue_withdraw]
  obtain ⟨reported, hreported, hworker, hawake⟩ := hcounted.works hawake (Worker.step?_reporting hphase')
  simp only [Worker.report?, hphase, hphase', Option.toList_none, Option.toList_some, List.nil_append] at hreported
  cases hcompletes : (counted.shared.report command.id ending).1 with
  | false =>
    rw [hcompletes] at hworker
    exact ⟨reported, hreported, by rw [hworker]; rfl, by rw [hworker, hqueue], hawake⟩
  | true =>
    rw [hcompletes] at hworker
    have hphase'' : reported.worker.phase = .completing command true := by rw [hworker]; rfl
    obtain ⟨completed, hcompleted, hworker', hawake⟩ :=
      hreported.works hawake (Worker.step?_completing hphase'')
    simp only [Worker.report?, hphase'', Option.toList_none, List.append_nil] at hcompleted
    exact ⟨completed, hcompleted, by rw [hworker']; rfl, by rw [hworker', hworker, hqueue], hawake⟩

theorem Reachable.servesOn (hreachable : Reachable site)
    (hphase : site.worker.phase = .uncounting command ending true) : site.ServesOn command ending where
  unreported := hreachable.unreported hphase
  reports _ _ hrun := hreachable.reports hphase hrun
  returns := by
    refine returns_of_uncounting hphase ?_
    by_contra hparked
    have := hreachable.awake (by simpa using hparked)
    simp [hphase, Phase.Pops] at this
  indifferent other used _ _ hrun := by
    have hparallel : Parallel command ending other [] site [] _ := .counting site used hphase
    exact hparallel.run hrun

end Sites

/-! ## Sites that only had harmless commands -/

/-- What a worker can be at that has begun these commands, all of them harmless. -/
def Steady (executed : List Command) : Phase → Prop
  | .running command job => command ∈ executed ∧ job.Kernelless
  | .failing _ | .draining => False
  | .uncounting _ _ healthy | .reporting _ _ healthy | .completing _ healthy => healthy = true
  | .fetching | .stopped => True

/-- What is so at every moment of a site that has only had harmless commands. -/
structure Unharmed (site : Site) : Prop where
  steady : Steady site.executed site.worker.phase
  begun : site.accepted = site.executed ++ site.worker.queue.pending

section Steps
variable {site site' : Site}

theorem Unharmed.goesOn (h : Unharmed site) {shared : Shared} {worker : Worker} {reported : List Command}
    (hqueue : worker.queue = site.worker.queue) (hsteady : Steady site.executed worker.phase) :
    Unharmed { site with shared, worker, reported } :=
  ⟨hsteady, by simpa only [hqueue] using h.begun⟩

theorem Unharmed.work {shared : Shared} {worker : Worker} (h : Unharmed site)
    (hharmless : ∀ command ∈ site.executed, command.Harmless)
    (hturn : Worker.Turn site.shared site.worker shared worker) : Unharmed { site with
      shared
      worker
      executed := site.executed ++ site.worker.starting?.toList
      reported := site.reported ++ site.worker.reporting?.toList } := by
  have hsteady := h.steady
  cases hturn with
  | start phase pending =>
    simp only [Worker.starting?, phase, pending, List.head?_cons, Option.toList_some]
    exact ⟨⟨by simp, trivial⟩, by simp [h.begun, pending]⟩
  | stop phase pending closed =>
    refine ⟨trivial, ?_⟩
    cases hphase : site.worker.phase <;> simp [hphase, Phase.Pops] at phase <;>
      simp [h.begun, Worker.starting?, hphase, pending]
  | go phase step =>
    rw [phase] at hsteady
    obtain ⟨-, hmoved, -⟩ := Worker.stepJob_harmless (hharmless _ hsteady.1) hsteady.2 _ _
    simp only [Worker.starting?, phase, Option.toList_none, List.append_nil]
    exact h.goesOn rfl ⟨hsteady.1, hmoved _ _ _ step⟩
  | finish phase step =>
    simp only [Worker.starting?, phase, Option.toList_none, List.append_nil]
    exact h.goesOn rfl rfl
  | breakDown phase step =>
    rw [phase] at hsteady
    obtain ⟨hunbroken, -, -⟩ := Worker.stepJob_harmless (hharmless _ hsteady.1) hsteady.2 _ _
    exact absurd step (hunbroken _)
  | giveUp phase | fail phase pending =>
    rw [phase] at hsteady
    exact hsteady.elim
  | uncount phase =>
    rw [phase] at hsteady
    simp only [Worker.starting?, phase, Option.toList_none, List.append_nil]
    have hqueue := site.worker.queue_withdraw
    -- Nothing that follows may unfold the load, which wraps round.
    generalize site.worker.withdraw = counted at hqueue
    exact h.goesOn hqueue hsteady
  | report phase =>
    rw [phase] at hsteady
    obtain rfl := hsteady
    simp only [Worker.starting?, phase, Option.toList_none, List.append_nil]
    refine h.goesOn rfl ?_
    dsimp only
    split <;> trivial
  | complete phase =>
    rw [phase] at hsteady
    obtain rfl := hsteady
    simp only [Worker.starting?, phase, Option.toList_none, List.append_nil]
    exact h.goesOn rfl trivial

theorem Unharmed.step (h : Unharmed site) (hharmless : ∀ command ∈ site.executed, command.Harmless)
    (hstep : Step site site') : Unharmed site' := by
  cases hstep with
  | push call pushed =>
    obtain ⟨-, rfl⟩ := Worker.push?_eq_some pushed
    exact ⟨h.steady, by simp [h.begun]⟩
  | announce call | withdraw call => exact ⟨by simpa using h.steady, by simpa using h.begun⟩
  | call command fresh | turnDown call closed | close | wake due | park pops blocked | meanwhile shared =>
    exact ⟨h.steady, h.begun⟩
  | work awake step => exact h.work hharmless (Worker.turn step)

theorem Step.executed_prefix (hstep : Step site site') : site.executed <+: site'.executed := by
  cases hstep with
  | work awake step => exact List.prefix_append _ _
  | _ => exact List.prefix_rfl

/-- By induction on the steps: what was executed before is executed still. -/
theorem Reachable.unharmed (hreachable : Reachable site)
    (hharmless : ∀ command ∈ site.executed, command.Harmless) : Unharmed site := by
  induction hreachable with
  | start shared worker hphase hqueue => exact ⟨by rw [hphase]; trivial, by simp [hqueue]⟩
  | step _ hstep ih =>
    have hbefore := fun command hmem => hharmless command (hstep.executed_prefix.subset hmem)
    exact (ih hbefore).step hbefore hstep

theorem Unharmed.healthy (h : Unharmed site) : site.Healthy where
  trusted := by
    have hsteady := h.steady
    cases hphase : site.worker.phase <;> rw [hphase] at hsteady <;>
      first | exact .inr rfl | exact hsteady.elim | exact .inl rfl | exact .inl hsteady
  going command hfailing := by
    have hsteady := h.steady
    rw [hfailing] at hsteady
    exact hsteady.elim
  begun := h.begun
  queue shared worker hstep := by
    have hsteady := h.steady
    cases Worker.shift hstep with
    | giveUp command phase =>
      rw [phase] at hsteady
      exact hsteady.elim
    | start _ _ _ _ queue' | fail _ _ _ _ queue' | stop _ _ _ queue' | carry _ _ _ _ queue'
    | report _ _ _ _ queue' | complete _ _ _ queue' => rw [queue']

end Steps

end Site

/-! ## Lives without a kernel -/

namespace JobLife

/-- The life is over after turn `last`, on whatever site it is carried out: there the worker serves on. -/
structure ServedOut (life : JobLife) (last : Nat) (ending : Ending) : Prop where
  carriedOut : ∃ site, Site.Reachable site ∧ life.On last site
  servesOn : ∀ site, Site.Reachable site → life.On last site →
    Site.Step site (site.over (life.left last) life.command ending) ∧
      (site.over (life.left last) life.command ending).ServesOn life.command ending

/-- The life breaks in its first turn, and takes the worker down with it. -/
structure TakesDown (life : JobLife) : Prop where
  broken : life.stage 1 = .broken
  carriedOut : ∃ site, Site.Reachable site ∧ life.On 0 site
  failStop : ∀ site, Site.Reachable site → life.On 0 site → ∃ broken, site.Breaks life.command broken ∧
    ∀ told later, broken.Run told later → broken.FailStop life.command told later

/-- The life comes to its end, at once or unless its host code waits forever, and its worker serves on. -/
structure Survived (life : JobLife) : Prop where
  unbroken : ∀ n, life.stage n ≠ .broken
  atOnce : (∀ body, life.command.kind ≠ .exec (some body)) → ∃ ending, life.stage 1 = .ended ending
  ends : life.Unblocked → ∃ n ending, life.stage n = .ended ending
  ended : ∀ n arena job ending, life.stage n = .going arena job → life.stage (n + 1) = .ended ending →
    life.command.EndsAs (life.world n) job ending ∧ life.ServedOut n ending

section Lives
variable {life : JobLife} {n : Nat} {arena : LocalArena} {job : Job} {ending : Ending}

theorem takesDown_of_overlong (h : life.command.Overlong) : life.TakesDown := by
  have hbroken : life.stage 1 = .broken :=
    (next_of_step (n := 0) rfl (by rw [Worker.stepJob_of_overlong h]; rfl)).1
  refine ⟨hbroken, exists_on life rfl, fun site hreachable hon => ?_⟩
  obtain ⟨broken, hbreaks⟩ := hon.breaks hreachable hbroken
  exact ⟨broken, hbreaks, fun told later => hbreaks.fail_stop hreachable⟩

/-- By induction on the turns. -/
theorem stage_of_harmless (h : life.command.Harmless) (n : Nat) :
    life.stage n ≠ .broken ∧ ∀ arena job, life.stage n = .going arena job → job.Kernelless := by
  induction n with
  | zero =>
    refine ⟨by rintro ⟨⟩, ?_⟩
    rintro _ _ ⟨⟩
    trivial
  | succ n ih =>
    cases hstage : life.stage n with
    | ended | broken =>
      rw [(next_of_over (by simp [hstage])).1]
      exact ih
    | going arena job =>
      cases hafter : JobStage.after (Worker.stepJob (life.world n) arena life.command job) with
      | none =>
        rw [(next_of_waits ⟨arena, job, hstage, after_eq_none.1 hafter⟩).1]
        exact ih
      | some stage =>
        rw [(next_of_step hstage hafter).1]
        obtain ⟨hunbroken, hmoved, -⟩ :=
          Worker.stepJob_harmless h (ih.2 arena job hstage) (life.world n) arena
        cases hstep : Worker.stepJob (life.world n) arena life.command job with
        | broken shared => exact absurd hstep (hunbroken shared)
        | blocked => simp [hstep, JobStage.after] at hafter
        | ended shared ending =>
          simp only [hstep, JobStage.after, Option.some.injEq] at hafter
          simp [← hafter]
        | moved shared arena' job' =>
          simp only [hstep, JobStage.after, Option.some.injEq] at hafter
          subst hafter
          refine ⟨by rintro ⟨⟩, ?_⟩
          rintro _ _ ⟨⟩
          exact hmoved _ _ _ hstep

/-- Host code that does not wait forever comes to its end. By induction on the process. -/
theorem Unblocked.native_ends (hunblocked : life.Unblocked) (body : Process Status) :
    ∀ n, life.stage n = .going arena (.native body) → ∃ n ending, life.stage n = .ended ending := by
  induction body with
  | done status | fault fault =>
    intro n hstage
    obtain ⟨m, -, hm, -, stage, hafter⟩ := hunblocked.steps hstage
    have hnext := (next_of_step hm hafter).1
    simp only [Worker.stepJob, Worker.stepProcess, JobStage.after, Option.some.injEq] at hafter
    exact ⟨m + 1, _, hnext.trans hafter.symm⟩
  | ask request next ih =>
    intro n hstage
    obtain ⟨m, -, hm, -, stage, hafter⟩ := hunblocked.steps hstage
    have hnext := (next_of_step hm hafter).1
    simp only [Worker.stepJob, Worker.stepProcess] at hafter
    rcases hreply : (life.world m).perform life.command.id request with _ | (fault | ⟨reply, shared⟩) <;>
      simp only [hreply, JobStage.after, Option.some.injEq, reduceCtorEq] at hafter
    · -- A request that is answered with a fault ends the process there.
      obtain ⟨k, -, hk, -, stage', hafter'⟩ := hunblocked.steps (hnext.trans hafter.symm)
      have hnext' := (next_of_step hk hafter').1
      simp only [Worker.stepJob, Worker.stepProcess, JobStage.after, Option.some.injEq] at hafter'
      exact ⟨k + 1, _, hnext'.trans hafter'.symm⟩
    · exact ih reply (m + 1) (hnext.trans hafter.symm)

/-- The first step of a harmless command ends it, or takes its host code out. -/
theorem first_of_harmless (h : life.command.Harmless) {stage : JobStage}
    (hnext : life.stage (n + 1) = stage)
    (hafter : JobStage.after (Worker.stepJob (life.world n) arena life.command .fresh) = some stage) :
    (∃ ending, stage = .ended ending) ∨
      ∃ body, life.command.kind = .exec (some body) ∧ stage = .going arena (.native body) := by
  cases JobStage.next_of_after (life.trace n) hafter with
  | begin kind => simp [Command.Harmless, Command.isNDRange, kind] at h
  | load kind => exact .inr ⟨_, kind, rfl⟩
  | serve kind finished =>
    cases stage with
    | going arena job => exact absurd rfl (finished arena job)
    | ended ending => exact .inl ⟨ending, rfl⟩
    | broken => exact absurd hnext (stage_of_harmless h (n + 1)).1

theorem ends_of_harmless (h : life.command.Harmless) (hunblocked : life.Unblocked) :
    ∃ n ending, life.stage n = .ended ending := by
  obtain ⟨m, -, hm, -, stage, hafter⟩ := hunblocked.steps (n := 0) rfl
  have hnext := (next_of_step hm hafter).1
  rcases first_of_harmless h hnext hafter with ⟨ending, rfl⟩ | ⟨body, -, rfl⟩
  · exact ⟨m + 1, ending, hnext⟩
  · exact hunblocked.native_ends body _ hnext

theorem ends_at_once (h : life.command.Harmless) (hkind : ∀ body, life.command.kind ≠ .exec (some body)) :
    ∃ ending, life.stage 1 = .ended ending := by
  obtain ⟨stage, hafter⟩ : ∃ stage,
      JobStage.after (Worker.stepJob (life.world 0) life.arena life.command .fresh) = some stage := by
    refine Option.ne_none_iff_exists'.1 fun hnone => ?_
    exact Worker.stepJob_fresh_ne_blocked (after_eq_none.1 hnone)
  have hnext := (next_of_step (n := 0) rfl hafter).1
  rcases first_of_harmless h hnext hafter with ⟨ending, rfl⟩ | ⟨body, hbody, -⟩
  · exact ⟨ending, hnext⟩
  · exact absurd hbody (hkind body)

theorem survived_of_harmless (h : life.command.Harmless) : life.Survived where
  unbroken n := (stage_of_harmless h n).1
  atOnce := ends_at_once h
  ends := ends_of_harmless h
  ended n arena job ending hstage hended := by
    refine ⟨?_, exists_on life hstage, fun site hreachable hon => ?_⟩
    · have hafter := after_of_next hstage (by simp [hended])
      rw [hended] at hafter
      obtain ⟨-, -, hends⟩ :=
        Worker.stepJob_harmless h ((stage_of_harmless h n).2 arena job hstage) (life.world n) arena
      cases hstep : Worker.stepJob (life.world n) arena life.command job with
      | moved | broken | blocked => simp [hstep, JobStage.after] at hafter
      | ended shared ending' =>
        simp only [hstep, JobStage.after, Option.some.injEq, JobStage.ended.injEq] at hafter
        exact hafter ▸ hends shared ending' hstep
    · have hstep := hon.ends hreachable hended
      exact ⟨hstep, (hreachable.step hstep).servesOn rfl⟩

end Lives

end JobLife

/-- A worker survives every command without a kernel but an overlong read: the command ends, its end is
reported once, and the worker goes on with its queue. An overlong read takes its worker down. A worker that
has only had harmless commands has begun all it has taken out of its queue, and leaves the queue open. -/
theorem survived_unless_overlong {life : JobLife} (hkind : life.command.isNDRange = false) {site : Site}
    (hreachable : Site.Reachable site) :
    (life.Survived ↔ ¬ life.command.Overlong) ∧ (life.command.Overlong → life.TakesDown) ∧
      ((∀ command ∈ site.executed, command.Harmless) → site.Healthy) := by
  refine ⟨⟨fun hsurvived hlong => ?_, fun hlong => JobLife.survived_of_harmless ⟨hkind, hlong⟩⟩,
    JobLife.takesDown_of_overlong, fun hharmless => (hreachable.unharmed hharmless).healthy⟩
  exact hsurvived.unbroken 1 (JobLife.takesDown_of_overlong hlong).broken

/-- A write to an object that is not mapped, host code that panics, host code that returns a status, and a
marker behind them. -/
def roughCommands : List Command :=
  [{ id := ⟨0⟩, kind := .service (.writeBuffer ⟨0⟩ 0 #[1]) },
    { id := ⟨1⟩, kind := .exec (some (.fault .subOverflow)) },
    { id := ⟨2⟩, kind := .exec (some (.done 5)) },
    { id := ⟨3⟩, kind := .service .marker }]

theorem harmless_roughCommands : ∀ command ∈ roughCommands, command.Harmless := by
  simp [roughCommands, Command.Harmless, Command.isNDRange, Command.Overlong, ServiceCommand.Overlong]

/-- A worker that is given these commands one after the other, and carries out all of them. -/
theorem exists_rough_site : ∃ site : Site, Site.Reachable site ∧ site.executed = roughCommands ∧
    site.shared.reports = #[{ command := ⟨0⟩, ending := .exit .abnormal },
      { command := ⟨1⟩, ending := .exit .abnormal }, { command := ⟨2⟩, ending := .exit 5 },
      { command := ⟨3⟩, ending := .done }] := by
  have hpushed := Site.Reachable.start Pool.smallArenas { id := 0, core := 0, arena := default } rfl rfl
    |>.step (.call roughCommands[0] (by simp))
    |>.step (.announce (n := 0) rfl) |>.step (.push (n := 0) rfl rfl)
    |>.step (.call roughCommands[1] (by simp [roughCommands]))
    |>.step (.announce (n := 1) rfl) |>.step (.push (n := 1) rfl rfl)
    |>.step (.call roughCommands[2] (by simp [roughCommands]))
    |>.step (.announce (n := 2) rfl) |>.step (.push (n := 2) rfl rfl)
    |>.step (.call roughCommands[3] (by simp [roughCommands]))
    |>.step (.announce (n := 3) rfl) |>.step (.push (n := 3) rfl rfl)
  have hwritten := hpushed.step (.work rfl rfl) |>.step (.work rfl rfl) |>.step (.work rfl rfl)
    |>.step (.work rfl rfl)
  have hpanicked := hwritten.step (.work rfl rfl) |>.step (.work rfl rfl) |>.step (.work rfl rfl)
    |>.step (.work rfl rfl) |>.step (.work rfl rfl)
  have hreturned := hpanicked.step (.work rfl rfl) |>.step (.work rfl rfl) |>.step (.work rfl rfl)
    |>.step (.work rfl rfl) |>.step (.work rfl rfl)
  have hmarked := hreturned.step (.work rfl rfl) |>.step (.work rfl rfl) |>.step (.work rfl rfl)
    |>.step (.work rfl rfl)
  exact ⟨_, hmarked, rfl, rfl⟩

theorem survived_roughCommands :
    (∀ command ∈ roughCommands, (JobLife.alone command default default).Survived) ∧
    ∃ site : Site, Site.Reachable site ∧ site.Healthy ∧ site.executed = roughCommands ∧
      site.shared.reports = #[{ command := ⟨0⟩, ending := .exit .abnormal },
        { command := ⟨1⟩, ending := .exit .abnormal }, { command := ⟨2⟩, ending := .exit 5 },
        { command := ⟨3⟩, ending := .done }] := by
  obtain ⟨site, hreachable, hexecuted, hreports⟩ := exists_rough_site
  have hharmless : ∀ command ∈ roughCommands,
      (JobLife.alone command default default).command.Harmless := harmless_roughCommands
  refine ⟨fun command hcommand => ?_, site, hreachable, ?_, hexecuted, hreports⟩
  · obtain ⟨hkind, hlong⟩ := hharmless command hcommand
    exact (survived_unless_overlong hkind hreachable).1.2 hlong
  · obtain ⟨hkind, -⟩ := hharmless roughCommands[3] (by simp [roughCommands])
    exact (survived_unless_overlong hkind hreachable).2.2 (hexecuted ▸ harmless_roughCommands)

/-- A read of as many bytes as a size can count. -/
def endlessRead : Command :=
  { id := ⟨0⟩, kind := .service (.readBuffer ⟨0⟩ 0 (Size.limit - 1) 0) }

/-- Its worker gives up over it. -/
theorem endlessRead_takes_down : ¬ ∀ site, Site.Reachable site →
    (∀ command ∈ site.executed, command.isNDRange = false) → site.Healthy := by
  intro hall
  have hbroken := Site.Reachable.start Pool.smallArenas { id := 0, core := 0, arena := default } rfl rfl
    |>.step (.call endlessRead (by simp)) |>.step (.announce (n := 0) rfl) |>.step (.push (n := 0) rfl rfl)
    |>.step (.work rfl rfl) |>.step (.work rfl rfl)
  have hhealthy := hall _ hbroken (by simp [Worker.starting?, endlessRead, Command.isNDRange])
  exact hhealthy.going endlessRead rfl

end ComputeCore
