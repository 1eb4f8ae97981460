import ComputeCore.Proofs.Scheduling.Sites
/-!
# What a command leaves behind

A worker that has come to the end of a command keeps nothing of it but its arena, and what the command did
to the shared state. Neither the bytes in use of the arena nor the completions that were taken down are
looked at by anything a worker does, so whatever can follow a command that ended with a status could follow
it just as well if it had ended normally at that point, and the other way round: the two sites stay
`Site.Parallel` (`Parallel.run`).

`Site.Concluded` puts this together with what the sink is told: the status of the command, once.
-/

namespace ComputeCore

/-! ## What nobody looks at -/

/-- The same shared state, with other completions taken down. -/
def Shared.noting (shared : Shared) (statuses : Dict CommandId Status) (reports : Array Report) : Shared :=
  { shared with statuses, reports }

/-- The same arena, with so many bytes in use. -/
def LocalArena.withUsed (arena : LocalArena) (used : Nat) : LocalArena :=
  { arena with used }

/-- The same worker, with so many bytes of its arena in use. -/
def Worker.withUsed (worker : Worker) (used : Nat) : Worker :=
  { worker with arena := worker.arena.withUsed used }

/-- The same step of the scheduler, with so many bytes of the arena in use. -/
def DispatchStep.withUsed (step : DispatchStep) (used : Nat) : DispatchStep :=
  match step with
  | .moved dispatch arena => .moved dispatch (arena.withUsed used)
  | step => step

section Unseen
variable (statuses : Dict CommandId Status) (reports : Array Report)

/-- The same step of a job, beside other completions and with so many bytes of the arena in use. -/
def Worker.JobStep.beside (step : JobStep) (used : Nat) : JobStep :=
  match step with
  | .moved shared arena job => .moved (shared.noting statuses reports) (arena.withUsed used) job
  | .ended shared ending => .ended (shared.noting statuses reports) ending
  | .broken shared => .broken (shared.noting statuses reports)
  | .blocked => .blocked

variable (shared : Shared) (command : CommandId)

/-- No request looks at the completions. -/
theorem Shared.perform_noting (request : Request) :
    (shared.noting statuses reports).perform command request =
      (shared.perform command request).map fun reply =>
        reply.map fun result => (result.1, result.2.noting statuses reports) := by
  cases request with
  | newChildEvent parent =>
    simp only [perform, noting]
    cases shared.events.newChildEvent parent <;> rfl
  | leaveWait waiter =>
    cases hblocked : shared.events.isBlocked waiter <;> simp [perform, noting, hblocked, Except.map]
  | acquireLock =>
    simp only [perform, noting]
    cases shared.lock.acquire? <;> rfl
  | pass number =>
    cases hopened : (shared.latch number).opened <;> rw [latch] at hopened <;>
      simp [perform, noting, latch, hopened, Except.map]
  | spend limit =>
    by_cases hleft : shared.spent.findD command 0 < limit <;> simp [perform, noting, hleft, Except.map]
  | _ => rfl

/-- Whether the sink goes on to complete events depends neither on what it took down before nor on how the
command ended. -/
theorem Shared.report_noting (ending ending' : Ending) : ∃ statuses' reports',
    (shared.noting statuses reports).report command ending' =
      ((shared.report command ending).1, (shared.report command ending).2.noting statuses' reports') := by
  cases hsink : shared.sink <;> cases ending <;> cases ending' <;>
    simp only [report, noting, hsink] <;> exact ⟨_, _, rfl⟩

/-- The scheduler does not look at the bytes in use: it resets the arena before it carves anything off. -/
theorem Dispatch.step_withUsed (dispatch : Dispatch) (arena : LocalArena) (used : Nat) :
    ∃ used', dispatch.step (arena.withUsed used) = (dispatch.step arena).map fun step => step.withUsed used' := by
  cases hstage : dispatch.stage with
  | entering =>
    have henter : dispatch.enterGroup (arena.withUsed used) = dispatch.enterGroup arena := rfl
    by_cases hgroup : dispatch.group < dispatch.totalGroups
    · simp only [step, hstage, if_pos hgroup, henter]
      cases dispatch.enterGroup arena with
      | error fault => exact ⟨used, rfl⟩
      | ok entered => exact ⟨entered.2.used, rfl⟩
    · exact ⟨used, by simp only [step, hstage, if_neg hgroup]; rfl⟩
  | passing turn =>
    refine ⟨used, ?_⟩
    simp only [step, hstage]
    split
    · split <;> rfl
    · split <;> rfl

/-- No step of a job looks at either. -/
theorem Worker.stepJob_beside (arena : LocalArena) (command : Command) (job : Job) (used : Nat) :
    ∃ used', stepJob (shared.noting statuses reports) (arena.withUsed used) command job =
      (stepJob shared arena command job).beside statuses reports used' := by
  cases job with
  | fresh =>
    refine ⟨used, ?_⟩
    cases hkind : command.kind with
    | ndrange range => simp only [stepJob, hkind, begin]; rfl
    | exec body => cases body <;> simp only [stepJob, hkind, begin] <;> rfl
    | service service =>
      have hmemory : (shared.noting statuses reports).memory = shared.memory := rfl
      have hbuffers : (shared.noting statuses reports).hostBuffers = shared.hostBuffers := rfl
      simp only [stepJob, hkind, begin, hmemory, hbuffers]
      rcases service.execute shared.memory shared.hostBuffers with ⟨(failure | done), memory, buffers⟩
      · cases failure <;> rfl
      · rfl
  | native body =>
    refine ⟨used, ?_⟩
    cases body with
    | done status | fault fault => rfl
    | ask request next =>
      simp only [stepJob, stepProcess, Shared.perform_noting]
      rcases shared.perform command.id request with _ | (fault | ⟨reply, shared'⟩) <;> rfl
  | binding range params args =>
    refine ⟨used, ?_⟩
    cases params with
    | nil =>
      simp only [stepJob]
      cases Dispatch.create range args <;> rfl
    | cons param params =>
      simp only [stepJob, show (shared.noting statuses reports).memory = shared.memory from rfl]
      cases Dispatch.bindArg shared.memory param <;> rfl
  | scheduling dispatch =>
    obtain ⟨used', hstep⟩ := dispatch.step_withUsed arena used
    simp only [stepJob, hstep]
    rcases dispatch.step arena with fault | (⟨next, arena'⟩ | ⟨turn, item, frame⟩ | -)
    · exact ⟨used, rfl⟩
    · exact ⟨used', rfl⟩
    · exact ⟨used, rfl⟩
    · exact ⟨used, rfl⟩
  | invoking dispatch turn body =>
    refine ⟨used, ?_⟩
    cases body with
    | fault fault => rfl
    | done result =>
      simp only [stepJob, stepProcess]
      rcases dispatch.accept turn result.1 result.2 with fault | (next | status) <;> rfl
    | ask request next =>
      simp only [stepJob, stepProcess, Shared.perform_noting]
      rcases shared.perform command.id request with _ | (fault | ⟨reply, shared'⟩) <;> rfl

/-- What a worker does next is the same beside other completions, and with other bytes of its arena in
use. -/
theorem Worker.step?_beside {shared shared' : Shared} {worker worker' : Worker} (used : Nat)
    (hstep : worker.step? shared = some (shared', worker')) : ∃ statuses' reports' used',
      (worker.withUsed used).step? (shared.noting statuses reports) =
        some (shared'.noting statuses' reports', worker'.withUsed used') := by
  have hturn := turn hstep
  cases hturn with
  | start phase pending => exact ⟨statuses, reports, used, by simp [step?, withUsed, phase, CommandQueue.pop?, pending]⟩
  | stop phase pending closed =>
    refine ⟨statuses, reports, used, ?_⟩
    cases hphase : worker.phase <;> simp only [hphase, Phase.Pops] at phase
    all_goals simp [step?, withUsed, hphase, CommandQueue.pop?, pending, closed]
  | go phase step =>
    rename_i command job job' arena
    obtain ⟨used', hbeside⟩ := stepJob_beside statuses reports shared worker.arena command job used
    exact ⟨statuses, reports, used', by simp [step?, withUsed, phase, hbeside, step, JobStep.beside]⟩
  | finish phase step =>
    rename_i command job ending
    obtain ⟨used', hbeside⟩ := stepJob_beside statuses reports shared worker.arena command job used
    exact ⟨statuses, reports, used, by simp [step?, withUsed, phase, hbeside, step, JobStep.beside]⟩
  | breakDown phase step =>
    rename_i command job
    obtain ⟨used', hbeside⟩ := stepJob_beside statuses reports shared worker.arena command job used
    exact ⟨statuses, reports, used, by simp [step?, withUsed, phase, hbeside, step, JobStep.beside]⟩
  | giveUp phase => exact ⟨statuses, reports, used, by simp [step?, withUsed, phase, close]⟩
  | uncount phase => exact ⟨statuses, reports, used, by simp [step?, withUsed, phase, withdraw]⟩
  | report phase =>
    rename_i command ending healthy
    obtain ⟨statuses', reports', hreport⟩ := shared.report_noting statuses reports command.id ending ending
    exact ⟨statuses', reports', used, by simp [step?, withUsed, phase, hreport]⟩
  | complete phase =>
    rename_i command healthy
    refine ⟨statuses, reports, used, ?_⟩
    cases hevent : command.event <;> simp [step?, withUsed, phase, Shared.complete, hevent, Shared.noting]
  | fail phase pending => exact ⟨statuses, reports, used, by simp [step?, withUsed, phase, CommandQueue.pop?, pending]⟩

end Unseen

theorem Worker.withdraw_beside (worker : Worker) (used : Nat) (phase : Phase) :
    ({ worker.withUsed used with phase } : Worker).withdraw =
      { worker.withdraw.withUsed used with phase } := by
  cases worker
  rfl

theorem Worker.step?_uncounting {shared : Shared} {worker : Worker} {command : Command} {ending : Ending}
    {healthy : Bool} (hphase : worker.phase = .uncounting command ending healthy) : worker.step? shared =
      some (shared, { worker.withdraw with phase := .reporting command ending healthy }) := by
  simp only [step?, hphase]

/-! ## Two ends of a command -/

namespace Site

/-- The same site, with another shared state, other bytes of the arena in use, and the worker in another
phase. -/
def aside (site : Site) (shared : Shared) (used : Nat) (phase : Phase) : Site :=
  { site with shared, worker := { site.worker.withUsed used with phase } }

/-- Two sites that cannot be told apart but by how a command ended: the sink was told the one ending here,
and the other one there, or is about to be. -/
inductive Parallel (command : Command) (ending ending' : Ending) :
    List Report → Site → List Report → Site → Prop
  | counting (site : Site) (used : Nat) (phase : site.worker.phase = .uncounting command ending true) :
      Parallel command ending ending' [] site []
        (site.aside site.shared used (.uncounting command ending' true))
  | reporting (site : Site) (used : Nat) (phase : site.worker.phase = .reporting command ending true) :
      Parallel command ending ending' [] site []
        (site.aside site.shared used (.reporting command ending' true))
  | reported (site : Site) (statuses : Dict CommandId Status) (reports : Array Report) (used : Nat)
      (rest : List Report) :
      Parallel command ending ending' ({ command := command.id, ending } :: rest) site
        ({ command := command.id, ending := ending' } :: rest)
        (site.aside (site.shared.noting statuses reports) used site.worker.phase)

section Runs
variable {command : Command} {ending ending' : Ending} {told told' : List Report}
  {site site' next later : Site}

/-- Steps of other threads do not depend on what tells parallel sites apart. -/
theorem Step.by_others (hstep : Step site next) :
    (∃ shared worker, site.parked = false ∧ site.worker.step? site.shared = some (shared, worker) ∧
      next = { site with
        shared
        worker
        executed := site.executed ++ site.worker.starting?.toList
        reported := site.reported ++ site.worker.reporting?.toList }) ∨
    (site.worker.phase.Pops ∧ site.worker.step? site.shared = none ∧ next = { site with parked := true }) ∨
    (next.worker.phase = site.worker.phase ∧ next.reported = site.reported ∧
      ∀ shared used phase, ∃ shared', Step (site.aside shared used phase) (next.aside shared' used phase) ∧
        ((shared' = shared ∧ next.shared = site.shared) ∨ shared' = next.shared)) := by
  cases hstep with
  | work awake step => exact .inl ⟨_, _, awake, step, rfl⟩
  | park pops blocked => exact .inr (.inl ⟨pops, blocked, rfl⟩)
  | call command fresh =>
    exact .inr (.inr ⟨rfl, rfl, fun shared used phase => ⟨shared, .call command fresh, .inl ⟨rfl, rfl⟩⟩⟩)
  | announce call =>
    exact .inr (.inr ⟨by simp, rfl, fun shared used phase => ⟨shared, .announce call, .inl ⟨rfl, rfl⟩⟩⟩)
  | push call pushed =>
    exact .inr (.inr ⟨rfl, rfl, fun shared used phase => ⟨shared, .push call pushed, .inl ⟨rfl, rfl⟩⟩⟩)
  | turnDown call closed =>
    exact .inr (.inr ⟨rfl, rfl, fun shared used phase => ⟨shared, .turnDown call closed, .inl ⟨rfl, rfl⟩⟩⟩)
  | withdraw call =>
    refine .inr (.inr ⟨by simp, rfl, fun shared used phase => ⟨shared, ?_, .inl ⟨rfl, rfl⟩⟩⟩)
    have hstep : Step (site.aside shared used phase) _ := .withdraw call
    rw [aside, Worker.withdraw_beside] at hstep
    exact hstep
  | close => exact .inr (.inr ⟨rfl, rfl, fun shared used phase => ⟨shared, .close, .inl ⟨rfl, rfl⟩⟩⟩)
  | wake due => exact .inr (.inr ⟨rfl, rfl, fun shared used phase => ⟨shared, .wake due, .inl ⟨rfl, rfl⟩⟩⟩)
  | meanwhile shared' =>
    exact .inr (.inr ⟨rfl, rfl, fun shared used phase => ⟨shared', .meanwhile shared', .inr rfl⟩⟩)

theorem Parallel.symm (h : Parallel command ending ending' told site told' site') :
    Parallel command ending' ending told' site' told site := by
  cases h with
  | counting _ used phase =>
    have hback : Parallel command ending' ending [] _ [] _ :=
      .counting (site.aside site.shared used (.uncounting command ending' true)) site.worker.arena.used rfl
    simpa [aside, Worker.withUsed, LocalArena.withUsed, ← phase] using hback
  | reporting _ used phase =>
    have hback : Parallel command ending' ending [] _ [] _ :=
      .reporting (site.aside site.shared used (.reporting command ending' true)) site.worker.arena.used rfl
    simpa [aside, Worker.withUsed, LocalArena.withUsed, ← phase] using hback
  | reported _ statuses reports used rest =>
    have hback : Parallel command ending' ending _ _ _ _ :=
      .reported (site.aside (site.shared.noting statuses reports) used site.worker.phase)
        site.shared.statuses site.shared.reports site.worker.arena.used rest
    simpa [aside, Worker.withUsed, LocalArena.withUsed, Shared.noting] using hback

/-- What a worker does, it does at a parallel site as well, and the sink is told the same. -/
theorem Parallel.work {shared : Shared} {worker : Worker}
    (h : Parallel command ending ending' told site told' site') (awake : site.parked = false)
    (hturn : site.worker.step? site.shared = some (shared, worker)) :
    ∃ next', Step site' next' ∧
      Parallel command ending ending' (told ++ site.worker.report?.toList)
        { site with
          shared
          worker
          executed := site.executed ++ site.worker.starting?.toList
          reported := site.reported ++ site.worker.reporting?.toList }
        (told' ++ (site'.told? next').toList) next' := by
  cases h with
  | counting _ used phase =>
    obtain ⟨counted, hcounted⟩ : ∃ counted, site.worker.withdraw = counted := ⟨_, rfl⟩
    have hturn' : (site.aside site.shared used (.uncounting command ending' true)).worker.step? site.shared =
        some (site.shared, { counted.withUsed used with phase := .reporting command ending' true }) := by
      rw [Worker.step?_uncounting rfl, aside, Worker.withdraw_beside, hcounted]
    rw [Worker.step?_uncounting phase, hcounted, Option.some.injEq, Prod.mk.injEq] at hturn
    obtain ⟨rfl, rfl⟩ := hturn
    refine ⟨_, .work awake hturn', ?_⟩
    rw [told?_work]
    simp only [aside, Worker.report?, Worker.starting?, Worker.reporting?, phase, Option.toList_none,
      List.append_nil]
    exact .reporting { site with worker := { counted with phase := .reporting command ending true } } used rfl
  | reporting _ used phase =>
    obtain ⟨statuses, reports, hreport⟩ :=
      site.shared.report_noting site.shared.statuses site.shared.reports command.id ending ending'
    have hturn' : (site.aside site.shared used (.reporting command ending' true)).worker.step? site.shared =
        some (shared.noting statuses reports, { worker.withUsed used with phase := worker.phase }) := by
      simp only [Worker.step?, phase, Option.some.injEq, Prod.mk.injEq] at hturn
      obtain ⟨rfl, rfl⟩ := hturn
      simp only [Worker.step?, aside]
      rw [show site.shared.report command.id ending' = _ from hreport]
      rfl
    refine ⟨_, .work awake hturn', ?_⟩
    rw [told?_work]
    simp only [aside, Worker.report?, Worker.starting?, Worker.reporting?, phase]
    exact .reported _ statuses reports used []
  | reported _ statuses reports used rest =>
    obtain ⟨statuses', reports', used', hturn'⟩ := Worker.step?_beside statuses reports used hturn
    refine ⟨_, .work awake hturn', ?_⟩
    rw [told?_work]
    exact .reported { site with
      shared
      worker
      executed := site.executed ++ site.worker.starting?.toList
      reported := site.reported ++ site.worker.reporting?.toList } statuses' reports' used'
        (rest ++ site.worker.report?.toList)

/-- A worker that falls asleep has no command in hand, so it falls asleep at a parallel site as well. -/
theorem Parallel.park (h : Parallel command ending ending' told site told' site')
    (pops : site.worker.phase.Pops) (blocked : site.worker.step? site.shared = none) :
    Step site' { site' with parked := true } ∧
      Parallel command ending ending' told { site with parked := true } told' { site' with parked := true } := by
  cases h with
  | counting _ _ phase | reporting _ _ phase =>
    rw [phase] at pops
    exact pops.elim
  | reported _ statuses reports used rest =>
    obtain ⟨hpending, hopen⟩ := Worker.pop_blocked pops blocked
    have hblocked : (site.aside (site.shared.noting statuses reports) used site.worker.phase).worker.step?
        (site.shared.noting statuses reports) = none := by
      cases hphase : site.worker.phase <;> rw [hphase] at pops <;> try exact pops.elim
      all_goals simp [Worker.step?, aside, Worker.withUsed, hphase, CommandQueue.pop?, hpending, hopen]
    exact ⟨.park pops hblocked, .reported { site with parked := true } statuses reports used rest⟩

/-- What other threads do, they do at a parallel site as well. -/
theorem Parallel.others (h : Parallel command ending ending' told site told' site')
    (hphase : next.worker.phase = site.worker.phase)
    (hothers : ∀ shared used phase, ∃ shared',
      Step (site.aside shared used phase) (next.aside shared' used phase) ∧
        ((shared' = shared ∧ next.shared = site.shared) ∨ shared' = next.shared)) :
    ∃ shared used phase, Step site' (next.aside shared used phase) ∧
      Parallel command ending ending' told next told' (next.aside shared used phase) := by
  cases h with
  | counting _ used phase =>
    obtain ⟨shared, hstep, hshared⟩ := hothers site.shared used (.uncounting command ending' true)
    obtain rfl : shared = next.shared := by rcases hshared with ⟨rfl, hsame⟩ | hsame <;> simp [hsame]
    exact ⟨_, _, _, hstep, .counting next used (hphase.trans phase)⟩
  | reporting _ used phase =>
    obtain ⟨shared, hstep, hshared⟩ := hothers site.shared used (.reporting command ending' true)
    obtain rfl : shared = next.shared := by rcases hshared with ⟨rfl, hsame⟩ | hsame <;> simp [hsame]
    exact ⟨_, _, _, hstep, .reporting next used (hphase.trans phase)⟩
  | reported _ statuses reports used rest =>
    obtain ⟨shared, hstep, hshared⟩ := hothers (site.shared.noting statuses reports) used site.worker.phase
    refine ⟨_, _, _, hstep, ?_⟩
    rw [← hphase]
    rcases hshared with ⟨rfl, hsame⟩ | rfl
    · rw [← hsame]
      exact .reported next statuses reports used rest
    · exact .reported next next.shared.statuses next.shared.reports used rest

theorem Parallel.reported_eq (h : Parallel command ending ending' told site told' site') :
    site'.reported = site.reported := by
  cases h <;> rfl

/-- What one thread can do at a site, it can do at a parallel one, and the sink is told the same. -/
theorem Parallel.step (h : Parallel command ending ending' told site told' site') (hstep : Step site next) :
    ∃ next', Step site' next' ∧ Parallel command ending ending' (told ++ (site.told? next).toList) next
      (told' ++ (site'.told? next').toList) next' := by
  rcases hstep.by_others with ⟨shared, worker, awake, hturn, rfl⟩ | ⟨pops, blocked, rfl⟩ |
    ⟨hphase, hreported, hothers⟩
  · obtain ⟨next', hstep', hparallel⟩ := h.work awake hturn
    rw [told?_work]
    exact ⟨next', hstep', hparallel⟩
  · obtain ⟨hstep', hparallel⟩ := h.park pops blocked
    have htold : ∀ site : Site, site.told? { site with parked := true } = none := fun _ => told?_of_eq rfl
    refine ⟨_, hstep', ?_⟩
    rwa [htold, htold, Option.toList_none, List.append_nil, List.append_nil]
  · obtain ⟨shared, used, phase, hstep', hparallel⟩ := h.others hphase hothers
    have htold : site'.told? (next.aside shared used phase) = none :=
      told?_of_eq (hreported.trans h.reported_eq.symm)
    refine ⟨_, hstep', ?_⟩
    rwa [told?_of_eq hreported, htold, Option.toList_none, List.append_nil, List.append_nil]

/-- Whatever can follow a site can follow a parallel one. By induction on the run. -/
theorem Parallel.run (h : Parallel command ending ending' [] site [] site') (hrun : site.Run told later) :
    ∃ told' later', site'.Run told' later' ∧ Parallel command ending ending' told later told' later' := by
  induction hrun with
  | here => exact ⟨[], site', .here, h⟩
  | step _ hstep ih =>
    obtain ⟨told', between, hrun', hparallel⟩ := ih
    obtain ⟨later', hstep', hparallel'⟩ := hparallel.step hstep
    exact ⟨_, later', hrun'.step hstep', hparallel'⟩

/-! ## What the sink is told -/

/-- No command is reported twice. -/
theorem Run.told_nodup (hrun : site.Run told later) (hsound : site.Sound) :
    (site.reported.map Command.id ++ told.map Report.command).Nodup := by
  obtain ⟨gone, hreported, htold⟩ := hrun.reported
  have hlater := hrun.sound hsound
  rw [htold, ← List.map_append, ← hreported]
  exact (List.IsPrefix.sublist ⟨_, hlater.order.symm⟩ |>.map Command.id).nodup hlater.unique

/-- A command whose end is still to be counted was not reported. -/
theorem Reachable.unreported (hreachable : Reachable site)
    (hphase : site.worker.phase = .uncounting command ending true) :
    command.id ∉ site.reported.map Command.id := by
  have hunique := (hreachable.sound.order ▸ hreachable.sound.unique :)
  rw [List.map_append] at hunique
  intro hmem
  refine (List.nodup_append.1 hunique).2.2 _ hmem _ ?_ rfl
  simp [Worker.outstanding, hphase, Phase.inHand]

/-- It is reported next, and once. -/
theorem Reachable.reports (hreachable : Reachable site)
    (hphase : site.worker.phase = .uncounting command ending true) (hrun : site.Run told later) :
    (told = [] ∧ later.parked = false ∧ (later.worker.phase = .uncounting command ending true ∨
      later.worker.phase = .reporting command ending true)) ∨
    ∃ rest, told = { command := command.id, ending } :: rest ∧ command.id ∉ rest.map Report.command := by
  have hstart : Parallel command ending .done [] site [] _ := .counting site 0 hphase
  obtain ⟨told', later', -, hparallel⟩ := hstart.run hrun
  have hnodup := hrun.told_nodup hreachable.sound
  have hawake : ∀ {ending}, later.worker.phase = .uncounting command ending true ∨
      later.worker.phase = .reporting command ending true → later.parked = false := by
    intro ending hphase'
    by_contra hparked
    have := (hrun.reachable hreachable).awake (by simpa using hparked)
    rcases hphase' with hphase' | hphase' <;> simp [hphase', Phase.Pops] at this
  cases hparallel with
  | counting _ _ phase => exact .inl ⟨rfl, hawake (.inl phase), .inl phase⟩
  | reporting _ _ phase => exact .inl ⟨rfl, hawake (.inr phase), .inr phase⟩
  | reported =>
    refine .inr ⟨_, rfl, ?_⟩
    rw [List.map_cons] at hnodup
    exact (List.nodup_cons.1 (List.nodup_append.1 hnodup).2.1).1

end Runs

end Site

end ComputeCore
