import ComputeCore.Proofs.Scheduling.Pool
/-!
# Fail-stop

A worker that finds a fault escaping its dispatch gives up, whatever the threads do that submit to it at
that moment: it begins no command any more, closes its queue before it reports the command it was
carrying out, and then reports everything that was accepted until then as failed, in order and each
command once. Nothing can hold it up, so it comes to its end.

`Site.Breaks.fail_stop` says this of everything that can follow such a fault.
-/

namespace ComputeCore

/-- The report of a command that failed. -/
def Command.failure (command : Command) : Report :=
  { command := command.id, ending := .exit .abnormal }

/-- The worker has found a fault escaping a dispatch, or has stopped. -/
def Phase.GivenUp : Phase → Prop
  | .failing _ | .draining | .stopped => True
  | .uncounting _ ending healthy | .reporting _ ending healthy =>
    ending = .exit .abnormal ∧ healthy = false
  | .completing _ healthy => healthy = false
  | _ => False

namespace Worker

/-- How many steps a worker that has given up takes at most until it stops. -/
def toStop (worker : Worker) : Nat :=
  4 * worker.queue.pending.length +
    match worker.phase with
    | .stopped => 0
    | .completing .. => 2
    | .reporting .. => 3
    | .uncounting .. => 4
    | .failing _ => 5
    | _ => 1

section Steps
variable {shared shared' : Shared} {worker worker' : Worker}

theorem report?_of_reporting (hgivenUp : worker.phase.GivenUp) :
    worker.report? = worker.reporting?.map Command.failure := by
  cases hphase : worker.phase <;> simp [report?, reporting?, hphase]
  rw [hphase] at hgivenUp
  rw [hgivenUp.1]
  rfl

/-- A worker that has given up begins nothing, stays as it is, and comes nearer to its end. -/
theorem Turn.givenUp (hturn : Turn shared worker shared' worker') (h : worker.phase.GivenUp) :
    worker.starting? = none ∧ worker'.phase.GivenUp ∧ worker'.phase.trusted = false ∧
      worker'.toStop < worker.toStop := by
  cases hturn with
  | start phase pending => simp [phase, Phase.GivenUp] at h
  | go phase step | finish phase step | breakDown phase step => simp [phase, Phase.GivenUp] at h
  | stop phase pending closed =>
    cases hphase : worker.phase <;> simp [hphase, Phase.Pops] at phase
    · simp [hphase, Phase.GivenUp] at h
    · exact ⟨by simp [starting?, hphase], trivial, rfl, by simp [toStop, hphase]⟩
  | giveUp phase =>
    exact ⟨by simp [starting?, phase], ⟨rfl, rfl⟩, rfl, by
      simp [toStop, phase, Worker.close, CommandQueue.close]⟩
  | uncount phase =>
    rw [phase] at h
    exact ⟨by simp [starting?, phase], h, h.2, by simp [toStop, phase]⟩
  | report phase =>
    rename_i command ending healthy
    rw [phase] at h
    obtain rfl : healthy = false := h.2
    refine ⟨by simp [starting?, phase], ?_⟩
    cases (shared.report command.id ending).1 with
    | true => exact ⟨rfl, rfl, by simp [toStop, phase]⟩
    | false => exact ⟨trivial, rfl, by simp [toStop, phase, afterReport]⟩
  | complete phase =>
    rename_i command healthy
    rw [phase] at h
    obtain rfl : healthy = false := h
    exact ⟨by simp [starting?, phase], trivial, rfl, by simp [toStop, phase, afterReport]⟩
  | fail phase pending =>
    exact ⟨by simp [starting?, phase], ⟨rfl, rfl⟩, rfl, by simp [toStop, phase, pending]; omega⟩

/-- A worker that has given up is never held up. -/
theorem isSome_step_of_givenUp (h : worker.phase.GivenUp) (hclosed : worker.phase.trusted = false →
    worker.queue.closed = true) (hstopped : worker.phase ≠ .stopped) :
    (worker.step? shared).isSome = true := by
  cases hphase : worker.phase with
  | fetching | running command job => simp [hphase, Phase.GivenUp] at h
  | stopped => exact absurd hphase hstopped
  | draining =>
    have hclosed := hclosed (by rw [hphase]; rfl)
    rcases pop?_cases worker.queue with ⟨command, rest, -, hpop⟩ | ⟨-, hpop⟩ <;>
      simp [step?, hphase, hpop, hclosed]
  | failing | uncounting | reporting | completing => simp [step?, hphase]

end Steps

end Worker

namespace Site

/-- A fault escapes the dispatch of the command that the worker is carrying out. -/
inductive Breaks (site : Site) (command : Command) : Site → Prop
  | work {job : Job} {shared : Shared} (awake : site.parked = false)
      (phase : site.worker.phase = .running command job)
      (fault : Worker.stepJob site.shared site.worker.arena command job = .broken shared) :
      Breaks site command { site with
        shared
        worker := { site.worker with phase := .failing command } }

/-- What is so at a site, and at all that follow it, when a fault has escaped the dispatch of `command`
and the sink has been told this since. -/
structure FailStop (broken : Site) (command : Command) (told : List Report) (site : Site) : Prop where
  /-- The queue is closed before the command is reported. -/
  closed : told = [] ∧ site.worker.phase = .failing command ∨ site.worker.queue.closed = true
  /-- No command is begun. -/
  executed : site.executed = broken.executed ∧ ∀ other job, site.worker.phase ≠ .running other job
  /-- The command and those accepted after it, which are those in the queue and such as were pushed
  before it was closed, are reported in order and each once, as failed. -/
  reports : ∃ queued, broken.worker.queue.pending <+: queued ∧
    site.accepted = broken.reported ++ command :: queued ∧
    ((command :: queued).map Command.id).Nodup ∧
    told <+: (command :: queued).map Command.failure ∧
    (site.worker.phase = .stopped → told = (command :: queued).map Command.failure)
  /-- A recorder takes down just these reports about the commands submitted to this worker, unless somebody
  else tells it of them. -/
  recorded : broken.shared.sink = .recorder → ∀ own, broken.Undisturbed own told site →
    (∀ call ∈ site.calls, own call.command.id = true) →
    site.shared.notes own = broken.shared.notes own ++ told
  /-- Once the command is reported nothing is accepted any more, least of all from a call that starts
  after that. -/
  refuses : told ≠ [] → ∀ told' later, site.Run told' later → later.accepted = site.accepted ∧
    ∀ n call, site.calls.length ≤ n → later.calls[n]? = some call → call.stage ≠ .accepted
  /-- The worker can go on until it has stopped. -/
  goesOn : site.worker.phase ≠ .stopped →
    site.parked = false ∧ (site.worker.step? site.shared).isSome = true
  /-- With its queue closed the worker comes nearer to its end with each step it takes, and nobody takes
  it farther away. -/
  nearer : site.worker.queue.closed = true → ∀ site', Step site site' →
    site'.worker.toStop < site.worker.toStop ∨
      (site'.worker.toStop = site.worker.toStop ∧ site'.worker.phase = site.worker.phase)

section Runs
variable {broken site site' later : Site} {command : Command} {told told' : List Report}

/-! ## Closed queues -/

theorem Step.ids_prefix (hstep : Step site site') :
    (site.calls.map (·.command.id)) <+: (site'.calls.map (·.command.id)) := by
  cases hstep with
  | call command fresh => simp
  | announce call | push call pushed | turnDown call closed | withdraw call =>
    simp only [ids_set call, List.prefix_rfl]
  | close | wake due | work awake step | park pops blocked | meanwhile shared => exact List.prefix_rfl

theorem Step.keeps_closed (hstep : Step site site') (hclosed : site.worker.queue.closed = true) :
    site'.worker.queue.closed = true ∧ site'.accepted = site.accepted := by
  cases hstep with
  | push call pushed =>
    obtain ⟨hopen, -⟩ := Worker.push?_eq_some pushed
    simp [hclosed] at hopen
  | work awake step => exact ⟨Worker.closed_step step hclosed, rfl⟩
  | announce call | withdraw call => exact ⟨by simpa using hclosed, rfl⟩
  | close => exact ⟨rfl, rfl⟩
  | call command fresh | turnDown call closed | wake due | park pops blocked | meanwhile shared =>
    exact ⟨hclosed, rfl⟩

/-- With the queue closed nothing is accepted any more, and commands keep the places of their calls. -/
theorem Run.keeps_closed (hrun : site.Run told later) (hclosed : site.worker.queue.closed = true) :
    later.worker.queue.closed = true ∧ later.accepted = site.accepted := by
  induction hrun with
  | here => exact ⟨hclosed, rfl⟩
  | step _ hstep ih =>
    obtain ⟨hclosed', haccepted⟩ := hstep.keeps_closed ih.1
    exact ⟨hclosed', haccepted.trans ih.2⟩

theorem Run.ids_prefix (hrun : site.Run told later) :
    (site.calls.map (·.command.id)) <+: (later.calls.map (·.command.id)) := by
  induction hrun with
  | here => exact List.prefix_rfl
  | step _ hstep ih => exact ih.trans hstep.ids_prefix

/-- A call that starts when the queue is closed is not accepted. -/
theorem Run.refuses (hrun : site.Run told later) (h : site.Sound)
    (hclosed : site.worker.queue.closed = true) {n : Nat} {call : SubmitCall}
    (hlate : site.calls.length ≤ n) (hcall : later.calls[n]? = some call) : call.stage ≠ .accepted := by
  intro hstage
  have hlater := hrun.sound h
  have hmem : call.command ∈ site.accepted := by
    rw [← (hrun.keeps_closed hclosed).2, hlater.agreed, ← hstage]
    exact List.mem_of_getElem? hcall
  -- The command was accepted from an earlier call, and no two calls are for one command.
  have hearly := List.mem_map_of_mem (f := fun call : SubmitCall => call.command.id)
    ((h.agreed call.command).1 hmem)
  obtain ⟨rest, hrest⟩ := hrun.ids_prefix
  have hdistinct := hlater.distinct
  rw [← hrest] at hdistinct
  refine (List.nodup_append.1 hdistinct).2.2 _ hearly _ ?_ rfl
  refine List.mem_of_getElem? (i := n - site.calls.length) ?_
  have hplace : (later.calls.map (·.command.id))[n]? = some call.command.id := by simp [hcall]
  rwa [← hrest, List.getElem?_append_right (by simpa using hlate), List.length_map] at hplace

/-! ## After the fault -/

/-- What every step keeps once a fault has escaped the dispatch of `command`. -/
structure Doomed (broken : Site) (command : Command) (told : List Report) (site : Site) : Prop where
  sound : site.Sound
  givenUp : site.worker.phase.GivenUp
  trusted : told = [] ∧ site.worker.phase = .failing command ∨ site.worker.phase.trusted = false
  awake : site.parked = false
  executed : site.executed = broken.executed
  reported : ∃ gone, site.reported = broken.reported ++ gone ∧ told = gone.map Command.failure
  accepted : broken.accepted <+: site.accepted

theorem Doomed.same (h : Doomed broken command told site) (hsound : site'.Sound)
    (hphase : site'.worker.phase = site.worker.phase) (hawake : site'.parked = false)
    (hexecuted : site'.executed = site.executed) (hreported : site'.reported = site.reported)
    (haccepted : site.accepted <+: site'.accepted) :
    Doomed broken command (told ++ (site.told? site').toList) site' := by
  rw [told?_of_eq hreported, Option.toList_none, List.append_nil]
  exact {
    sound := hsound
    givenUp := hphase ▸ h.givenUp
    trusted := hphase ▸ h.trusted
    awake := hawake
    executed := hexecuted.trans h.executed
    reported := hreported ▸ h.reported
    accepted := h.accepted.trans haccepted }

theorem Doomed.step (h : Doomed broken command told site) (hstep : Step site site') :
    Doomed broken command (told ++ (site.told? site').toList) site' := by
  have hsound := h.sound.step hstep
  cases hstep with
  | call other fresh => exact h.same hsound rfl h.awake rfl rfl List.prefix_rfl
  | announce call => exact h.same hsound (by simp) h.awake rfl rfl List.prefix_rfl
  | push call pushed => exact h.same hsound rfl rfl rfl rfl (List.prefix_append _ _)
  | turnDown call closed => exact h.same hsound rfl h.awake rfl rfl List.prefix_rfl
  | withdraw call => exact h.same hsound (by simp) h.awake rfl rfl List.prefix_rfl
  | close => exact h.same hsound rfl h.awake rfl rfl List.prefix_rfl
  | wake due => exact h.same hsound rfl rfl rfl rfl List.prefix_rfl
  | meanwhile shared => exact h.same hsound rfl h.awake rfl rfl List.prefix_rfl
  | park pops blocked =>
    -- A worker that has given up sleeps no more: its queue is closed.
    have hopen := (Worker.pop_blocked pops blocked).2
    rcases h.trusted with ⟨-, hfailing⟩ | hdistrust
    · simp [hfailing, Phase.Pops] at pops
    · simp [h.sound.closed hdistrust] at hopen
  | work awake step =>
    obtain ⟨hstarting, hgivenUp, hdistrust, -⟩ := (Worker.turn step).givenUp h.givenUp
    obtain ⟨gone, hreported, rfl⟩ := h.reported
    refine ⟨hsound, hgivenUp, .inr hdistrust, h.awake, by simpa [hstarting] using h.executed, ?_, h.accepted⟩
    refine ⟨gone ++ site.worker.reporting?.toList, by simp [hreported], ?_⟩
    rw [told?_work, Worker.report?_of_reporting h.givenUp, List.map_append]
    cases site.worker.reporting? <;> rfl

theorem Doomed.run (h : Doomed broken command [] broken) (hrun : broken.Run told site) :
    Doomed broken command told site := by
  induction hrun with
  | here => exact h
  | step _ hstep ih => exact ih.step hstep

theorem Doomed.closed (h : Doomed broken command told site) :
    told = [] ∧ site.worker.phase = .failing command ∨ site.worker.queue.closed = true :=
  h.trusted.imp_right h.sound.closed

theorem Doomed.reports (h : Doomed broken command told site)
    (hbroken : broken.accepted = broken.reported ++ command :: broken.worker.queue.pending) :
    ∃ queued, broken.worker.queue.pending <+: queued ∧
      site.accepted = broken.reported ++ command :: queued ∧
      ((command :: queued).map Command.id).Nodup ∧
      told <+: (command :: queued).map Command.failure ∧
      (site.worker.phase = .stopped → told = (command :: queued).map Command.failure) := by
  obtain ⟨more, hmore⟩ := h.accepted
  obtain ⟨gone, hreported, rfl⟩ := h.reported
  have haccepted : site.accepted = broken.reported ++ command :: (broken.worker.queue.pending ++ more) := by
    rw [← hmore, hbroken, List.append_assoc, List.cons_append]
  have hqueued : command :: (broken.worker.queue.pending ++ more) = gone ++ site.worker.outstanding := by
    have horder := h.sound.order
    rw [haccepted, hreported, List.append_assoc] at horder
    exact List.append_cancel_left horder
  have hunique := h.sound.unique
  rw [haccepted, List.map_append] at hunique
  refine ⟨_, List.prefix_append _ _, haccepted, (List.nodup_append.1 hunique).2.1, ?_, fun hstopped => ?_⟩
  · rw [hqueued, List.map_append]
    exact List.prefix_append _ _
  · rw [hqueued, h.sound.stopped hstopped, List.append_nil]

theorem Doomed.nearer (h : Doomed broken command told site) (hclosed : site.worker.queue.closed = true)
    (hstep : Step site site') : site'.worker.toStop < site.worker.toStop ∨
      (site'.worker.toStop = site.worker.toStop ∧ site'.worker.phase = site.worker.phase) := by
  cases hstep with
  | push call pushed =>
    obtain ⟨hopen, -⟩ := Worker.push?_eq_some pushed
    simp [hclosed] at hopen
  | work awake step => exact .inl ((Worker.turn step).givenUp h.givenUp).2.2.2
  | announce call | withdraw call => exact .inr ⟨by simp [Worker.toStop], by simp⟩
  | close => exact .inr ⟨rfl, rfl⟩
  | call other fresh | turnDown call closed | wake due | park pops blocked | meanwhile shared =>
    exact .inr ⟨rfl, rfl⟩

/-- A worker that is doomed keeps all the promises, whatever follows. -/
theorem Doomed.failStop (h : Doomed broken command [] broken)
    (hbroken : broken.accepted = broken.reported ++ command :: broken.worker.queue.pending)
    (hrun : broken.Run told site) : broken.FailStop command told site := by
  have hlater := h.run hrun
  refine {
    closed := hlater.closed
    executed := ⟨hlater.executed, fun other job hrunning => ?_⟩
    reports := hlater.reports hbroken
    recorded := fun hsink _ hquiet hown => hquiet.notes h.sound hsink hown
    refuses := fun htold told' later hrun' => ?_
    goesOn := fun hstopped =>
      ⟨hlater.awake, Worker.isSome_step_of_givenUp hlater.givenUp hlater.sound.closed hstopped⟩
    nearer := fun hclosed _ => hlater.nearer hclosed }
  · simpa [hrunning, Phase.GivenUp] using hlater.givenUp
  · have hclosed := hlater.closed.resolve_left fun hnone => htold hnone.1
    exact ⟨(hrun'.keeps_closed hclosed).2, fun n call hlate hcall =>
      hrun'.refuses hlater.sound hclosed hlate hcall⟩

/-- A fault that escapes a dispatch dooms the worker. -/
theorem Breaks.doomed (hbreaks : site.Breaks command broken) (hreachable : Reachable site) :
    Doomed broken command [] broken ∧
      broken.accepted = broken.reported ++ command :: broken.worker.queue.pending := by
  obtain ⟨awake, phase, fault⟩ := hbreaks
  rename_i job shared
  have hstep : Step site { site with
      shared
      worker := { site.worker with phase := .failing command } } := by
    have hturn : site.worker.step? site.shared = some (shared, { site.worker with phase := .failing command }) := by
      simp [Worker.step?, phase, fault]
    simpa [Worker.starting?, Worker.reporting?, phase] using Step.work awake hturn
  have hsound := hreachable.sound.step hstep
  exact ⟨⟨hsound, trivial, .inl ⟨rfl, rfl⟩, awake, rfl, ⟨[], by simp, rfl⟩, List.prefix_rfl⟩, hsound.order⟩

/-- From a fault that escapes a dispatch on, in whatever order the threads round the worker go on, the
worker stops and fails what it had still to do. -/
theorem Breaks.fail_stop (hreachable : Reachable site) (hbreaks : site.Breaks command broken)
    (hrun : broken.Run told later) : broken.FailStop command told later := by
  obtain ⟨hdoomed, hbroken⟩ := hbreaks.doomed hreachable
  exact hdoomed.failStop hbroken hrun

end Runs

/-- A worker without local memory is given a dispatch that wants some and another command after it, and
then a third one while it gives up. -/
theorem fail_stop_greedy : ∃ before broken told later, Reachable before ∧
    before.Breaks Pool.greedyDispatch broken ∧ broken.Run told later ∧
    broken.FailStop Pool.greedyDispatch told later ∧ later.worker.phase = .stopped ∧
    later.calls.map SubmitCall.stage = [.accepted, .accepted, .refused] ∧
    told = [{ command := ⟨0⟩, ending := .exit .abnormal }, { command := ⟨1⟩, ending := .exit .abnormal }] ∧
    later.shared.notes (fun _ => true) = told := by
  have hpushed := Reachable.start Pool.smallArenas { id := 0, core := 0, arena := default } rfl rfl
    |>.step (.call Pool.greedyDispatch (by simp)) |>.step (.announce (n := 0) rfl)
    |>.step (.push (n := 0) rfl rfl)
    |>.step (.call { id := ⟨1⟩, kind := .service .marker } (by simp [Pool.greedyDispatch, Command.task]))
    |>.step (.announce (n := 1) rfl) |>.step (.push (n := 1) rfl rfl)
  have hbefore := hpushed.step (.work rfl rfl) |>.step (.work rfl rfl) |>.step (.work rfl rfl)
    |>.step (.work rfl rfl)
  have hbreaks := (fun {site job shared} (_ : Reachable site) =>
    @Breaks.work site Pool.greedyDispatch job shared) hbefore rfl rfl rfl
  have hclosed := (fun {broken} (_ : Breaks _ _ broken) => @Undisturbed.here (fun _ => true) broken) hbreaks
    |>.quiet (.call { id := ⟨2⟩, kind := .service .marker } (by simp [Pool.greedyDispatch, Command.task]))
    |>.quiet (.announce (n := 2) rfl) |>.quiet (.work rfl rfl)
    |>.quiet (.turnDown (n := 2) rfl rfl) |>.quiet (.withdraw (n := 2) rfl)
  have hreported := hclosed.quiet (.work rfl rfl) |>.turn (.work rfl rfl) (by rintro ⟨⟩)
  have hdrained := hreported.quiet (.work rfl rfl) |>.quiet (.work rfl rfl) |>.turn (.work rfl rfl) (by rintro ⟨⟩)
  have hstopped := hdrained.quiet (.work rfl rfl)
  have hfailStop := hbreaks.fail_stop hbefore hstopped.run
  exact ⟨_, _, _, _, hbefore, hbreaks, hstopped.run, hfailStop, rfl, rfl, rfl,
    hfailStop.recorded rfl _ hstopped (by simp)⟩

end Site

end ComputeCore
