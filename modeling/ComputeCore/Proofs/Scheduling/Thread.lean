import ComputeCore.Scheduling.Worker
/-!
# A worker's thread

What one step of a worker does to the commands it has accepted. They are its queue and the command it
has in hand, and a step loses none of them: what is outstanding after a step, with the command the
step reports in front, is what was outstanding before (`Worker.outstanding_step`). Only a worker that
still trusts itself starts a command, and one that does not has closed its queue.
-/

namespace ComputeCore

/-! ## What a worker has in hand -/

namespace Phase

/-- The command that was taken out of the queue and is not reported yet. -/
def inHand : Phase → Option Command
  | .running command _ | .failing command | .uncounting command _ _ | .reporting command _ _ =>
    some command
  | _ => none

/-- No fault has made the worker give up. -/
def trusted : Phase → Bool
  | .uncounting _ _ healthy | .reporting _ _ healthy | .completing _ healthy => healthy
  | .draining | .stopped => false
  | _ => true

/-- The thread is in `pop`: it takes the next command out, or sleeps until there is one. -/
def Pops : Phase → Prop
  | .fetching | .draining => True
  | _ => False

end Phase

namespace Worker

/-- What was accepted and is not reported, first come first. -/
def outstanding (worker : Worker) : List Command :=
  worker.phase.inHand.toList ++ worker.queue.pending

/-- The command whose end the next step reports to the sink. -/
def reporting? (worker : Worker) : Option Command :=
  match worker.phase with
  | .reporting command _ _ => some command
  | _ => none

/-- What the next step tells the sink. -/
def report? (worker : Worker) : Option Report :=
  match worker.phase with
  | .reporting command ending _ => some { command := command.id, ending }
  | _ => none

/-- The command whose execution the next step begins. -/
def starting? (worker : Worker) : Option Command :=
  match worker.phase with
  | .fetching => worker.queue.pending.head?
  | _ => none

theorem command_report? (worker : Worker) :
    worker.report?.map Report.command = worker.reporting?.map Command.id := by
  cases hphase : worker.phase <;> simp [report?, reporting?, hphase]

@[simp] theorem queue_announce (worker : Worker) : worker.announce.queue = worker.queue := by
  cases worker; rfl

@[simp] theorem queue_withdraw (worker : Worker) : worker.withdraw.queue = worker.queue := by
  cases worker; rfl

@[simp] theorem phase_announce (worker : Worker) : worker.announce.phase = worker.phase := by
  cases worker; rfl

@[simp] theorem phase_withdraw (worker : Worker) : worker.withdraw.phase = worker.phase := by
  cases worker; rfl

@[simp] theorem trusted_afterReport (healthy : Bool) : (afterReport healthy).trusted = healthy := by
  cases healthy <;> rfl

@[simp] theorem inHand_afterReport (healthy : Bool) : (afterReport healthy).inHand = none := by
  cases healthy <;> rfl

theorem afterReport_ne_stopped (healthy : Bool) : afterReport healthy ≠ .stopped := by
  cases healthy <;> simp [afterReport]

/-! ## One step -/

/-- One step of the thread, by the phase it is taken in. -/
inductive Turn (shared : Shared) (worker : Worker) : Shared → Worker → Prop
  | start {command : Command} {rest : List Command} (phase : worker.phase = .fetching)
      (pending : worker.queue.pending = command :: rest) :
      Turn shared worker shared { worker with
        queue := { worker.queue with pending := rest }
        phase := .running command .fresh }
  | stop (phase : worker.phase.Pops) (pending : worker.queue.pending = [])
      (closed : worker.queue.closed = true) :
      Turn shared worker shared { worker with phase := .stopped }
  | go {command : Command} {job job' : Job} {shared' : Shared} {arena : LocalArena}
      (phase : worker.phase = .running command job)
      (step : stepJob shared worker.arena command job = .moved shared' arena job') :
      Turn shared worker shared' { worker with arena, phase := .running command job' }
  | finish {command : Command} {job : Job} {shared' : Shared} {ending : Ending}
      (phase : worker.phase = .running command job)
      (step : stepJob shared worker.arena command job = .ended shared' ending) :
      Turn shared worker shared' { worker with phase := .uncounting command ending true }
  | breakDown {command : Command} {job : Job} {shared' : Shared}
      (phase : worker.phase = .running command job)
      (step : stepJob shared worker.arena command job = .broken shared') :
      Turn shared worker shared' { worker with phase := .failing command }
  | giveUp {command : Command} (phase : worker.phase = .failing command) :
      Turn shared worker shared
        { worker.close with phase := .uncounting command (.exit .abnormal) false }
  | uncount {command : Command} {ending : Ending} {healthy : Bool}
      (phase : worker.phase = .uncounting command ending healthy) :
      Turn shared worker shared { worker.withdraw with phase := .reporting command ending healthy }
  | report {command : Command} {ending : Ending} {healthy : Bool}
      (phase : worker.phase = .reporting command ending healthy) :
      Turn shared worker (shared.report command.id ending).2 { worker with
        phase := if (shared.report command.id ending).1 then .completing command healthy
          else afterReport healthy }
  | complete {command : Command} {healthy : Bool} (phase : worker.phase = .completing command healthy) :
      Turn shared worker (shared.complete command.event) { worker with phase := afterReport healthy }
  | fail {command : Command} {rest : List Command} (phase : worker.phase = .draining)
      (pending : worker.queue.pending = command :: rest) :
      Turn shared worker shared { worker with
        queue := { worker.queue with pending := rest }
        phase := .uncounting command (.exit .abnormal) false }

/-- All that a step of the thread can do to the queue and the command in hand. -/
inductive Shift (worker worker' : Worker) : Prop where
  /-- It begins the first command of the queue. -/
  | start (command : Command) (rest : List Command) (phase : worker.phase = .fetching)
      (pending : worker.queue.pending = command :: rest)
      (queue' : worker'.queue = { worker.queue with pending := rest })
      (phase' : worker'.phase = .running command .fresh)
  /-- It takes the first command of the queue out to fail it. -/
  | fail (command : Command) (rest : List Command) (phase : worker.phase = .draining)
      (pending : worker.queue.pending = command :: rest)
      (queue' : worker'.queue = { worker.queue with pending := rest })
      (phase' : worker'.phase = .uncounting command (.exit .abnormal) false)
  /-- It stops, as nothing more can come. -/
  | stop (phase : worker.phase.Pops) (pending : worker.queue.pending = [])
      (closed : worker.queue.closed = true) (queue' : worker'.queue = worker.queue)
      (phase' : worker'.phase = .stopped)
  /-- It goes on with the command in hand. -/
  | carry (command : Command) (inHand : worker.phase.inHand = some command)
      (reporting : worker.reporting? = none) (starting : worker.starting? = none)
      (queue' : worker'.queue = worker.queue)
      (inHand' : worker'.phase.inHand = some command)
      (trusted' : worker'.phase.trusted = worker.phase.trusted)
  /-- It gives up: it closes its queue before it reports the command in hand. -/
  | giveUp (command : Command) (phase : worker.phase = .failing command)
      (queue' : worker'.queue = worker.queue.close)
      (phase' : worker'.phase = .uncounting command (.exit .abnormal) false)
  /-- It reports the command in hand. -/
  | report (command : Command) (ending : Ending) (healthy : Bool)
      (phase : worker.phase = .reporting command ending healthy)
      (queue' : worker'.queue = worker.queue) (inHand' : worker'.phase.inHand = none)
      (trusted' : worker'.phase.trusted = healthy) (running' : worker'.phase ≠ .stopped)
  /-- It completes the event of the command it has reported. -/
  | complete (command : Command) (healthy : Bool) (phase : worker.phase = .completing command healthy)
      (queue' : worker'.queue = worker.queue) (phase' : worker'.phase = afterReport healthy)

section Steps
variable {shared shared' : Shared} {worker worker' : Worker}

theorem push?_eq_some {queue queue' : CommandQueue} {command : Command}
    (h : queue.push? command = some queue') :
    queue.closed = false ∧ queue' = { queue with pending := queue.pending ++ [command] } := by
  unfold CommandQueue.push? at h
  split at h
  · cases h
  · next hopen =>
    cases h
    exact ⟨by simpa using hopen, rfl⟩

theorem pop?_cases (queue : CommandQueue) :
    (∃ command rest, queue.pending = command :: rest ∧
      queue.pop? = some (command, { queue with pending := rest })) ∨
    (queue.pending = [] ∧ queue.pop? = none) := by
  unfold CommandQueue.pop?
  cases hpending : queue.pending with
  | nil => exact .inr ⟨rfl, rfl⟩
  | cons command rest => exact .inl ⟨command, rest, rfl, rfl⟩

theorem turn (h : worker.step? shared = some (shared', worker')) :
    Turn shared worker shared' worker' := by
  unfold step? at h
  cases hphase : worker.phase with
  | fetching =>
    simp only [hphase] at h
    rcases pop?_cases worker.queue with ⟨command, rest, hpending, hpop⟩ | ⟨hpending, hpop⟩
    · simp only [hpop, Option.some.injEq, Prod.mk.injEq] at h
      obtain ⟨rfl, rfl⟩ := h
      exact .start hphase hpending
    · -- An empty queue is left only once it is closed.
      simp only [hpop, Option.ite_none_right_eq_some, Option.some.injEq, Prod.mk.injEq] at h
      obtain ⟨hclosed, rfl, rfl⟩ := h
      exact .stop (by simp [hphase, Phase.Pops]) hpending hclosed
  | running command job =>
    simp only [hphase] at h
    cases hstep : stepJob shared worker.arena command job with
    | blocked => simp [hstep] at h
    | moved shared₁ arena job' =>
      simp only [hstep, Option.some.injEq, Prod.mk.injEq] at h
      obtain ⟨rfl, rfl⟩ := h
      exact .go hphase hstep
    | ended shared₁ ending =>
      simp only [hstep, Option.some.injEq, Prod.mk.injEq] at h
      obtain ⟨rfl, rfl⟩ := h
      exact .finish hphase hstep
    | broken shared₁ =>
      simp only [hstep, Option.some.injEq, Prod.mk.injEq] at h
      obtain ⟨rfl, rfl⟩ := h
      exact .breakDown hphase hstep
  | failing command =>
    simp only [hphase, Option.some.injEq, Prod.mk.injEq] at h
    obtain ⟨rfl, rfl⟩ := h
    exact .giveUp hphase
  | uncounting command ending healthy =>
    simp only [hphase, Option.some.injEq, Prod.mk.injEq] at h
    obtain ⟨rfl, rfl⟩ := h
    exact .uncount hphase
  | reporting command ending healthy =>
    simp only [hphase, Option.some.injEq, Prod.mk.injEq] at h
    obtain ⟨rfl, rfl⟩ := h
    exact .report hphase
  | completing command healthy =>
    simp only [hphase, Option.some.injEq, Prod.mk.injEq] at h
    obtain ⟨rfl, rfl⟩ := h
    exact .complete hphase
  | draining =>
    simp only [hphase] at h
    rcases pop?_cases worker.queue with ⟨command, rest, hpending, hpop⟩ | ⟨hpending, hpop⟩
    · simp only [hpop, Option.some.injEq, Prod.mk.injEq] at h
      obtain ⟨rfl, rfl⟩ := h
      exact .fail hphase hpending
    · simp only [hpop, Option.ite_none_right_eq_some, Option.some.injEq, Prod.mk.injEq] at h
      obtain ⟨hclosed, rfl, rfl⟩ := h
      exact .stop (by simp [hphase, Phase.Pops]) hpending hclosed
  | stopped => simp [hphase] at h

theorem shift (h : worker.step? shared = some (shared', worker')) : Shift worker worker' := by
  cases turn h with
  | start phase pending => exact .start _ _ phase pending rfl rfl
  | stop phase pending closed => exact .stop phase pending closed rfl rfl
  | go phase step | finish phase step | breakDown phase step =>
    -- The job goes on, ends or breaks: the command stays in hand.
    exact .carry _ (by rw [phase]; rfl) (by simp [reporting?, phase]) (by simp [starting?, phase]) rfl rfl
      (by rw [phase]; rfl)
  | giveUp phase => exact .giveUp _ phase rfl rfl
  | uncount phase =>
    exact .carry _ (by rw [phase]; rfl) (by simp [reporting?, phase]) (by simp [starting?, phase])
      (by simp) rfl (by rw [phase]; rfl)
  | report phase =>
    rename_i command ending healthy
    -- The sink only decides who completes the event.
    cases (shared.report command.id ending).1 with
    | true => exact .report command ending healthy phase rfl rfl rfl nofun
    | false =>
      exact .report command ending healthy phase rfl (inHand_afterReport healthy)
        (trusted_afterReport healthy) (afterReport_ne_stopped healthy)
  | complete phase => exact .complete _ _ phase rfl rfl
  | fail phase pending => exact .fail _ _ phase pending rfl rfl

/-! ## What is outstanding -/

/-- A step loses no command: what it reports and what is outstanding afterwards is what was
outstanding before, in this order. -/
theorem outstanding_step (h : worker.step? shared = some (shared', worker')) :
    worker.outstanding = worker.reporting?.toList ++ worker'.outstanding := by
  unfold outstanding
  cases shift h with
  | start command rest phase pending queue' phase' =>
    simp [phase, pending, queue', phase', Phase.inHand, reporting?]
  | fail command rest phase pending queue' phase' =>
    simp [phase, pending, queue', phase', Phase.inHand, reporting?]
  | stop phase pending closed queue' phase' =>
    cases hphase : worker.phase <;> simp [hphase, Phase.Pops] at phase <;>
      simp [hphase, queue', phase', Phase.inHand, reporting?]
  | carry command inHand reporting starting queue' inHand' trusted' =>
    simp [inHand, reporting, queue', inHand']
  | giveUp command phase queue' phase' =>
    simp [phase, queue', phase', Phase.inHand, reporting?, CommandQueue.close]
  | report command ending healthy phase queue' inHand' =>
    have hreporting : worker.reporting? = some command := by simp [reporting?, phase]
    have hinHand : worker.phase.inHand = some command := by rw [phase]; rfl
    simp [hreporting, hinHand, queue', inHand']
  | complete command healthy phase queue' phase' =>
    have hreporting : worker.reporting? = none := by simp [reporting?, phase]
    have hinHand : worker.phase.inHand = none := by rw [phase]; rfl
    simp [hreporting, hinHand, queue', phase']

/-- A worker that trusts itself takes commands out only to start them. One that does not never starts
a command, and never trusts itself again. -/
theorem pending_step (h : worker.step? shared = some (shared', worker')) :
    (worker.phase.trusted = true ∧
      worker.queue.pending = worker.starting?.toList ++ worker'.queue.pending) ∨
    (worker.phase.trusted = false ∧ worker'.phase.trusted = false ∧ worker.starting? = none ∧
      worker'.queue.pending <:+ worker.queue.pending) := by
  cases shift h with
  | start command rest phase pending queue' phase' =>
    exact .inl ⟨by rw [phase]; rfl, by simp [starting?, phase, pending, queue']⟩
  | fail command rest phase pending queue' phase' =>
    refine .inr ⟨by rw [phase]; rfl, by rw [phase']; rfl, by simp [starting?, phase], ?_⟩
    rw [queue', pending]
    exact List.suffix_cons command rest
  | stop phase pending closed queue' phase' =>
    cases hphase : worker.phase with
    | fetching => exact .inl ⟨rfl, by simp [starting?, hphase, pending, queue']⟩
    | draining =>
      exact .inr ⟨rfl, by rw [phase']; rfl, by simp [starting?, hphase], queue' ▸ List.suffix_rfl⟩
    | _ => simp [hphase, Phase.Pops] at phase
  | carry command inHand reporting starting queue' inHand' trusted' =>
    rw [starting, queue']
    cases htrusted : worker.phase.trusted with
    | true => exact .inl ⟨rfl, rfl⟩
    | false => exact .inr ⟨rfl, trusted' ▸ htrusted, rfl, List.suffix_rfl⟩
  | giveUp command phase queue' phase' =>
    exact .inl ⟨by rw [phase]; rfl, by simp [starting?, phase, queue', CommandQueue.close]⟩
  | report command ending healthy phase queue' inHand' trusted' running' =>
    rw [queue']
    cases healthy with
    | true => exact .inl ⟨by rw [phase]; rfl, by simp [starting?, phase]⟩
    | false => exact .inr ⟨by rw [phase]; rfl, trusted', by simp [starting?, phase], List.suffix_rfl⟩
  | complete command healthy phase queue' phase' =>
    rw [queue']
    cases healthy with
    | true => exact .inl ⟨by rw [phase]; rfl, by simp [starting?, phase]⟩
    | false =>
      exact .inr ⟨by rw [phase]; rfl, by rw [phase']; rfl, by simp [starting?, phase], List.suffix_rfl⟩

theorem closed_step (h : worker.step? shared = some (shared', worker'))
    (hclosed : worker.queue.closed = true) : worker'.queue.closed = true := by
  cases shift h <;> simp_all [CommandQueue.close]

/-- A worker gives up and stops only when its queue is closed. -/
theorem closed_of_distrust (h : worker.step? shared = some (shared', worker'))
    (hclosed : worker.phase.trusted = false → worker.queue.closed = true)
    (hdistrust : worker'.phase.trusted = false) : worker'.queue.closed = true := by
  cases htrusted : worker.phase.trusted with
  | false => exact closed_step h (hclosed htrusted)
  | true =>
    -- Trust is lost by giving up, which closes the queue, or by stopping, which needs it closed.
    cases shift h with
    | start command rest phase pending queue' phase' => simp [phase', Phase.trusted] at hdistrust
    | fail command rest phase pending queue' phase' => simp [phase, Phase.trusted] at htrusted
    | stop phase pending closed queue' phase' => exact queue' ▸ closed
    | carry command inHand reporting starting queue' inHand' trusted' =>
      simp [trusted', htrusted] at hdistrust
    | giveUp command phase queue' phase' => simp [queue', CommandQueue.close]
    | report command ending healthy phase queue' inHand' trusted' running' =>
      simp only [phase, Phase.trusted] at htrusted
      simp [trusted', htrusted] at hdistrust
    | complete command healthy phase queue' phase' =>
      simp only [phase, Phase.trusted] at htrusted
      rw [phase', trusted_afterReport, htrusted] at hdistrust
      exact nomatch hdistrust

theorem outstanding_of_stopped (h : worker.step? shared = some (shared', worker'))
    (hstopped : worker'.phase = .stopped) : worker'.outstanding = [] := by
  cases shift h with
  | start command rest phase pending queue' phase' => simp [phase'] at hstopped
  | fail command rest phase pending queue' phase' => simp [phase'] at hstopped
  | stop phase pending closed queue' phase' =>
    simp [outstanding, hstopped, Phase.inHand, queue', pending]
  | carry command inHand reporting starting queue' inHand' trusted' =>
    simp [hstopped, Phase.inHand] at inHand'
  | giveUp command phase queue' phase' => simp [phase'] at hstopped
  | report command ending healthy phase queue' inHand' trusted' running' =>
    exact absurd hstopped running'
  | complete command healthy phase queue' phase' =>
    exact absurd (phase' ▸ hstopped) (afterReport_ne_stopped healthy)

/-- A thread in `pop` that has to wait waits for a command or for the queue to be closed. -/
theorem pop_blocked (hpops : worker.phase.Pops) (h : worker.step? shared = none) :
    worker.queue.pending = [] ∧ worker.queue.closed = false := by
  rcases pop?_cases worker.queue with ⟨command, rest, hpending, hpop⟩ | ⟨hpending, hpop⟩
  · cases hphase : worker.phase <;> simp [hphase, Phase.Pops] at hpops <;>
      simp [step?, hphase, hpop] at h
  · refine ⟨hpending, ?_⟩
    cases hphase : worker.phase <;> simp [hphase, Phase.Pops] at hpops <;>
      simpa [step?, hphase, hpop] using h

end Steps

end Worker

/-! ## What the sink is told -/

/-- Requests tell the sink nothing, and leave everything mapped where it is. -/
theorem Shared.perform_kept {shared shared' : Shared} {command : CommandId} {request : Request}
    {reply : request.Reply} (h : shared.perform command request = some (.ok (reply, shared'))) :
    shared'.reports = shared.reports ∧ shared'.sink = shared.sink ∧
      shared'.statuses = shared.statuses ∧ shared'.memory.mappings = shared.memory.mappings := by
  cases request with
  | newChildEvent | acquireLock | leaveWait | pass | spend =>
    simp only [perform] at h
    split at h <;> cases h <;> exact ⟨rfl, rfl, rfl, rfl⟩
  | _ =>
    cases h
    exact ⟨rfl, rfl, rfl, rfl⟩

/-- The request a job makes in its next step. -/
def Job.request? : Job → Option Request
  | .native (.ask request _) | .invoking _ _ (.ask request _) => some request
  | _ => none

namespace Worker

section Reports
variable {shared shared' : Shared} {worker worker' : Worker} {arena : LocalArena} {command : Command}

/-- The shared state a step of a job leaves behind. -/
def JobStep.shared? : JobStep → Option Shared
  | .moved shared _ _ | .ended shared _ | .broken shared => some shared
  | .blocked => none

theorem stepProcess_shared {α : Type} {body : Process α} {running : Process α → Shared → JobStep}
    {ended : α → JobStep} {faulted : JobStep}
    (hrunning : ∀ body shared₁, (running body shared₁).shared? = some shared₁)
    (hended : ∀ value, (ended value).shared? = some shared) (hfaulted : faulted.shared? = some shared)
    (h : (stepProcess shared command.id body running ended faulted).shared? = some shared') :
    shared' = shared ∨ ∃ (request : Request) (next : request.Reply → Process α) (reply : request.Reply),
      body = .ask request next ∧ shared.perform command.id request = some (.ok (reply, shared')) := by
  cases body with
  | done value => exact .inl (by simpa [stepProcess, hended] using h.symm)
  | fault fault => exact .inl (by simpa [stepProcess, hfaulted] using h.symm)
  | ask request next =>
    cases hreply : shared.perform command.id request with
    | none => simp [stepProcess, hreply, JobStep.shared?] at h
    | some reply =>
      rcases reply with fault | ⟨reply, shared₁⟩
      · exact .inl (by simpa [stepProcess, hreply, hrunning] using h.symm)
      · obtain rfl : shared₁ = shared' := by simpa [stepProcess, hreply, hrunning] using h
        exact .inr ⟨request, next, reply, rfl, hreply⟩

/-- All that a step of a job does to the shared state: a service moves bytes, and a process has a
request carried out. -/
theorem stepJob_shared {job : Job} (h : (stepJob shared arena command job).shared? = some shared') :
    shared' = shared ∨
    (∃ service memory hostBuffers, command.kind = .service service ∧
      shared' = { shared with memory, hostBuffers }) ∨
    ∃ (request : Request) (reply : request.Reply), job.request? = some request ∧
      shared.perform command.id request = some (.ok (reply, shared')) := by
  cases job with
  | fresh =>
    simp only [stepJob, begin] at h
    split at h
    · rename_i service hkind
      refine .inr (.inl ⟨service, (service.execute shared.memory shared.hostBuffers).2.1,
        (service.execute shared.memory shared.hostBuffers).2.2, hkind, ?_⟩)
      split at h <;> cases h <;> rfl
    all_goals
      cases h
      exact .inl rfl
  | native body =>
    simp only [stepJob] at h
    refine (stepProcess_shared (fun _ _ => rfl) (fun _ => rfl) rfl h).imp_right fun hasks => ?_
    obtain ⟨request, next, reply, rfl, hreply⟩ := hasks
    exact .inr ⟨request, reply, rfl, hreply⟩
  | binding range params args =>
    cases params <;> simp only [stepJob] at h <;> split at h <;> cases h <;> exact .inl rfl
  | scheduling dispatch =>
    simp only [stepJob] at h
    split at h <;> cases h <;> exact .inl rfl
  | invoking dispatch turn body =>
    simp only [stepJob] at h
    refine (stepProcess_shared (fun _ _ => rfl) (fun (outcome, frame) => ?_) rfl h).imp_right
      fun hasks => ?_
    · obtain ⟨request, next, reply, rfl, hreply⟩ := hasks
      exact .inr ⟨request, reply, rfl, hreply⟩
    · simp only
      split <;> rfl

theorem stepJob_kept {job : Job} (h : (stepJob shared arena command job).shared? = some shared') :
    shared'.reports = shared.reports ∧ shared'.sink = shared.sink ∧
      shared'.statuses = shared.statuses := by
  obtain rfl | ⟨service, memory, hostBuffers, -, rfl⟩ | ⟨request, reply, -, hreply⟩ := stepJob_shared h
  · exact ⟨rfl, rfl, rfl⟩
  · exact ⟨rfl, rfl, rfl⟩
  · obtain ⟨hreports, hsink, hstatuses, -⟩ := Shared.perform_kept hreply
    exact ⟨hreports, hsink, hstatuses⟩

/-- A step of the thread tells a recorder what it reports, and leaves its notes alone otherwise. -/
theorem reports_step (h : worker.step? shared = some (shared', worker'))
    (hsink : shared.sink = .recorder) : shared'.sink = .recorder ∧
      shared'.reports.toList = shared.reports.toList ++ worker.report?.toList := by
  cases turn h with
  | go phase step | finish phase step | breakDown phase step =>
    obtain ⟨hreports, hsink', -⟩ := stepJob_kept (congrArg JobStep.shared? step)
    simp [hreports, hsink', hsink, report?, phase]
  | report phase => simp [Shared.report, hsink, report?, phase]
  | complete phase =>
    rename_i command healthy
    cases command.event <;> simp [Shared.complete, report?, phase, hsink]
  | stop phase pending closed =>
    have hreport : worker.report? = none := by
      cases hphase : worker.phase <;> simp [hphase, Phase.Pops] at phase <;> simp [report?, hphase]
    simp [hreport, hsink]
  | start phase pending | fail phase pending | giveUp phase | uncount phase =>
    simp [report?, phase, hsink]

end Reports

end Worker

end ComputeCore
