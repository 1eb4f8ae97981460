import ComputeCore.Proofs.Kernel.Custody
import ComputeCore.Proofs.Scheduling.Moves
import ComputeCore.Proofs.Scheduling.Thread
/-!
# What a job does to events

A job is suited to its command if its process only signals events of its own. A step of the job keeps
this up (`Worker.stepJob_suits`), and shows in what it has shared with others what became of the events
that were the process's own. A step of a worker's thread does no more to events than its job does,
except when it completes the event of a command that is over (`Worker.Turn.custody`).
-/

namespace ComputeCore

/-- Host code and kernels of the command only signal events of their own. -/
def Command.Independent (command : Command) : Prop :=
  match command.kind with
  | .service _ | .exec none => True
  | .exec (some body) => body.Independent
  | .ndrange range => range.kernel.Independent

namespace Job

/-- The job is one of the command's, and its process has these events for its own. -/
def Suits (command : Command) (own : Event → Prop) : Job → Prop
  | .fresh => True
  | .native body => body.SignalsOwn own
  | .binding range _ _ => command.isNDRange = true ∧ range.kernel.Independent
  | .scheduling dispatch => command.isNDRange = true ∧ dispatch.kernel.Independent
  | .invoking dispatch _ body =>
    command.isNDRange = true ∧ dispatch.kernel.Independent ∧ body.SignalsOwn own

theorem Suits.mono {own own' : Event → Prop} {command : Command} {job : Job}
    (h : job.Suits command own) (hmore : ∀ event, own event → own' event) : job.Suits command own' := by
  cases job with
  | native body => exact Process.SignalsOwn.mono h hmore
  | invoking dispatch turn body => exact ⟨h.1, h.2.1, h.2.2.mono hmore⟩
  | fresh | binding | scheduling => exact h

/-- The next step of the job links an event under this one. -/
def Links (job : Job) (parent : Event) : Prop :=
  job.request? = some (.newChildEvent parent)

end Job

theorem Shared.Custody.imp_links {shared shared' : Shared} {own own' links links' : Event → Prop}
    (h : shared.Custody shared' own own' links) (himp : ∀ parent, links parent → links' parent) :
    shared.Custody shared' own own' links' := by
  cases h with
  | kept table copies own_eq => exact .kept table copies own_eq
  | made op op_eq events copies own_iff =>
    refine .made op (op_eq.imp_right ?_) events copies own_iff
    rintro ⟨parent, hop, hlinks⟩
    exact ⟨parent, hop, himp parent hlinks⟩
  | started job signal mine table copies own_iff => exact .started job signal mine table copies own_iff

/-- Reports only go to the sink. -/
theorem Shared.report_kept (shared : Shared) (command : CommandId) (ending : Ending) :
    (shared.report command ending).2.events = shared.events ∧
      (shared.report command ending).2.copies = shared.copies := by
  unfold report
  split <;> exact ⟨rfl, rfl⟩

namespace Worker

section Jobs
variable {shared shared' : Shared} {arena : LocalArena} {command : Command} {own : Event → Prop}

/-- The job goes on suited to its command. Only what is no host code ends normally. -/
def JobStep.Suits (command : Command) (own : Event → Prop) : JobStep → Prop
  | .moved _ _ job => job.Suits command own
  | .ended _ ending => ending = .done → ∀ body, command.kind ≠ .exec body
  | .broken _ | .blocked => True

theorem suits_exit {status : Status} : (JobStep.ended shared (.exit status)).Suits command own :=
  fun hdone => by cases hdone

theorem stepProcess_suits {α : Type} {body : Process α} {running : Process α → Shared → JobStep}
    {ended : α → JobStep} {faulted : JobStep} (h : body.SignalsOwn own)
    (hstep : (stepProcess shared command.id body running ended faulted).shared? = some shared')
    (hrunning : ∀ body shared own', body.SignalsOwn own' →
      (running body shared).shared? = some shared ∧ (running body shared).Suits command own')
    (hended : ∀ value, (ended value).shared? = some shared ∧ (ended value).Suits command own)
    (hfaulted : faulted.shared? = some shared ∧ faulted.Suits command own) :
    ∃ own', shared.Custody shared' own own'
        (fun parent => ∃ next, body = .ask (.newChildEvent parent) next) ∧
      (stepProcess shared command.id body running ended faulted).Suits command own' := by
  cases body with
  | done value =>
    obtain rfl : shared = shared' := by simpa [stepProcess, hended] using hstep
    exact ⟨own, .kept rfl rfl rfl, (hended value).2⟩
  | fault fault =>
    obtain rfl : shared = shared' := by simpa [stepProcess, hfaulted] using hstep
    exact ⟨own, .kept rfl rfl rfl, hfaulted.2⟩
  | ask request next =>
    cases hreply : shared.perform command.id request with
    | none => simp [stepProcess, hreply, JobStep.shared?] at hstep
    | some reply =>
      rcases reply with fault | ⟨reply, shared₁⟩
      · obtain ⟨hshared, hsuits⟩ := hrunning (.fault fault) shared own trivial
        obtain rfl : shared = shared' := by simpa [stepProcess, hreply, hshared] using hstep
        simp only [stepProcess, hreply]
        exact ⟨own, .kept rfl rfl rfl, hsuits⟩
      · obtain ⟨own', hnext, hcustody⟩ := h.perform hreply
        obtain ⟨hshared, hsuits⟩ := hrunning (next reply) shared₁ own' hnext
        obtain rfl : shared₁ = shared' := by simpa [stepProcess, hreply, hshared] using hstep
        simp only [stepProcess, hreply]
        refine ⟨own', hcustody.imp_links fun parent heq => ?_, hsuits⟩
        subst heq
        exact ⟨next, rfl⟩

/-- A step of a job leaves a job that is suited to the command, and only touches the process's own
events. -/
theorem stepJob_suits {job : Job} (hcommand : command.Independent) (h : job.Suits command own)
    (hstep : (stepJob shared arena command job).shared? = some shared') :
    ∃ own', shared.Custody shared' own own' job.Links ∧
      (stepJob shared arena command job).Suits command own' := by
  cases job with
  | fresh =>
    unfold Command.Independent at hcommand
    simp only [stepJob, begin] at hstep ⊢
    split at hstep
    · rename_i service hkind
      split at hstep <;> cases hstep <;> refine ⟨own, .kept rfl rfl rfl, ?_⟩
      · exact fun _ body => by simp [hkind]
      · exact suits_exit
      · trivial
    · cases hstep
      exact ⟨own, .kept rfl rfl rfl, suits_exit⟩
    · rename_i body hkind
      rw [hkind] at hcommand
      cases hstep
      exact ⟨own, .kept rfl rfl rfl, .of_independent hcommand⟩
    · rename_i range hkind
      rw [hkind] at hcommand
      cases hstep
      exact ⟨own, .kept rfl rfl rfl, by simp [Command.isNDRange, hkind], hcommand⟩
  | native body =>
    simp only [stepJob] at hstep ⊢
    obtain ⟨own', hcustody, hsuits⟩ := stepProcess_suits h hstep
      (fun body shared own' hbody => ⟨rfl, hbody⟩) (fun value => ⟨rfl, suits_exit⟩) ⟨rfl, suits_exit⟩
    refine ⟨own', hcustody.imp_links ?_, hsuits⟩
    rintro parent ⟨next, rfl⟩
    rfl
  | binding range params args =>
    obtain ⟨hrange, hkernel⟩ := h
    cases params with
    | nil =>
      simp only [stepJob] at hstep ⊢
      cases hcreate : Dispatch.create range args with
      | error fault =>
        rw [hcreate] at hstep
        cases hstep
        exact ⟨own, .kept rfl rfl rfl, trivial⟩
      | ok dispatch =>
        rw [hcreate] at hstep
        cases hstep
        exact ⟨own, .kept rfl rfl rfl, hrange, (Dispatch.create_args hcreate).1 ▸ hkernel⟩
    | cons param params =>
      simp only [stepJob] at hstep ⊢
      cases hbind : Dispatch.bindArg shared.memory param with
      | none =>
        rw [hbind] at hstep
        cases hstep
        exact ⟨own, .kept rfl rfl rfl, suits_exit⟩
      | some arg =>
        rw [hbind] at hstep
        cases hstep
        exact ⟨own, .kept rfl rfl rfl, hrange, hkernel⟩
  | scheduling dispatch =>
    obtain ⟨hrange, hkernel⟩ := h
    simp only [stepJob] at hstep ⊢
    split at hstep <;> cases hstep <;> refine ⟨own, .kept rfl rfl rfl, ?_⟩
    · rename_i next arena' hmoved
      exact ⟨hrange, (Dispatch.move_of_step hmoved).kernel_eq ▸ hkernel⟩
    · exact ⟨hrange, hkernel, .of_independent (hkernel _ _)⟩
    · intro _ body hkind
      simp [Command.isNDRange, hkind] at hrange
    · trivial
  | invoking dispatch turn body =>
    obtain ⟨hrange, hkernel, hbody⟩ := h
    simp only [stepJob] at hstep ⊢
    obtain ⟨own', hcustody, hsuits⟩ := stepProcess_suits hbody hstep
      (fun body shared own' hbody => ⟨rfl, hrange, hkernel, hbody⟩)
      (fun ended => by
        obtain ⟨outcome, frame⟩ := ended
        dsimp only
        split
        · rename_i next haccept
          obtain ⟨remaining, frames, finished, rfl⟩ := Dispatch.goOn_of_accept haccept
          exact ⟨rfl, hrange, hkernel⟩
        · exact ⟨rfl, suits_exit⟩
        · exact ⟨rfl, trivial⟩) ⟨rfl, suits_exit⟩
    refine ⟨own', hcustody.imp_links ?_, hsuits⟩
    rintro parent ⟨next, rfl⟩
    rfl

end Jobs

/-! ## Threads -/

/-- What the worker is running is suited to its command. -/
def Suits (worker : Worker) (own : Event → Prop) : Prop :=
  ∀ command job, worker.phase = .running command job → job.Suits command own

/-- The next step of the worker links an event under this one. -/
def Links (worker : Worker) (parent : Event) : Prop :=
  ∃ command job, worker.phase = .running command job ∧ job.Links parent

section Threads
variable {shared shared' : Shared} {worker worker' : Worker} {own own' : Event → Prop}

theorem Suits.mono (h : worker.Suits own) (hmore : ∀ event, own event → own' event) :
    worker.Suits own' :=
  fun command job hphase => (h command job hphase).mono hmore

/-- A step of a worker only touches the events its process has for its own, unless it completes the
event of a command that is over. -/
theorem Turn.custody (hturn : Turn shared worker shared' worker') (h : worker.Suits own)
    (hindependent : ∀ command ∈ worker.phase.inHand, command.Independent) :
    (∃ own', shared.Custody shared' own own' worker.Links ∧ worker'.Suits own') ∨
      ∃ command healthy, worker.phase = .completing command healthy ∧
        shared' = shared.complete command.event ∧
          worker' = { worker with phase := afterReport healthy } := by
  have hjob : ∀ command job, worker.phase = .running command job →
      (stepJob shared worker.arena command job).shared? = some shared' → ∃ own',
        shared.Custody shared' own own' worker.Links ∧
          (stepJob shared worker.arena command job).Suits command own' := by
    intro command job hphase hstep
    obtain ⟨own', hcustody, hsuits⟩ :=
      stepJob_suits (hindependent command (by rw [hphase]; rfl)) (h command job hphase) hstep
    exact ⟨own', hcustody.imp_links fun parent hlinks => ⟨command, job, hphase, hlinks⟩, hsuits⟩
  cases hturn with
  | complete phase => exact .inr ⟨_, _, phase, rfl, rfl⟩
  | go phase step =>
    obtain ⟨own', hcustody, hsuits⟩ := hjob _ _ phase (congrArg JobStep.shared? step)
    refine .inl ⟨own', hcustody, fun command job hrunning => ?_⟩
    rw [step] at hsuits
    cases hrunning
    exact hsuits
  | finish phase step | breakDown phase step =>
    obtain ⟨own', hcustody, -⟩ := hjob _ _ phase (congrArg JobStep.shared? step)
    exact .inl ⟨own', hcustody, fun command job hrunning => by cases hrunning⟩
  | start phase pending =>
    refine .inl ⟨own, .kept rfl rfl rfl, fun command job hrunning => ?_⟩
    cases hrunning
    trivial
  | stop phase pending closed | giveUp phase | uncount phase | fail phase pending =>
    exact .inl ⟨own, .kept rfl rfl rfl, fun command job hrunning => by cases hrunning⟩
  | report phase =>
    rename_i command ending healthy
    obtain ⟨hevents, hcopies⟩ := shared.report_kept command.id ending
    refine .inl ⟨own, .kept (congrArg WaitList.table hevents) hcopies rfl, ?_⟩
    intro command job hrunning
    dsimp only at hrunning
    split at hrunning
    · cases hrunning
    · cases healthy <;> cases hrunning

/-- Host code never ends normally. -/
theorem Turn.not_native {command : Command} {healthy : Bool} (hturn : Turn shared worker shared' worker')
    (h : worker.Suits own) (hindependent : ∀ command ∈ worker.phase.inHand, command.Independent)
    (hdone : worker'.phase = .uncounting command .done healthy) (body : Option (Process Status)) :
    command.kind ≠ .exec body := by
  cases hturn with
  | finish phase step =>
    cases hdone
    obtain ⟨own', -, hsuits⟩ := stepJob_suits (hindependent command (by rw [phase]; rfl))
      (h command _ phase) (congrArg JobStep.shared? step)
    rw [step] at hsuits
    exact hsuits rfl body
  | report phase =>
    rename_i reported ending trusted
    dsimp only at hdone
    split at hdone
    · cases hdone
    · cases trusted <;> cases hdone
  | complete phase =>
    rename_i completed trusted
    cases trusted <;> cases hdone
  | start phase pending | stop phase pending closed | go phase step | breakDown phase step
  | giveUp phase | uncount phase | fail phase pending => cases hdone

end Threads

end Worker

end ComputeCore
