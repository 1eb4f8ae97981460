import ComputeCore.Proofs.Scheduling.Duties
import ComputeCore.Proofs.Scheduling.History
/-!
# Calls, workers and the history

Whoever has a command knows how much the history says of it: nothing, as long as the command is
waiting or being carried out; its end, once that is over; and its status as well by the time that its
event is completed. `Host.Ledger` keeps this for all workers, and with it that a command that was
accepted is still in the hands of a worker or settled.
-/

namespace ComputeCore

open History

/-! ## Workers -/

/-- What the history says of the command a worker has in hand. -/
def Phase.Told (log : List Happening) : Phase → Prop
  | .running command _ | .failing command => Untold log command.id
  | .uncounting command ending _ | .reporting command ending _ =>
    .finished command.id ending ∈ log ∧ ∀ status, .recorded command.id status ∉ log
  | .completing command _ => Settled log command.id
  | _ => True

namespace Worker

/-- What the history says of the commands before the worker. -/
structure Told (worker : Worker) (log : List Happening) : Prop where
  phase : worker.phase.Told log
  pending : ∀ command ∈ worker.queue.pending, Untold log command.id

/-- What a step of a worker adds to the history. -/
inductive Telling (log : List Happening) (shared shared' : Shared) (worker worker' : Worker) : Prop
  | silent (tells : worker.tells? worker' = none) (told : worker'.Told log)
      (statuses : shared'.statuses = shared.statuses)
  /-- A command is over. -/
  | finishes (command : Command) (ending : Ending) (healthy : Bool) (here : command ∈ worker.pipeline)
      (phase : worker'.phase = .uncounting command ending healthy)
      (tells : worker.tells? worker' = some (.finished command.id ending))
      (untold : Untold log command.id) (told : worker'.Told (log ++ [.finished command.id ending]))
      (statuses : shared'.statuses = shared.statuses)
  /-- A status is recorded. -/
  | records (command : Command) (status : Status) (here : command ∈ worker.pipeline)
      (tells : worker.tells? worker' = some (.recorded command.id status))
      (finished : .finished command.id (.exit status) ∈ log)
      (first : ∀ status, .recorded command.id status ∉ log)
      (told : worker'.Told (log ++ [.recorded command.id status]))
      (statuses : shared'.statuses = shared.statuses.insert command.id status)

section Steps
variable {shared shared' : Shared} {worker worker' : Worker} {log more : List Happening}
  {command : Command} {ending : Ending} {rest : List Command}

theorem Told.append (h : worker.Told log)
    (hmore : ∀ command ∈ worker.pipeline, Untold more command.id) :
    worker.Told (log ++ more) := by
  have hinHand : ∀ {command}, worker.phase.inHand = some command → command ∈ worker.pipeline :=
    fun hcommand => pipeline_of_inHand hcommand ▸ List.mem_cons_self
  refine ⟨?_, fun command hcommand => (h.pending command hcommand).append (hmore command ?_)⟩
  · have hphase := h.phase
    cases heq : worker.phase with
    | running command job | failing command =>
      rw [heq] at hphase
      exact Untold.append hphase (hmore command (hinHand (by rw [heq]; rfl)))
    | uncounting command ending healthy | reporting command ending healthy =>
      rw [heq] at hphase
      obtain ⟨hfinished, hrecorded⟩ := hphase
      refine ⟨List.mem_append_left _ hfinished, fun status hmem => ?_⟩
      rcases List.mem_append.1 hmem with hold | hnew
      · exact hrecorded status hold
      · exact hmore command (hinHand (by rw [heq]; rfl)) _ hnew rfl
    | completing command healthy =>
      rw [heq] at hphase
      exact Settled.append hphase more
    | fetching | draining | stopped => trivial
  · rw [pipeline_eq]
    exact List.mem_append_right _ hcommand

theorem untold_finished {other : CommandId} (hne : other ≠ command.id) :
    Untold [.finished command.id ending] other := by
  simp [Untold, Happening.ended?, Ne.symm hne]

theorem untold_recorded {other : CommandId} {status : Status} (hne : other ≠ command.id) :
    Untold [.recorded command.id status] other := by
  simp [Untold, Happening.ended?, Ne.symm hne]

/-- A worker has just found that a command is over. -/
theorem told_finished {healthy : Bool} (huntold : Untold log command.id)
    (hphase : worker'.phase = .uncounting command ending healthy)
    (hpending : ∀ other ∈ worker'.queue.pending, Untold log other.id ∧ other.id ≠ command.id) :
    worker'.Told (log ++ [.finished command.id ending]) := by
  refine ⟨?_, fun other hother => ?_⟩
  · rw [hphase]
    refine ⟨by simp, fun status hmem => ?_⟩
    exact huntold _ (by simpa using hmem) rfl
  · obtain ⟨hother, hne⟩ := hpending other hother
    exact hother.append (untold_finished hne)

theorem Turn.telling (hturn : Turn shared worker shared' worker') (h : worker.Told log)
    (hsink : shared.sink = .device) (honce : (worker.pipeline.map Command.id).Nodup) :
    Telling log shared shared' worker worker' := by
  have hphase := h.phase
  -- No other command of the worker has the id of the first one.
  have hothers : ∀ {command rest}, worker.pipeline = command :: rest →
      ∀ other ∈ rest, other.id ≠ command.id := by
    intro command rest hpipeline other hother hid
    rw [hpipeline, List.map_cons, List.nodup_cons] at honce
    exact honce.1 (hid ▸ List.mem_map_of_mem hother)
  cases hturn with
  | start phase pending =>
    rename_i command rest
    refine .silent (by simp [tells?, phase]) ⟨h.pending command (by simp [pending]), ?_⟩ rfl
    exact fun other hother => h.pending other (pending ▸ List.mem_cons_of_mem _ hother)
  | stop phase pending closed =>
    refine .silent ?_ ⟨trivial, h.pending⟩ rfl
    cases hphase : worker.phase <;> simp_all [tells?, Phase.Pops]
  | go phase step =>
    rw [phase] at hphase
    exact .silent (by simp [tells?, phase]) ⟨hphase, h.pending⟩
      (stepJob_kept (congrArg JobStep.shared? step)).2.2
  | breakDown phase step =>
    rw [phase] at hphase
    exact .silent (by simp [tells?, phase]) ⟨hphase, h.pending⟩
      (stepJob_kept (congrArg JobStep.shared? step)).2.2
  | finish phase step =>
    rename_i command job ending
    have hpipeline : worker.pipeline = command :: _ := pipeline_of_inHand (by rw [phase]; rfl)
    rw [phase] at hphase
    exact .finishes command ending true (hpipeline ▸ List.mem_cons_self) rfl rfl hphase
      (told_finished hphase rfl fun other hother =>
        ⟨h.pending other hother, hothers hpipeline other hother⟩)
      (stepJob_kept (congrArg JobStep.shared? step)).2.2
  | giveUp phase =>
    rename_i command
    have hpipeline : worker.pipeline = command :: _ := pipeline_of_inHand (by rw [phase]; rfl)
    rw [phase] at hphase
    exact .finishes command _ false (hpipeline ▸ List.mem_cons_self) rfl rfl hphase
      (told_finished hphase rfl fun other hother =>
        ⟨h.pending other hother, hothers hpipeline other hother⟩) rfl
  | fail phase pending =>
    rename_i command rest
    have hpipeline : worker.pipeline = command :: rest := by
      simp [Worker.pipeline, outstanding, phase, pending, Phase.inHand]
    have huntold := h.pending command (by simp [pending])
    exact .finishes command _ false (hpipeline ▸ List.mem_cons_self) rfl rfl huntold
      (told_finished huntold rfl fun other hother =>
        ⟨h.pending other (pending ▸ List.mem_cons_of_mem _ hother),
          hothers hpipeline other hother⟩) rfl
  | uncount phase =>
    rw [phase] at hphase
    exact .silent (by simp [tells?, phase]) ⟨hphase, by simpa using h.pending⟩ rfl
  | report phase =>
    rename_i command ending healthy
    have hpipeline : worker.pipeline = command :: _ := pipeline_of_inHand (by rw [phase]; rfl)
    rw [phase] at hphase
    obtain ⟨hfinished, hfirst⟩ := hphase
    cases ending with
    | done =>
      have hreport : shared.report command.id .done = (true, shared) := by simp [Shared.report, hsink]
      rw [hreport]
      exact .silent (by simp [tells?, phase]) ⟨⟨.done, hfinished, by simp⟩, h.pending⟩ rfl
    | exit status =>
      have hreport : shared.report command.id (.exit status) =
          (true, { shared with statuses := shared.statuses.insert command.id status }) := by
        simp [Shared.report, hsink]
      rw [hreport]
      refine .records command status (hpipeline ▸ List.mem_cons_self) (by simp [tells?, phase])
        hfinished hfirst
        ⟨⟨.exit status, List.mem_append_left _ hfinished, ?_⟩, fun other hother => ?_⟩ rfl
      · rintro _ ⟨⟩
        simp
      · exact (h.pending other hother).append (untold_recorded (hothers hpipeline other hother))
  | complete phase =>
    rename_i command healthy
    refine .silent ?_ ⟨?_, h.pending⟩ ?_
    · cases healthy <;> simp [tells?, phase, afterReport]
    · cases healthy <;> trivial
    · cases command.event <;> rfl

end Steps

end Worker

/-! ## Hosts -/

/-- The call has answered with its event. -/
def EnqueueCall.Accepted (call : EnqueueCall) : Prop :=
  ∃ i j, call.stage = .accepted i j

namespace Host

/-- The history goes with the calls and with what the workers have before them. -/
structure Ledger (host : Host) : Prop where
  sound : Sound host.log
  told : ∀ i j worker, host.device.worker? i j = some worker → worker.Told host.log
  /-- What was accepted is in the hands of a worker, or settled. -/
  carried : ∀ call ∈ host.calls, call.Accepted →
    call.Owes host.device ∨ Settled host.log call.command.id
  accepted : ∀ command event, .accepted command event ∈ host.log ↔
    ∃ call ∈ host.calls, call.command.id = command ∧ call.event = event ∧ call.Accepted
  /-- Only what was accepted comes to an end. -/
  known : ∀ command ending, .finished command ending ∈ host.log →
    ∃ call ∈ host.calls, call.command.id = command ∧ call.Accepted
  native : ∀ call ∈ host.calls, ∀ body, call.command.kind = .exec body →
    .finished call.command.id .done ∉ host.log

section Steps
variable {host host' : Host} {call : EnqueueCall} {device device' : Device} {i j : Nat}
  {worker worker' : Worker}

/-- Nothing is said of a command that was not accepted. -/
theorem Ledger.untold (h : host.Ledger) (hroster : host.Roster) (hcall : call ∈ host.calls)
    (hstage : ¬ call.Accepted) : Untold host.log call.command.id := by
  refine h.sound.untold fun ending hmem => ?_
  obtain ⟨other, hother, hid, haccepted⟩ := h.known _ ending hmem
  obtain rfl := hroster.eq_of_id hother hcall hid
  exact hstage haccepted

theorem owes_of_accepted {taken : Nat → Nat → List Command} (htakes : device.Takes device' taken)
    (haccepted : call.Accepted) (h : call.Owes device) : call.Owes device' := by
  rcases h with hunderWay | ⟨i, j, worker, hstage, hworker, hmem⟩
  · obtain ⟨i, j, hstage⟩ := haccepted
    simp [EnqueueCall.UnderWay, hstage] at hunderWay
  · obtain ⟨worker', hworker', hphase, hpending⟩ := htakes.on hworker
    refine .inr ⟨i, j, worker', hstage, hworker', ?_⟩
    rw [Worker.pipeline_congr hphase hpending]
    exact List.mem_append_left _ hmem

/-- Steps that end no command and accept none. -/
theorem Ledger.quiet (h : host.Ledger) (htakes : host.device.Takes host'.device fun _ _ => [])
    {more : List Happening} (hlog : host'.log = host.log ++ more)
    (hmore : ∀ happening ∈ more,
      happening.ended? = none ∧ ∀ command event, happening ≠ .accepted command event)
    {calls : List EnqueueCall} (hcalls : host'.calls = host.calls ++ calls)
    (hnew : ∀ call ∈ calls, call.stage = .routing ∧ ∀ other ∈ host.calls,
      other.command.id ≠ call.command.id) : host'.Ledger := by
  have hquiet : ∀ command, Untold more command := fun command happening hmem => by
    simp [(hmore happening hmem).1]
  have hnotAccepted : ∀ call ∈ calls, ¬ call.Accepted := by
    rintro call hcall ⟨i, j, hstage⟩
    simp [(hnew call hcall).1] at hstage
  have hfinished : ∀ command ending, .finished command ending ∈ host'.log →
      .finished command ending ∈ host.log := fun command ending hmem =>
    mem_of_quiet (fun happening hmem => (hmore happening hmem).1) (by simp [Happening.ended?])
      (hlog ▸ hmem)
  refine ⟨hlog ▸ h.sound.quiet fun happening hmem => (hmore happening hmem).1, ?_, ?_, ?_, ?_, ?_⟩
  · intro i j worker' hworker'
    obtain ⟨worker, hworker, hphase, hpending⟩ := htakes.back i j worker' hworker'
    have htold := (h.told i j worker hworker).append fun command _ => hquiet command.id
    rw [hlog]
    exact ⟨hphase ▸ htold.phase, fun command hcommand =>
      htold.pending command (by simpa [hpending] using hcommand)⟩
  · intro call hcall haccepted
    rcases List.mem_append.1 (hcalls ▸ hcall) with hold | hlast
    · rw [hlog]
      exact (h.carried call hold haccepted).imp (owes_of_accepted htakes haccepted) (·.append more)
    · exact absurd haccepted (hnotAccepted call hlast)
  · intro command event
    have hnone : .accepted command event ∉ more := fun hmem => (hmore _ hmem).2 command event rfl
    rw [hlog, hcalls, List.mem_append, or_iff_left hnone, h.accepted]
    refine exists_congr fun call => ?_
    rw [List.mem_append, or_and_right, iff_self_or]
    rintro ⟨hlast, -, -, haccepted⟩
    exact absurd haccepted (hnotAccepted call hlast)
  · intro command ending hmem
    obtain ⟨call, hcall, hrest⟩ := h.known command ending (hfinished command ending hmem)
    exact ⟨call, hcalls ▸ List.mem_append_left _ hcall, hrest⟩
  · intro call hcall body hkind hmem
    have hmem := hfinished _ _ hmem
    rcases List.mem_append.1 (hcalls ▸ hcall) with hold | hlast
    · exact h.native call hold body hkind hmem
    · obtain ⟨other, hother, hid, -⟩ := h.known _ _ hmem
      exact (hnew call hlast).2 other hother hid

theorem Ledger.goOn (h : host.Ledger) (hroster : host.Roster) {n : Nat} {stage : EnqueueStage}
    (here : host.calls[n]? = some call) (hmoves : call.Moves host.device device stage)
    (makers : Event → Option CommandId) :
    Ledger {
      device
      calls := host.calls.set n { call with stage }
      makers
      log := host.log ++ (call.tells? stage).toList } := by
  have hcall := List.mem_of_getElem? here
  have hmem := mem_goOn hroster.distinct here stage
  have hnotAccepted : ¬ call.Accepted := by
    rintro ⟨i, j, hstage⟩
    simpa [EnqueueCall.UnderWay, hstage] using hmoves.underWay
  have hkept : ∀ other ∈ host.calls, other.Accepted → other ∈ host.calls.set n { call with stage } := by
    refine fun other hother haccepted => (hmem other).2 (.inr ⟨hother, fun hid => hnotAccepted ?_⟩)
    exact hroster.eq_of_id hother hcall hid ▸ haccepted
  have hquiet : ∀ happening ∈ (call.tells? stage).toList, happening.ended? = none := by
    cases stage <;> simp [EnqueueCall.tells?, Happening.ended?]
  have huntold : ∀ command, Untold (call.tells? stage).toList command :=
    fun command happening hmem => by simp [hquiet happening hmem]
  have hfinished : ∀ {command ending},
      .finished command ending ∈ host.log ++ (call.tells? stage).toList →
      .finished command ending ∈ host.log := fun hmem =>
    mem_of_quiet hquiet (by simp [Happening.ended?]) hmem
  refine ⟨h.sound.quiet hquiet, ?_, ?_, ?_, ?_, ?_⟩
  · intro i j worker' hworker'
    obtain ⟨worker, hworker, hphase, hpending⟩ := hmoves.takes.back i j worker' hworker'
    have htold := (h.told i j worker hworker).append fun command _ => huntold command.id
    refine ⟨hphase ▸ htold.phase, fun command hcommand => ?_⟩
    rcases List.mem_append.1 (hpending ▸ hcommand) with hold | hnew
    · exact htold.pending command hold
    · split at hnew
      · obtain rfl := List.mem_singleton.1 hnew
        exact (h.untold hroster hcall hnotAccepted).append (huntold _)
      · exact absurd hnew List.not_mem_nil
  · intro other hother haccepted
    rcases (hmem other).1 hother with rfl | ⟨hold, -⟩
    · obtain ⟨i, j, rfl⟩ := haccepted
      obtain ⟨worker, hworker, hpushed⟩ := hmoves.handsOver
      exact .inl (.inr ⟨i, j, worker, rfl, hworker, hpushed⟩)
    · exact (h.carried other hold haccepted).imp
        (owes_of_accepted hmoves.takes haccepted) (·.append _)
  · intro command event
    rw [List.mem_append, h.accepted]
    constructor
    · rintro (⟨other, hother, hid, hevent, haccepted⟩ | htells)
      · exact ⟨other, hkept other hother haccepted, hid, hevent, haccepted⟩
      · refine ⟨_, (hmem _).2 (.inl rfl), ?_⟩
        cases stage with
        | accepted i j =>
          obtain ⟨rfl, rfl⟩ : command = call.command.id ∧ event = call.event := by
            simpa [EnqueueCall.tells?] using htells
          exact ⟨rfl, rfl, i, j, rfl⟩
        | _ => simp [EnqueueCall.tells?] at htells
    · rintro ⟨other, hother, rfl, rfl, haccepted⟩
      rcases (hmem other).1 hother with rfl | ⟨hold, -⟩
      · obtain ⟨i, j, rfl⟩ := haccepted
        exact .inr (by simp [EnqueueCall.tells?])
      · exact .inl ⟨other, hold, rfl, rfl, haccepted⟩
  · intro command ending hended
    obtain ⟨other, hother, hid, haccepted⟩ := h.known command ending (hfinished hended)
    exact ⟨other, hkept other hother haccepted, hid, haccepted⟩
  · intro other hother body hkind hended
    rcases (hmem other).1 hother with rfl | ⟨hold, -⟩
    · exact h.native call hcall body hkind (hfinished hended)
    · exact h.native other hold body hkind (hfinished hended)

/-- A worker keeps a command until it completes the event. -/
theorem owes_turn {shared : Shared} (hroster : host.Roster)
    (here : host.device.worker? i j = some worker)
    (hturn : Worker.Turn host.device.shared worker shared worker') (haccepted : call.Accepted)
    (h : call.Owes host.device) : call.Owes { host.device.setWorker i j worker' with shared } ∨
      ∃ healthy, worker.phase = .completing call.pushed healthy := by
  rcases h with hunderWay | ⟨i', j', other, hstage, hother, hmem⟩
  · obtain ⟨i, j, hstage⟩ := haccepted
    simp [EnqueueCall.UnderWay, hstage] at hunderWay
  · have hthere : (host.device.setWorker i j worker').worker? i' j' = _ :=
      Device.worker?_setWorker here i' j'
    by_cases heq : i' = i ∧ j' = j
    · rw [if_pos heq] at hthere
      obtain ⟨rfl, rfl⟩ := heq
      obtain rfl := Option.some.inj (hother.symm.trans here)
      -- Only the first command can leave, and only as it is completed.
      rcases hturn.pipeline hroster.sink with hsame | ⟨command, healthy, hphase, -, hpipeline⟩
      · exact .inl (.inr ⟨i', j', worker', hstage, hthere, hsame ▸ hmem⟩)
      · rcases List.mem_cons.1 (hpipeline ▸ hmem) with rfl | hrest
        · exact .inr ⟨healthy, hphase⟩
        · exact .inl (.inr ⟨i', j', worker', hstage, hthere, hrest⟩)
    · rw [if_neg heq] at hthere
      exact .inl (.inr ⟨i', j', other, hstage, hthere.trans hother, hmem⟩)

theorem Ledger.work_of (h : host.Ledger) (hroster : host.Roster) {shared : Shared}
    (here : host.device.worker? i j = some worker)
    (hturn : Worker.Turn host.device.shared worker shared worker') {more : List Happening}
    (hsound : Sound (host.log ++ more)) (htold : worker'.Told (host.log ++ more))
    (hmine : ∀ happening ∈ more, ∃ command ∈ worker.pipeline, happening.ended? = some command.id ∧
      (happening = .finished command.id .done → ∀ body, command.kind ≠ .exec body))
    (makers : Event → Option CommandId) :
    Ledger { host with
      device := { host.device.setWorker i j worker' with shared }
      makers
      log := host.log ++ more } := by
  -- What the step tells is about a command of this worker, so no other worker's ledger is touched.
  have hcalls : ∀ happening ∈ more, ∀ command, happening.ended? = some command →
      ∃ call ∈ host.calls, call.command.id = command ∧ call.stage = .accepted i j ∧
        (happening = .finished command .done → ∀ body, call.command.kind ≠ .exec body) := by
    intro happening hhappening command hended
    obtain ⟨mine, hpipeline, hmended, hdone⟩ := hmine happening hhappening
    obtain rfl : mine.id = command := Option.some.inj (hmended.symm.trans hended)
    obtain ⟨call, hcall, hstage, rfl⟩ := hroster.placed i j worker here mine hpipeline
    exact ⟨call, hcall, rfl, hstage, hdone⟩
  refine ⟨hsound, ?_, ?_, ?_, ?_, ?_⟩
  · refine forall_setWorker here htold fun i' j' other hother hworker => ?_
    refine (h.told i' j' other hworker).append fun command hcommand happening hhappening hended => ?_
    obtain ⟨call, hcall, hid, hstage, -⟩ := hcalls happening hhappening command.id hended
    obtain ⟨call', hcall', hstage', rfl⟩ := hroster.placed i' j' other hworker command hcommand
    obtain rfl := hroster.eq_of_id hcall hcall' hid
    obtain ⟨rfl, rfl⟩ : i = i' ∧ j = j' := by simpa [hstage] using hstage'
    exact hother ⟨rfl, rfl⟩
  · intro call hcall haccepted
    rcases h.carried call hcall haccepted with howes | hsettled
    · refine (owes_turn hroster here hturn haccepted howes).imp_right ?_
      rintro ⟨healthy, hphase⟩
      have htold := (h.told i j worker here).phase
      rw [hphase] at htold
      exact Settled.append htold more
    · exact .inr (hsettled.append more)
  · intro command event
    have hnone : .accepted command event ∉ more := by
      intro hmem
      obtain ⟨mine, -, hended, -⟩ := hmine _ hmem
      simp [Happening.ended?] at hended
    rw [List.mem_append, or_iff_left hnone]
    exact h.accepted command event
  · intro command ending hmem
    rcases List.mem_append.1 hmem with hold | hnew
    · exact h.known command ending hold
    · obtain ⟨call, hcall, hid, hstage, -⟩ := hcalls _ hnew command rfl
      exact ⟨call, hcall, hid, i, j, hstage⟩
  · intro call hcall body hkind hmem
    rcases List.mem_append.1 hmem with hold | hnew
    · exact h.native call hcall body hkind hold
    · obtain ⟨call', hcall', hid, -, hdone⟩ := hcalls _ hnew call.command.id rfl
      obtain rfl := hroster.eq_of_id hcall' hcall hid
      exact hdone rfl body hkind

theorem Ledger.work (h : host.Ledger) (hroster : host.Roster) {shared : Shared}
    (here : host.device.worker? i j = some worker)
    (hturn : Worker.Turn host.device.shared worker shared worker')
    (hnative : ∀ command healthy, worker'.phase = .uncounting command .done healthy →
      ∀ body, command.kind ≠ .exec body)
    (makers : Event → Option CommandId) :
    Ledger { host with
      device := { host.device.setWorker i j worker' with shared }
      makers
      log := host.log ++ (worker.tells? worker').toList } := by
  cases hturn.telling (h.told i j worker here) hroster.sink (hroster.once i j worker here) with
  | silent tells told statuses =>
    rw [tells]
    exact h.work_of hroster here hturn (by simpa using h.sound) (by simpa using told) (by simp) makers
  | finishes command ending healthy mine phase tells untold told statuses =>
    rw [tells]
    refine h.work_of hroster here hturn (h.sound.finished untold ending) told ?_ makers
    intro happening hmem
    obtain rfl := List.mem_singleton.1 hmem
    refine ⟨command, mine, rfl, fun hdone => ?_⟩
    obtain rfl : ending = .done := by simpa using hdone
    exact hnative command healthy phase
  | records command status mine tells finished first told statuses =>
    rw [tells]
    refine h.work_of hroster here hturn (h.sound.recorded finished first) told ?_ makers
    intro happening hmem
    obtain rfl := List.mem_singleton.1 hmem
    exact ⟨command, mine, rfl, by simp⟩

theorem Ledger.step (h : host.Ledger) (hroster : host.Roster) {duty : Event → Option Holder}
    (hduties : host.Duties duty) (hstep : Step host host') : host'.Ledger := by
  have hothers : ∀ {host' : Host} {more : List Happening}, host'.calls = host.calls →
      host.device.Takes host'.device (fun _ _ => []) → host'.log = host.log ++ more →
      (∀ happening ∈ more, happening.ended? = none ∧
        ∀ command event, happening ≠ .accepted command event) → host'.Ledger :=
    fun hcalls htakes hlog hmore =>
      h.quiet htakes hlog hmore (hcalls.trans (List.append_nil _).symm) (by simp)
  cases hstep with
  | enqueue command fresh independent =>
    exact h.quiet (Device.takes_of_eq fun i j => rfl) (List.append_nil _).symm (by simp) rfl
      (by simpa)
  | goOn here moves => exact h.goOn hroster here moves _
  | close here =>
    exact hothers rfl (Device.takes_nothing here rfl rfl) (List.append_nil _).symm (by simp)
  | wait event =>
    exact hothers rfl (Device.takes_of_eq fun i j => rfl) (List.append_nil _).symm (by simp)
  | ask command =>
    exact hothers rfl (Device.takes_of_eq fun i j => rfl) rfl (by simp [Happening.ended?])
  | work here step given =>
    have hturn := Worker.turn step
    exact h.work hroster here hturn (fun command healthy =>
      hturn.not_native (hduties.jobs _ _ _ here) (hroster.independent_inHand here)) _
  | copy number step =>
    obtain ⟨shared, -, rfl⟩ := Device.step?_copy.1 step
    exact hothers rfl (Device.takes_of_eq fun i j => rfl) (List.append_nil _).symm (by simp)
  | waiter number step =>
    obtain ⟨events, -, rfl⟩ := Device.step?_waiter.1 step
    exact hothers rfl (Device.takes_of_eq fun i j => rfl) rfl
      (by simp +contextual [Happening.ended?])
  | meanwhile shared events statuses copies sink =>
    exact hothers rfl (Device.takes_of_eq fun i j => rfl) (List.append_nil _).symm (by simp)

theorem ledger_start {cores : Nat} {config : Config} {blockLimit : Fin Size.limit}
    (h : Device.create cores config blockLimit = .ok device) :
    Ledger { device } := by
  obtain ⟨hfresh, -⟩ := Device.create_fresh h
  refine ⟨⟨by simp, by simp, by simp⟩, fun i j worker hworker => ?_, by simp, by simp, by simp,
    by simp⟩
  have hworker := hfresh i j worker hworker
  exact ⟨by rw [hworker.phase]; trivial, by simp [hworker.queue]⟩

theorem Reachable.ledger (h : Reachable host) : host.Ledger := by
  induction h with
  | start hcreate => exact ledger_start hcreate
  | step hreachable hstep _ ih =>
    obtain ⟨duty, hduties⟩ := hreachable.duties
    exact ih.step hreachable.roster hduties hstep

end Steps

end Host

end ComputeCore
