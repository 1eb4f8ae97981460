import Mathlib.Data.List.Nodup
import Mathlib.Logic.Function.Basic
import ComputeCore.Proofs.Event.Pending
import ComputeCore.Proofs.Scheduling.Jobs
import ComputeCore.Proofs.Scheduling.Workers
/-!
# A device and its host

A device, and any number of threads of its host that call `enqueue`, `wait`, `exit_status` and
`shutdown`. `Host.Step` interleaves them freely with the threads of the device, which take no other
steps than these (`Host.exists_step_of_step?`). A call of `enqueue` takes its steps one at a time: it
makes an event, finds a worker, announces its command, and pushes it or takes everything back. The
history says what was accepted, how commands ended, which statuses were recorded and asked for, and
which waits came back.

`Host.Roster` is what ties the calls to the workers: whatever a worker has in hand or in its queue was
accepted from one call, at that worker.
-/

namespace ComputeCore

/-! ## Calls of enqueue -/

/-- How far a call of `enqueue` is that has made its event. -/
inductive EnqueueStage where
  | routing
  | announcing (i j : Nat)
  | pushing (i j : Nat)
  /-- The queue was closed, and the announcement is about to be taken back. -/
  | withdrawing (i j : Nat)
  /-- The event is about to be removed. -/
  | retracting
  /-- The event is the answer. -/
  | accepted (i j : Nat)
  /-- The answer is none. -/
  | refused
  deriving DecidableEq

/-- A call of `enqueue`. -/
structure EnqueueCall where
  command : Command
  event : Event
  stage : EnqueueStage := .routing

/-- What the threads of a host and of its device do that others can rely on. -/
inductive Happening where
  | accepted (command : CommandId) (event : Event)
  /-- A command was carried out to its end or failed. -/
  | finished (command : CommandId) (ending : Ending)
  | recorded (command : CommandId) (status : Status)
  /-- Somebody asked for the exit status of a command. -/
  | asked (command : CommandId) (answer : Option Status)
  /-- A call of `wait` came back. -/
  | returned (event : Event)
  deriving DecidableEq

namespace Device

/-- The device with other events. -/
def setEvents (device : Device) (events : WaitList) : Device :=
  { device with shared := { device.shared with events } }

/-- The table of events. -/
def table (device : Device) : EventTable :=
  device.shared.events.table

end Device

namespace EnqueueCall

/-- The command as it is pushed. -/
def pushed (call : EnqueueCall) : Command :=
  call.command.withEvent call.event

/-- The call has not answered yet. -/
def UnderWay (call : EnqueueCall) : Prop :=
  match call.stage with
  | .accepted _ _ | .refused => False
  | _ => True

/-- One step of a call. Loads change while they are compared, so a dispatch may go to any worker of its
multiprocessor. -/
inductive Moves (call : EnqueueCall) (device : Device) : Device → EnqueueStage → Prop
  | route {i j} (stage : call.stage = .routing) (target : i = device.route call.command)
      (choice : call.command.isNDRange = true ∨ j = 0) :
      Moves call device
        { device with turn := if call.command.isNDRange then Size.succ device.turn else device.turn }
        (.announcing i j)
  /-- There is no such worker. -/
  | lose {i j} (stage : call.stage = .announcing i j) (missing : device.worker? i j = none) :
      Moves call device device .retracting
  | announce {i j worker} (stage : call.stage = .announcing i j)
      (here : device.worker? i j = some worker) :
      Moves call device (device.setWorker i j worker.announce) (.pushing i j)
  | push {i j worker queue} (stage : call.stage = .pushing i j)
      (here : device.worker? i j = some worker)
      (pushes : worker.queue.push? call.pushed = some queue) :
      Moves call device (device.setWorker i j { worker with queue }) (.accepted i j)
  | turnDown {i j worker} (stage : call.stage = .pushing i j)
      (here : device.worker? i j = some worker) (closed : worker.queue.push? call.pushed = none) :
      Moves call device device (.withdrawing i j)
  | withdraw {i j worker} (stage : call.stage = .withdrawing i j)
      (here : device.worker? i j = some worker) :
      Moves call device (device.setWorker i j worker.withdraw) .retracting
  | retract (stage : call.stage = .retracting) :
      Moves call device (device.setEvents (device.shared.events.remove call.event)) .refused

/-- What others can rely on once the call comes to a stage. -/
def tells? (call : EnqueueCall) : EnqueueStage → Option Happening
  | .accepted _ _ => some (.accepted call.command.id call.event)
  | _ => none

end EnqueueCall

namespace Worker

/-- What others can rely on after a step of a worker: a command is over, or its status recorded. -/
def tells? (worker worker' : Worker) : Option Happening :=
  match worker'.phase, worker.phase with
  | .uncounting command ending _, _ => some (.finished command.id ending)
  | _, .reporting command (.exit status) _ => some (.recorded command.id status)
  | _, _ => none

end Worker

/-! ## The host -/

/-- A device, the calls of `enqueue`, and what has happened so far. -/
structure Host where
  device : Device
  calls : List EnqueueCall := []
  /-- The command whose call of `enqueue` made the event a handle names, none if that was made by a
  process. -/
  makers : Event → Option CommandId := fun _ => none
  log : List Happening := []

namespace Host

/-- One step of one thread. -/
inductive Step : Host → Host → Prop
  /-- Somebody enqueues a command. Commands are not copied, so each one is enqueued once. -/
  | enqueue {host} (command : Command)
      (fresh : ∀ call ∈ host.calls, call.command.id ≠ command.id)
      (independent : command.Independent) :
      Step host { host with
        device := host.device.setEvents host.device.shared.events.newEvent.2
        calls := host.calls ++ [{ command, event := host.device.shared.events.newEvent.1 }]
        makers := Function.update host.makers host.device.shared.events.newEvent.1 (some command.id) }
  | goOn {host n call device stage} (here : host.calls[n]? = some call)
      (moves : call.Moves host.device device stage) :
      Step host { host with
        device
        calls := host.calls.set n { call with stage }
        log := host.log ++ (call.tells? stage).toList }
  /-- Somebody shuts the device down, and comes to one of its workers. -/
  | close {host i j worker} (here : host.device.worker? i j = some worker) :
      Step host { host with device := host.device.setWorker i j worker.close }
  /-- A thread starts to wait for an event. -/
  | wait {host} (event : Event) :
      Step host { host with
        device := host.device.setEvents (host.device.shared.events.enterWait event).2 }
  | ask {host} (command : CommandId) :
      Step host { host with
        device := (host.device.takeStatus command).2
        log := host.log ++ [.asked command (host.device.takeStatus command).1] }
  /-- A worker takes a step. It links no event under one whose handle nobody has been given yet; an
  event that was not there before is a process's. -/
  | work {host i j worker shared worker'} (here : host.device.worker? i j = some worker)
      (step : worker.step? host.device.shared = some (shared, worker'))
      (given : ∀ call ∈ host.calls, call.UnderWay → ¬ worker.Links call.event) :
      Step host { host with
        device := { host.device.setWorker i j worker' with shared }
        makers := fun event => if host.device.table.knows event then host.makers event else none
        log := host.log ++ (worker.tells? worker').toList }
  | copy {host device} (number : Nat) (step : host.device.step? (.copy number) = some device) :
      Step host { host with device }
  | waiter {host device} (number : Nat) (step : host.device.step? (.waiter number) = some device) :
      Step host { host with
        device
        log := host.log ++
          ((host.device.shared.events.returned? device.shared.events number).map .returned).toList }
  /-- Other threads change what has nothing to do with commands and events. -/
  | meanwhile {host} (shared : Shared) (events : shared.events = host.device.shared.events)
      (statuses : shared.statuses = host.device.shared.statuses)
      (copies : shared.copies = host.device.shared.copies)
      (sink : shared.sink = host.device.shared.sink) :
      Step host { host with device := { host.device with shared } }

/-- What a host can come to with a new device, as long as there are no more slots for events than
numbers for them. -/
inductive Reachable : Host → Prop
  | start {cores config blockLimit device} : Device.create cores config blockLimit = .ok device →
      Reachable { device }
  | step {host host' : Host} : Reachable host → Step host host' → host'.device.table.Numbered →
      Reachable host'

end Host

/-- Every step of a thread of the device is a step of one of these kinds. -/
theorem Host.exists_step_of_step? {host : Host} {agent : Agent} {device : Device}
    (h : host.device.step? agent = some device)
    (given : ∀ i j worker, agent = .worker i j → host.device.worker? i j = some worker →
      ∀ call ∈ host.calls, call.UnderWay → ¬ worker.Links call.event) :
    ∃ host', Step host host' ∧ host'.device = device := by
  cases agent with
  | worker i j =>
    obtain ⟨worker, shared, worker', here, step, rfl⟩ := Device.step?_worker.1 h
    exact ⟨_, .work here step (given i j worker rfl here), rfl⟩
  | copy number => exact ⟨_, .copy number h, rfl⟩
  | waiter number => exact ⟨_, .waiter number h, rfl⟩

/-- Only a waiting thread comes back from a wait. -/
theorem EnqueueCall.tells?_ne_returned (call : EnqueueCall) (stage : EnqueueStage) (event : Event) :
    call.tells? stage ≠ some (.returned event) := by
  unfold tells?
  split <;> simp

/-! ## What a worker has before it -/

namespace Worker

theorem tells?_ne_returned (worker worker' : Worker) (event : Event) :
    worker.tells? worker' ≠ some (.returned event) := by
  unfold tells?
  split <;> simp

/-- The commands whose events the worker has yet to complete, first come first. -/
def pipeline (worker : Worker) : List Command :=
  match worker.phase with
  | .completing command _ => command :: worker.queue.pending
  | _ => worker.outstanding

section Steps
variable {shared shared' : Shared} {worker worker' : Worker}

theorem pipeline_eq (worker : Worker) : worker.pipeline =
    (match worker.phase with
      | .completing command _ => some command
      | phase => phase.inHand).toList ++ worker.queue.pending := by
  unfold pipeline outstanding
  cases worker.phase <;> rfl

theorem pipeline_of_inHand {command : Command} (h : worker.phase.inHand = some command) :
    worker.pipeline = command :: worker.queue.pending := by
  unfold pipeline outstanding
  cases hphase : worker.phase <;> simp_all [Phase.inHand]

theorem pipeline_congr (hphase : worker'.phase = worker.phase) {taken : List Command}
    (hpending : worker'.queue.pending = worker.queue.pending ++ taken) :
    worker'.pipeline = worker.pipeline ++ taken := by
  rw [pipeline_eq, pipeline_eq, hphase, hpending, List.append_assoc]

theorem pipeline_afterReport {healthy : Bool} (hphase : worker.phase = afterReport healthy) :
    worker.pipeline = worker.queue.pending := by
  rw [pipeline_eq, hphase]
  cases healthy <;> rfl

/-- With the device as its sink, a worker leaves a command only when it has completed its event. -/
theorem Turn.pipeline (h : Turn shared worker shared' worker') (hsink : shared.sink = .device) :
    worker'.pipeline = worker.pipeline ∨
      ∃ command healthy, worker.phase = .completing command healthy ∧
        shared' = shared.complete command.event ∧ worker.pipeline = command :: worker'.pipeline := by
  cases h with
  | start phase pending | fail phase pending =>
    exact .inl (by simp [Worker.pipeline, outstanding, phase, pending, Phase.inHand])
  | stop phase pending closed =>
    cases hphase : worker.phase <;> simp [hphase, Phase.Pops] at phase <;>
      exact .inl (by simp [Worker.pipeline, outstanding, hphase, Phase.inHand])
  | go phase step | finish phase step | breakDown phase step | giveUp phase =>
    exact .inl (by simp [Worker.pipeline, outstanding, phase, Phase.inHand, Worker.close,
      CommandQueue.close])
  | uncount phase =>
    exact .inl (by simp [Worker.pipeline, outstanding, phase, Phase.inHand, Worker.withdraw])
  | report phase =>
    rename_i command ending healthy
    -- Only a device has the event completed; with a recorder the command would be gone here already.
    have hcompletes : (shared.report command.id ending).1 = true := by
      cases ending <;> simp [Shared.report, hsink]
    exact .inl (by simp [Worker.pipeline, outstanding, phase, Phase.inHand, hcompletes])
  | complete phase =>
    rename_i command healthy
    refine .inr ⟨command, healthy, phase, rfl, ?_⟩
    have hover : Worker.pipeline { worker with phase := afterReport healthy } =
        worker.queue.pending := pipeline_afterReport rfl
    rw [hover]
    simp [Worker.pipeline, phase]

theorem Turn.sink (h : Turn shared worker shared' worker') : shared'.sink = shared.sink := by
  cases h with
  | go phase step | finish phase step | breakDown phase step =>
    exact (stepJob_kept (congrArg JobStep.shared? step)).2.1
  | report phase =>
    rename_i command ending healthy
    cases hsink : shared.sink <;> cases ending <;> simp [Shared.report, hsink]
  | complete phase =>
    rename_i command healthy
    cases hevent : command.event <;> simp [Shared.complete]
  | start phase pending | stop phase pending closed | giveUp phase | uncount phase
  | fail phase pending => rfl

end Steps

end Worker

/-! ## What a step adds to the queues -/

namespace Device

/-- The workers are where they were, and their queues have got these commands. -/
structure Takes (device device' : Device) (taken : Nat → Nat → List Command) : Prop where
  kept : ∀ i j, (device.worker? i j).isSome = true → (device'.worker? i j).isSome = true
  back : ∀ i j worker', device'.worker? i j = some worker' → ∃ worker,
    device.worker? i j = some worker ∧ worker'.phase = worker.phase ∧
      worker'.queue.pending = worker.queue.pending ++ taken i j

section Takes
variable {device device' : Device} {i j : Nat} {worker worker' : Worker}

theorem takes_of_eq (h : ∀ i j, device'.worker? i j = device.worker? i j) :
    device.Takes device' fun _ _ => [] :=
  ⟨fun i j hsome => h i j ▸ hsome, fun i j worker' hworker =>
    ⟨worker', h i j ▸ hworker, rfl, (List.append_nil _).symm⟩⟩

theorem takes_setWorker (h : device.worker? i j = some worker)
    (hphase : worker'.phase = worker.phase) {added : List Command}
    (hpending : worker'.queue.pending = worker.queue.pending ++ added) :
    device.Takes (device.setWorker i j worker')
      fun i' j' => if i' = i ∧ j' = j then added else [] := by
  constructor
  · intro i' j' hsome
    rw [worker?_setWorker h]
    split
    · rfl
    · exact hsome
  · intro i' j' other hother
    rw [worker?_setWorker h] at hother
    split at hother
    · next heq =>
      obtain ⟨rfl, rfl⟩ := heq
      obtain rfl := Option.some.inj hother
      exact ⟨worker, h, hphase, by simpa using hpending⟩
    · next hne => exact ⟨other, hother, rfl, by simp [hne]⟩

/-- Counters and closed queues make no difference. -/
theorem takes_nothing (h : device.worker? i j = some worker) (hphase : worker'.phase = worker.phase)
    (hpending : worker'.queue.pending = worker.queue.pending) :
    device.Takes (device.setWorker i j worker') fun _ _ => [] := by
  have htakes := takes_setWorker h hphase (hpending.trans (List.append_nil _).symm)
  simpa using htakes

theorem Takes.on {taken : Nat → Nat → List Command} (h : device.Takes device' taken)
    (hworker : device.worker? i j = some worker) : ∃ worker', device'.worker? i j = some worker' ∧
      worker'.phase = worker.phase ∧ worker'.queue.pending = worker.queue.pending ++ taken i j := by
  obtain ⟨worker', hworker'⟩ := Option.isSome_iff_exists.1 (h.kept i j (by rw [hworker]; rfl))
  obtain ⟨old, hold, hsame⟩ := h.back i j worker' hworker'
  obtain rfl := Option.some.inj (hworker.symm.trans hold)
  exact ⟨worker', hworker', hsame⟩

end Takes

end Device

namespace EnqueueCall
variable {call : EnqueueCall} {device device' : Device} {stage : EnqueueStage}

theorem Moves.underWay (h : call.Moves device device' stage) : call.UnderWay := by
  unfold UnderWay
  cases h <;> simp_all

/-- A call adds its command to the queue of the worker it is accepted at. -/
theorem Moves.takes (h : call.Moves device device' stage) :
    device.Takes device' fun i j => if stage = .accepted i j then [call.pushed] else [] := by
  cases h with
  | route stage target choice => exact Device.takes_of_eq fun i j => rfl
  | lose stage missing => exact Device.takes_of_eq fun i j => rfl
  | turnDown stage here closed => exact Device.takes_of_eq fun i j => rfl
  | retract stage => exact Device.takes_of_eq fun i j => rfl
  | announce stage here => exact Device.takes_nothing here (by simp) (by simp)
  | withdraw stage here => exact Device.takes_nothing here (by simp) (by simp)
  | push stage here pushes =>
    rename_i i j worker queue
    obtain ⟨-, rfl⟩ := Worker.push?_eq_some pushes
    have hphase : Worker.phase { worker with
        queue := { worker.queue with pending := worker.queue.pending ++ [call.pushed] } } =
      worker.phase := rfl
    simpa [eq_comm] using Device.takes_setWorker here hphase rfl

/-- Once a call is accepted, a worker has its command. -/
theorem Moves.handsOver {i j : Nat} (h : call.Moves device device' (.accepted i j)) :
    ∃ worker, device'.worker? i j = some worker ∧ call.pushed ∈ worker.pipeline := by
  obtain ⟨worker, here⟩ : ∃ worker, device.worker? i j = some worker := by
    cases h with
    | push stage here pushes => exact ⟨_, here⟩
  obtain ⟨worker', here', hphase, hpending⟩ := h.takes.on here
  refine ⟨worker', here', ?_⟩
  rw [Worker.pipeline_congr hphase hpending, if_pos rfl]
  exact List.mem_append_right _ (List.mem_singleton_self _)

/-- Only a call that takes back its event changes what is shared. -/
theorem Moves.shared (h : call.Moves device device' stage) : device'.shared = device.shared ∨
    (stage = .refused ∧
      device'.shared = { device.shared with events := device.shared.events.remove call.event }) := by
  cases h with
  | retract stage => exact .inr ⟨rfl, rfl⟩
  | _ => exact .inl (by simp)

/-- A call that has its event takes no more room for events. -/
theorem Moves.numbered (h : call.Moves device device' stage) (hroom : device.table.Numbered) :
    device'.table.Numbered := by
  have hsize : device'.table.slots.size = device.table.slots.size := by
    rcases h.shared with hshared | ⟨-, hshared⟩
    · rw [Device.table, hshared, Device.table]
    · rw [Device.table, hshared]
      exact EventTable.size_removeAll _ _ _
  unfold EventTable.Numbered at hroom ⊢
  rwa [hsize]

/-- The event of a call that was refused is gone. -/
theorem Moves.retracted (h : call.Moves device device' .refused) :
    device'.table.knows call.event = false := by
  cases h with
  | retract stage =>
    have hgone : EventTable.lookup? (device.table.removeTree call.event) call.event = none :=
      EventTable.lookup?_removeTree_of_linked .self
    simpa [EventTable.knows, Device.table, Device.setEvents, WaitList.remove] using hgone

end EnqueueCall

/-! ## Whose commands they are -/

namespace Host

/-- Calls and workers agree: every command of a worker is that of a call that was accepted there. -/
structure Roster (host : Host) : Prop where
  sink : host.device.shared.sink = .device
  distinct : (host.calls.map fun call => call.command.id).Nodup
  independent : ∀ call ∈ host.calls, call.command.Independent
  placed : ∀ i j worker, host.device.worker? i j = some worker → ∀ command ∈ worker.pipeline,
    ∃ call ∈ host.calls, call.stage = .accepted i j ∧ call.pushed = command
  once : ∀ i j worker, host.device.worker? i j = some worker →
    (worker.pipeline.map Command.id).Nodup

section Roster
variable {host : Host} {call other : EnqueueCall} {stage : EnqueueStage} {n i j : Nat}
  {device device' : Device} {worker : Worker}

/-- The calls after one of them has gone on. -/
theorem mem_goOn (hdistinct : (host.calls.map fun call => call.command.id).Nodup)
    (here : host.calls[n]? = some call) (stage : EnqueueStage) (other : EnqueueCall) :
    other ∈ host.calls.set n { call with stage } ↔ other = { call with stage } ∨
      (other ∈ host.calls ∧ other.command.id ≠ call.command.id) := by
  obtain ⟨hlt, hget⟩ := List.getElem?_eq_some_iff.1 here
  simp only [List.mem_iff_getElem?]
  constructor
  · rintro ⟨m, hm⟩
    by_cases heq : n = m
    · subst heq
      exact .inl (by simpa [hlt, eq_comm] using hm)
    · rw [List.getElem?_set_ne heq] at hm
      -- Ids are distinct, so a call with the same id stands at the same place.
      refine .inr ⟨⟨m, hm⟩, fun hid => heq ?_⟩
      obtain ⟨hlt', hget'⟩ := List.getElem?_eq_some_iff.1 hm
      have hsame : other = call := List.inj_on_of_nodup_map hdistinct (List.mem_of_getElem? hm)
        (List.mem_of_getElem? here) hid
      exact hdistinct.of_map.getElem_inj_iff.1 (hget.trans (hsame.symm.trans hget'.symm))
  · rintro (rfl | ⟨⟨m, hm⟩, hid⟩)
    · exact ⟨n, by simp [hlt]⟩
    · refine ⟨m, ?_⟩
      rw [List.getElem?_set_ne]
      · exact hm
      · rintro rfl
        rw [here, Option.some.injEq] at hm
        exact hid (congrArg (·.command.id) hm.symm)

theorem ids_goOn (here : host.calls[n]? = some call) :
    (host.calls.set n { call with stage }).map (fun call => call.command.id) =
      host.calls.map fun call => call.command.id := by
  obtain ⟨hlt, hget⟩ := List.getElem?_eq_some_iff.1 here
  rw [List.map_set]
  refine List.ext_getElem (by simp) fun m hm hm' => ?_
  by_cases heq : n = m
  · subst heq
    simp [hget]
  · simp [heq]

theorem Roster.eq_of_id (h : host.Roster) (hcall : call ∈ host.calls) (hother : other ∈ host.calls)
    (hid : call.command.id = other.command.id) : call = other :=
  List.inj_on_of_nodup_map h.distinct hcall hother hid

/-- The command of a call that is under way is nowhere yet. -/
theorem Roster.id_notMem (h : host.Roster) (hcall : call ∈ host.calls)
    (hstage : ∀ i j, call.stage ≠ .accepted i j) (hworker : host.device.worker? i j = some worker) :
    call.command.id ∉ worker.pipeline.map Command.id := by
  intro hmem
  obtain ⟨command, hcommand, hid⟩ := List.mem_map.1 hmem
  obtain ⟨other, hother, haccepted, rfl⟩ := h.placed i j worker hworker command hcommand
  obtain rfl := h.eq_of_id hcall hother hid.symm
  exact hstage i j haccepted

theorem Roster.independent_inHand (h : host.Roster) (here : host.device.worker? i j = some worker) :
    ∀ command ∈ worker.phase.inHand, command.Independent := by
  intro command hcommand
  obtain ⟨call, hcall, -, rfl⟩ := h.placed i j worker here command
    (Worker.pipeline_of_inHand hcommand ▸ List.mem_cons_self)
  exact h.independent call hcall

/-- What others do leaves the commands where they are. -/
theorem Roster.of_takes (h : host.Roster) {host' : Host} (hcalls : host.calls ⊆ host'.calls)
    (hdistinct : (host'.calls.map fun call => call.command.id).Nodup)
    (hindependent : ∀ call ∈ host'.calls, call.command.Independent)
    (hsink : host'.device.shared.sink = host.device.shared.sink)
    (htakes : host.device.Takes host'.device fun _ _ => []) : host'.Roster := by
  have hpipeline : ∀ i j worker', host'.device.worker? i j = some worker' → ∃ worker,
      host.device.worker? i j = some worker ∧ worker'.pipeline = worker.pipeline := by
    intro i j worker' hworker'
    obtain ⟨worker, hworker, hphase, hpending⟩ := htakes.back i j worker' hworker'
    exact ⟨worker, hworker, (Worker.pipeline_congr hphase hpending).trans (List.append_nil _)⟩
  refine ⟨hsink.trans h.sink, hdistinct, hindependent, ?_, ?_⟩
  · intro i j worker' hworker' command hcommand
    obtain ⟨worker, hworker, heq⟩ := hpipeline i j worker' hworker'
    obtain ⟨call, hcall, hplaced⟩ := h.placed i j worker hworker command (heq ▸ hcommand)
    exact ⟨call, hcalls hcall, hplaced⟩
  · intro i j worker' hworker'
    obtain ⟨worker, hworker, heq⟩ := hpipeline i j worker' hworker'
    rw [heq]
    exact h.once i j worker hworker

theorem Roster.goOn (h : host.Roster) (here : host.calls[n]? = some call)
    (hmoves : call.Moves host.device device stage) (makers : Event → Option CommandId)
    (log : List Happening) :
    Roster { device, calls := host.calls.set n { call with stage }, makers, log } := by
  have hcall := List.mem_of_getElem? here
  have hstage : ∀ i j, call.stage ≠ .accepted i j := fun i j heq => by
    simpa [EnqueueCall.UnderWay, heq] using hmoves.underWay
  have hmem := mem_goOn h.distinct here stage
  refine ⟨?_, ?_, fun other hother => ?_, fun i j worker' hworker' => ?_,
    fun i j worker' hworker' => ?_⟩
  · rcases hmoves.shared with hsame | ⟨-, hsame⟩ <;> rw [hsame] <;> exact h.sink
  · rw [ids_goOn here]
    exact h.distinct
  · rcases (hmem other).1 hother with rfl | ⟨hold, -⟩
    · exact h.independent call hcall
    · exact h.independent other hold
  all_goals
    obtain ⟨worker, hworker, hphase, hpending⟩ := hmoves.takes.back i j worker' hworker'
    rw [Worker.pipeline_congr hphase hpending]
  · intro command hcommand
    rcases List.mem_append.1 hcommand with hold | hnew
    · obtain ⟨other, hother, haccepted, rfl⟩ := h.placed i j worker hworker command hold
      refine ⟨other, (hmem other).2 (.inr ⟨hother, fun hid => ?_⟩), haccepted, rfl⟩
      exact hstage i j (h.eq_of_id hother hcall hid ▸ haccepted)
    · split at hnew
      · next haccepted =>
        exact ⟨_, (hmem _).2 (.inl rfl), haccepted, (List.mem_singleton.1 hnew).symm⟩
      · exact absurd hnew List.not_mem_nil
  · have hfresh := h.id_notMem hcall hstage hworker
    rw [List.map_append]
    refine List.nodup_append.2 ⟨h.once i j worker hworker, by split <;> simp, ?_⟩
    rintro id hid _ hnew rfl
    split at hnew
    · obtain rfl : id = call.command.id := by simpa [EnqueueCall.pushed, Command.withEvent] using hnew
      exact hfresh hid
    · simp at hnew

theorem Roster.work (h : host.Roster) {shared : Shared} {worker' : Worker}
    (here : host.device.worker? i j = some worker)
    (hturn : Worker.Turn host.device.shared worker shared worker')
    (makers : Event → Option CommandId) (log : List Happening) :
    Roster { host with
      device := { host.device.setWorker i j worker' with shared }
      makers
      log } := by
  -- A step never puts a command into a pipeline, it only takes the first one out.
  have hsuffix : worker'.pipeline <:+ worker.pipeline := by
    rcases hturn.pipeline h.sink with hsame | ⟨command, healthy, -, -, hpipeline⟩
    · exact hsame ▸ List.suffix_rfl
    · exact hpipeline ▸ List.suffix_cons command _
  have hworkers : ∀ i' j' other, (host.device.setWorker i j worker').worker? i' j' = some other →
      ∃ old, host.device.worker? i' j' = some old ∧ other.pipeline <:+ old.pipeline := by
    intro i' j' other hother
    rw [Device.worker?_setWorker here] at hother
    split at hother
    · next heq =>
      obtain ⟨rfl, rfl⟩ := heq
      obtain rfl := Option.some.inj hother
      exact ⟨worker, here, hsuffix⟩
    · exact ⟨other, hother, List.suffix_rfl⟩
  refine ⟨hturn.sink.trans h.sink, h.distinct, h.independent, ?_, ?_⟩
  · intro i' j' other hother command hcommand
    obtain ⟨old, hold, hpipeline⟩ := hworkers i' j' other hother
    exact h.placed i' j' old hold command (hpipeline.subset hcommand)
  · intro i' j' other hother
    obtain ⟨old, hold, hpipeline⟩ := hworkers i' j' other hother
    exact (h.once i' j' old hold).sublist (hpipeline.sublist.map Command.id)

theorem Roster.step {host' : Host} (h : host.Roster) (hstep : Step host host') : host'.Roster := by
  have hothers : ∀ {host' : Host}, host'.calls = host.calls →
      host'.device.shared.sink = host.device.shared.sink →
      host.device.Takes host'.device (fun _ _ => []) → host'.Roster := fun hcalls =>
    h.of_takes (hcalls ▸ List.Subset.refl _) (hcalls ▸ h.distinct) (hcalls ▸ h.independent)
  cases hstep with
  | enqueue command fresh independent =>
    refine h.of_takes (List.subset_append_left _ _) ?_ (fun call hcall => ?_) rfl
      (Device.takes_of_eq fun i j => rfl)
    · rw [List.map_append]
      refine List.nodup_append.2 ⟨h.distinct, by simp, fun id hid _ hnew heq => ?_⟩
      obtain ⟨call, hcall, rfl⟩ := List.mem_map.1 hid
      exact fresh call hcall (by simpa using heq.trans (List.mem_singleton.1 hnew))
    · rcases List.mem_append.1 hcall with hold | hnew
      · exact h.independent call hold
      · obtain rfl := List.mem_singleton.1 hnew
        exact independent
  | goOn here moves => exact h.goOn here moves _ _
  | close here => exact hothers rfl (by simp) (Device.takes_nothing here rfl rfl)
  | wait event => exact hothers rfl rfl (Device.takes_of_eq fun i j => rfl)
  | ask command => exact hothers rfl rfl (Device.takes_of_eq fun i j => rfl)
  | work here step given => exact h.work here (Worker.turn step) _ _
  | copy number step =>
    obtain ⟨shared, hcopy, rfl⟩ := Device.step?_copy.1 step
    refine hothers rfl ?_ (Device.takes_of_eq fun i j => rfl)
    obtain ⟨task, -, ⟨-, memory, stage, rfl⟩ | ⟨-, rfl⟩⟩ := Shared.stepCopy?_eq_some hcopy <;> rfl
  | waiter number step =>
    obtain ⟨events, -, rfl⟩ := Device.step?_waiter.1 step
    exact hothers rfl rfl (Device.takes_of_eq fun i j => rfl)
  | meanwhile shared events statuses copies sink =>
    exact hothers rfl sink (Device.takes_of_eq fun i j => rfl)

theorem roster_start {cores : Nat} {config : Config} {blockLimit : Fin Size.limit}
    (h : Device.create cores config blockLimit = .ok device) :
    Roster { device } := by
  obtain ⟨hfresh, memory, localMemory, hshared⟩ := Device.create_fresh h
  have hpipeline : ∀ i j worker, device.worker? i j = some worker → worker.pipeline = [] := by
    intro i j worker hworker
    have hworker := hfresh i j worker hworker
    simp [Worker.pipeline, Worker.outstanding, hworker.phase, hworker.queue, Phase.inHand]
  refine ⟨by rw [hshared], by simp, by simp, fun i j worker hworker => ?_,
    fun i j worker hworker => ?_⟩
  all_goals
    rw [hpipeline i j worker hworker]
    simp

theorem Reachable.roster (h : Reachable host) : host.Roster := by
  induction h with
  | start hcreate => exact roster_start hcreate
  | step _ hstep _ ih => exact ih.step hstep

end Roster

end Host

end ComputeCore
