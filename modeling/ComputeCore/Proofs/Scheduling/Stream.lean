import Mathlib.Logic.Relation
import ComputeCore.Proofs.Dict
import ComputeCore.Proofs.Scheduling.Host
import ComputeCore.Proofs.Scheduling.Services
/-!
# Service commands in sequence

One client enqueues service commands one after the other, without waiting for any of them, and nobody
else touches the memory. All of them go to the first worker of the first multiprocessor, whatever the
device is like, and that worker carries them out in the order they were submitted in, those that the
memory refuses included. So they come to what `ServiceCommand.execute` comes to for one after the other
(`Stream.in_sequence`), and each command takes nine steps on its way there.
-/

namespace ComputeCore

/-- The service has no arguments that make it panic. -/
def ServiceCommand.Faultless (service : ServiceCommand) : Prop :=
  ∀ memory hostBuffers fault, (service.execute memory hostBuffers).1 ≠ .error (.fault fault)

/-- Only a read of more bytes than fit in a host buffer panics. -/
theorem ServiceCommand.faultless_iff (service : ServiceCommand) : service.Faultless ↔
    ∀ buffer offset length hostBuffer, service = .readBuffer buffer offset length hostBuffer →
      Size.fitsArray length 1 = .ok () := by
  constructor
  · rintro h buffer offset length hostBuffer rfl
    cases hfits : Size.fitsArray length 1 with
    | ok => rfl
    | error fault => exact absurd (by simp [execute, hfits]) (h (.ofCapacity 0) #[] fault)
  · intro h memory hostBuffers fault hfault
    rcases service.execute_cases memory hostBuffers with
      ⟨hlong, -⟩ | ⟨-, error, -, hrefused⟩ | ⟨-, -, hdone⟩
    · cases service with
      | readBuffer buffer offset length hostBuffer =>
        have hfits := h _ _ _ _ rfl
        simp [Size.fitsArray, Nat.not_le.2 hlong] at hfits
      | marker | barrier | writeBuffer | copyBuffer | fillBuffer => exact hlong.elim
    · simp [hrefused] at hfault
    · simp [hdone] at hfault

/-- How a service ends. -/
def Ending.ofResult : Except MemoryFailure Unit → Ending
  | .ok () => .done
  | .error _ => .exit .abnormal

theorem Ending.ofResult_cases (result : Except MemoryFailure Unit) :
    ofResult result = .done ∨ ofResult result = .exit .abnormal := by
  cases result with
  | ok => exact .inl rfl
  | error => exact .inr rfl

/-- The statuses a device has after this report. -/
def Report.enter (report : Report) (statuses : Dict CommandId Status) : Dict CommandId Status :=
  match report.ending with
  | .done => statuses
  | .exit status => statuses.insert report.command status

/-- The service that a command asks for, under the command's identity. -/
def Command.service? (command : Command) : Option (CommandId × ServiceCommand) :=
  match command.kind with
  | .service service => some (command.id, service)
  | _ => none

theorem Command.service?_of_kind {command : Command} {service : ServiceCommand}
    (h : command.kind = .service service) : command.service? = some (command.id, service) := by
  simp [service?, h]

/-! ## One service after the other -/

/-- What services come to that are carried out one after the other. -/
structure Served where
  memory : GlobalMemory
  hostBuffers : Array Bytes
  /-- How they ended, first come first. -/
  reports : List Report := []

namespace Served

/-- Carries out one more service. -/
def serve (served : Served) (command : CommandId × ServiceCommand) : Served :=
  let (result, memory, hostBuffers) := command.2.execute served.memory served.hostBuffers
  { memory
    hostBuffers
    reports := served.reports ++ [{ command := command.1, ending := .ofResult result }] }

/-- Carries out services in this order. -/
def serveAll (served : Served) (commands : List (CommandId × ServiceCommand)) : Served :=
  commands.foldl serve served

theorem serveAll_concat (served : Served) (commands : List (CommandId × ServiceCommand))
    (command : CommandId × ServiceCommand) :
    served.serveAll (commands ++ [command]) = (served.serveAll commands).serve command :=
  List.foldl_concat ..

/-- A service ends normally or with the abnormal status. -/
theorem ending_of_mem {start : Served} (hstart : start.reports = [])
    (commands : List (CommandId × ServiceCommand)) :
    ∀ report ∈ (start.serveAll commands).reports,
      report.ending = .done ∨ report.ending = .exit .abnormal := by
  induction commands using List.reverseRecOn with
  | nil => simp [serveAll, hstart]
  | append_singleton commands command ih =>
    intro report hreport
    rw [serveAll_concat] at hreport
    rcases List.mem_append.1 hreport with hold | hnew
    · exact ih report hold
    · obtain rfl := List.mem_singleton.1 hnew
      exact Ending.ofResult_cases _

end Served

/-! ## The worker that serves -/

/-- The worker has had only services to carry out, without faults. -/
def Phase.Serving : Phase → Prop
  | .fetching => True
  | .running command job => job = .fresh ∧
    ∃ service, command.kind = .service service ∧ service.Faultless
  | .uncounting _ _ healthy | .reporting _ _ healthy | .completing _ healthy => healthy = true
  | _ => False

namespace Worker

/-- The commands the worker has still to carry out, first come first. -/
def ahead (worker : Worker) : List Command :=
  match worker.phase with
  | .running command _ => command :: worker.queue.pending
  | _ => worker.queue.pending

/-- What the worker has still to report of the command it has carried out. -/
def untold (worker : Worker) : List Report :=
  match worker.phase with
  | .uncounting command ending _ | .reporting command ending _ => [{ command := command.id, ending }]
  | _ => []

/-- How many steps the worker takes for what it has been given. -/
def toServe (worker : Worker) : Nat :=
  5 * worker.queue.pending.length +
    match worker.phase with
    | .running .. => 4
    | .uncounting .. => 3
    | .reporting .. => 2
    | .completing .. => 1
    | _ => 0

/-- What a step of a worker that serves does to the commands it has before it and to the memory. -/
inductive Advance (shared : Shared) (worker : Worker) (shared' : Shared) (worker' : Worker) : Prop
  | carry (ahead : worker'.ahead = worker.ahead) (memory : shared'.memory = shared.memory)
      (hostBuffers : shared'.hostBuffers = shared.hostBuffers)
      (untold : worker.report?.toList ++ worker'.untold = worker.untold)
  | serve (command : Command) (service : ServiceCommand) (result : Except MemoryFailure Unit)
      (kind : command.kind = .service service) (ahead : worker.ahead = command :: worker'.ahead)
      (quiet : worker.report? = none) (untold : worker.untold = [])
      (execute : service.execute shared.memory shared.hostBuffers =
        (result, shared'.memory, shared'.hostBuffers))
      (untold' : worker'.untold = [{ command := command.id, ending := .ofResult result }])

section Serving
variable {shared shared' : Shared} {worker worker' : Worker}

theorem stepJob_service {arena : LocalArena} {command : Command} {service : ServiceCommand}
    (hkind : command.kind = .service service) (hfaultless : service.Faultless) :
    stepJob shared arena command .fresh = .ended { shared with
      memory := (service.execute shared.memory shared.hostBuffers).2.1
      hostBuffers := (service.execute shared.memory shared.hostBuffers).2.2 }
      (.ofResult (service.execute shared.memory shared.hostBuffers).1) := by
  simp only [stepJob, hkind, begin]
  cases hresult : (service.execute shared.memory shared.hostBuffers).1 with
  | ok => rfl
  | error failure =>
    cases failure with
    | refused => rfl
    | fault fault => exact absurd hresult (hfaultless _ _ fault)

/-- A device takes down what it is told, and has the event completed. -/
theorem report_device (hsink : shared.sink = .device) (command : CommandId) (ending : Ending) :
    shared.report command ending = (true, { shared with
      statuses := Report.enter { command, ending } shared.statuses }) := by
  cases shared
  cases hsink
  cases ending <;> rfl

/-- A worker that serves goes on serving, one step nearer to the end. -/
theorem Turn.serving (hturn : Turn shared worker shared' worker') (hserving : worker.phase.Serving)
    (hopen : worker.queue.closed = false) (hsink : shared.sink = .device)
    (hahead : ∀ command ∈ worker.ahead, ∃ service, command.kind = .service service ∧ service.Faultless) :
    Advance shared worker shared' worker' ∧ worker'.phase.Serving ∧ worker'.queue.closed = false ∧
      worker'.toServe + 1 = worker.toServe ∧ shared'.sink = .device ∧
      shared'.statuses = worker.report?.elim shared.statuses (·.enter shared.statuses) := by
  cases hturn with
  | start phase pending =>
    refine ⟨.carry ?_ rfl rfl ?_, ⟨rfl, hahead _ ?_⟩, hopen, ?_, hsink, by simp [report?, phase]⟩ <;>
      simp [ahead, untold, report?, toServe, phase, pending]
    omega
  | stop phase pending closed => simp [hopen] at closed
  | go phase step | breakDown phase step =>
    rw [phase] at hserving
    obtain ⟨rfl, service, hkind, hfaultless⟩ := hserving
    rw [stepJob_service hkind hfaultless] at step
    cases step
  | finish phase step =>
    rename_i command job ending
    rw [phase] at hserving
    obtain ⟨rfl, service, hkind, hfaultless⟩ := hserving
    rw [stepJob_service hkind hfaultless] at step
    cases step
    exact ⟨.serve command service _ hkind (by simp [ahead, phase]) (by simp [report?, phase])
      (by simp [untold, phase]) rfl rfl, rfl, hopen, by simp [toServe, phase], hsink, by simp [report?, phase]⟩
  | uncount phase =>
    rw [phase] at hserving
    exact ⟨.carry (by simp [ahead, phase]) rfl rfl (by simp [report?, untold, phase]), hserving,
      by simpa using hopen, by simp [toServe, phase], hsink, by simp [report?, phase]⟩
  | report phase =>
    rename_i command ending healthy
    rw [phase] at hserving
    rw [report_device hsink]
    exact ⟨.carry (by simp [ahead, phase]) rfl rfl (by simp [report?, untold, phase]), hserving, hopen,
      by simp [toServe, phase], hsink, by simp [report?, phase]⟩
  | complete phase =>
    rename_i command healthy
    rw [phase] at hserving
    obtain rfl : healthy = true := hserving
    refine ⟨.carry ?_ ?_ ?_ ?_, trivial, hopen, ?_, ?_, ?_⟩ <;>
      cases command.event <;>
        simp [ahead, untold, report?, toServe, phase, afterReport, Shared.complete, hsink]
  | giveUp phase | fail phase pending => simp [phase, Phase.Serving] at hserving

/-- A worker that serves waits only when it has nothing before it. -/
theorem serving_idle (hserving : worker.phase.Serving) (hstep : worker.step? shared = none) :
    worker.phase = .fetching ∧ worker.queue.pending = [] := by
  cases hphase : worker.phase with
  | fetching => exact ⟨rfl, (pop_blocked (by rw [hphase]; trivial) hstep).1⟩
  | running command job =>
    rw [hphase] at hserving
    obtain ⟨rfl, service, hkind, hfaultless⟩ := hserving
    simp [step?, hphase, stepJob_service hkind hfaultless] at hstep
  | uncounting | reporting | completing => simp [step?, hphase] at hstep
  | failing | draining | stopped => simp [hphase, Phase.Serving] at hserving

end Serving

end Worker

/-! ## Streams -/

/-- A device and a client that enqueues services on it. -/
structure Stream where
  device : Device
  calls : List EnqueueCall := []
  /-- What the device was told, oldest first. -/
  told : List Report := []
  /-- What was answered to those who asked for the exit status of a command. -/
  answers : List (CommandId × Option Status) := []
  /-- How many steps the client and the workers have taken. -/
  steps : Nat := 0

namespace Stream

/-- One step of one thread. -/
inductive Step : Stream → Stream → Prop
  /-- The client enqueues the next service, as soon as the last call has answered. -/
  | enqueue {stream} (command : Command) {service : ServiceCommand}
      (kind : command.kind = .service service) (faultless : service.Faultless)
      (free : ∀ call ∈ stream.calls, ¬ call.UnderWay) :
      Step stream { stream with
        device := stream.device.setEvents stream.device.shared.events.newEvent.2
        calls := stream.calls ++ [{ command, event := stream.device.shared.events.newEvent.1 }]
        steps := stream.steps + 1 }
  | goOn {stream n call device stage} (here : stream.calls[n]? = some call)
      (moves : call.Moves stream.device device stage) :
      Step stream { stream with
        device
        calls := stream.calls.set n { call with stage }
        steps := stream.steps + 1 }
  | work {stream i j worker shared worker'} (here : stream.device.worker? i j = some worker)
      (step : worker.step? stream.device.shared = some (shared, worker')) :
      Step stream { stream with
        device := { stream.device.setWorker i j worker' with shared }
        told := stream.told ++ worker.report?.toList
        steps := stream.steps + 1 }
  /-- Somebody asks for the exit status of a command. -/
  | ask {stream} (command : CommandId) :
      Step stream { stream with
        device := (stream.device.takeStatus command).2
        answers := stream.answers ++ [(command, (stream.device.takeStatus command).1)] }
  /-- Others do what has nothing to do with the memory and what the device is told. -/
  | aside {stream} (shared : Shared) (memory : shared.memory = stream.device.shared.memory)
      (hostBuffers : shared.hostBuffers = stream.device.shared.hostBuffers)
      (statuses : shared.statuses = stream.device.shared.statuses)
      (sink : shared.sink = stream.device.shared.sink) :
      Step stream { stream with device := { stream.device with shared } }

/-- The services of the stream, in the order they are submitted in. -/
def services (stream : Stream) : List (CommandId × ServiceCommand) :=
  stream.calls.filterMap (·.command.service?)

/-- All calls have answered, and no worker has anything to do. -/
def Over (stream : Stream) : Prop :=
  (∀ call ∈ stream.calls, ¬ call.UnderWay) ∧ ∀ i j, stream.device.step? (.worker i j) = none

/-- This exit status of the command stands recorded, or somebody was given it. -/
def Recorded (stream : Stream) (command : CommandId) (status : Status) : Prop :=
  stream.device.shared.statuses.find? command = some status ∨ (command, some status) ∈ stream.answers

/-- The stream is carried out in sequence. -/
structure InSequence (start : Served) (stream : Stream) : Prop where
  /-- No call is refused. -/
  accepted : ∀ call ∈ stream.calls, call.UnderWay ∨ call.stage = .accepted 0 0
  /-- At any time the first services are carried out, and all of them are reported but for the last
  one. -/
  soFar : ∃ before after late, stream.services = before ++ after ∧ late.length ≤ 1 ∧
    start.serveAll before = {
      memory := stream.device.shared.memory
      hostBuffers := stream.device.shared.hostBuffers
      reports := stream.told ++ late }
  /-- In the end all of them are. -/
  served : stream.Over → start.serveAll stream.services = {
    memory := stream.device.shared.memory
    hostBuffers := stream.device.shared.hostBuffers
    reports := stream.told }
  recorded : ∀ command status,
    stream.Recorded command status ↔ { command, ending := .exit status } ∈ stream.told
  /-- While a call is under way it can go on. -/
  goesOn : ∀ call ∈ stream.calls, call.UnderWay → ∃ device stage, call.Moves stream.device device stage
  /-- No command takes more than nine steps. -/
  steps : stream.steps ≤ 9 * stream.calls.length ∧
    (stream.Over → stream.steps = 9 * stream.calls.length)

/-! ## What the steps keep -/

/-- A call that is under way is on its way to the first worker, and its command takes this many steps
more. -/
inductive Coming : Option EnqueueCall → Nat → Prop
  | free : Coming none 0
  | routing {call : EnqueueCall} (stage : call.stage = .routing) : Coming (some call) 8
  | announcing {call : EnqueueCall} (stage : call.stage = .announcing 0 0) : Coming (some call) 7
  | pushing {call : EnqueueCall} (stage : call.stage = .pushing 0 0) : Coming (some call) 6

/-- The first worker is this one, and the others have nothing to do. -/
def Alone (device : Device) (worker : Worker) : Prop :=
  device.worker? 0 0 = some worker ∧ ∀ i j other, device.worker? i j = some other →
    (i = 0 ∧ j = 0) ∨ ∀ shared, other.step? shared = none

/-- How a stream stands. The calls `before` have answered and `current` has not, and the worker has
carried out what is `gone`. -/
structure Standing (start : Served) (stream : Stream) (before : List EnqueueCall)
    (current : Option EnqueueCall) (left : Nat) (gone : List Command) (worker : Worker) : Prop where
  calls : stream.calls = before ++ current.toList
  answered : ∀ call ∈ before, call.stage = .accepted 0 0
  coming : Coming current left
  kinds : ∀ call ∈ stream.calls, ∃ service,
    call.command.kind = .service service ∧ service.Faultless
  alone : Alone stream.device worker
  serving : worker.phase.Serving
  isOpen : worker.queue.closed = false
  queued : before.map EnqueueCall.pushed = gone ++ worker.ahead
  served : start.serveAll (gone.filterMap Command.service?) = {
    memory := stream.device.shared.memory
    hostBuffers := stream.device.shared.hostBuffers
    reports := stream.told ++ worker.untold }
  sink : stream.device.shared.sink = .device
  recorded : ∀ command status,
    stream.Recorded command status ↔ { command, ending := .exit status } ∈ stream.told
  steps : stream.steps + left + worker.toServe = 9 * stream.calls.length

section Steps
variable {start : Served} {stream stream' : Stream} {before : List EnqueueCall}
  {current : Option EnqueueCall} {left : Nat} {gone : List Command} {worker : Worker}

theorem Coming.underWay {call : EnqueueCall} (h : Coming (some call) left) : call.UnderWay := by
  cases h with
  | routing stage | announcing stage | pushing stage => simp [EnqueueCall.UnderWay, stage]

theorem Coming.of_announcing {call : EnqueueCall} {i j : Nat} (h : Coming (some call) left)
    (hstage : call.stage = .announcing i j) : (i = 0 ∧ j = 0) ∧ left = 7 := by
  cases h with
  | announcing stage => simpa [stage, eq_comm] using hstage
  | routing stage | pushing stage => simp [stage] at hstage

theorem Coming.of_pushing {call : EnqueueCall} {i j : Nat} (h : Coming (some call) left)
    (hstage : call.stage = .pushing i j) : (i = 0 ∧ j = 0) ∧ left = 6 := by
  cases h with
  | pushing stage => simpa [stage, eq_comm] using hstage
  | routing stage | announcing stage => simp [stage] at hstage

theorem Coming.none_left (h : Coming none left) : left = 0 := by
  cases h
  rfl

theorem Standing.last (h : Standing start stream before current left gone worker) {n : Nat}
    {call : EnqueueCall} (hcall : stream.calls[n]? = some call) (hunderWay : call.UnderWay) :
    n = before.length ∧ current = some call := by
  rw [h.calls] at hcall
  rcases Nat.lt_or_ge n before.length with hlt | hge
  · rw [List.getElem?_append_left hlt] at hcall
    have hanswered := h.answered call (List.mem_of_getElem? hcall)
    simp [EnqueueCall.UnderWay, hanswered] at hunderWay
  · rw [List.getElem?_append_right hge] at hcall
    have hlt := (List.getElem?_eq_some_iff.1 hcall).1
    cases current with
    | none => simp at hlt
    | some other =>
      have hn : n - before.length = 0 := by simpa using hlt
      exact ⟨by omega, by simpa [hn] using hcall⟩

/-- The worker has still to carry out some of the services that were accepted. -/
theorem Standing.ahead (h : Standing start stream before current left gone worker) :
    ∀ command ∈ worker.ahead, ∃ service, command.kind = .service service ∧ service.Faultless := by
  intro command hcommand
  obtain ⟨call, hcall, rfl⟩ := List.mem_map.1 (h.queued ▸ List.mem_append_right gone hcommand)
  exact h.kinds call (h.calls ▸ List.mem_append_left _ hcall)

theorem Alone.replace {device device' : Device} {worker' : Worker} (h : Alone device worker)
    (hworkers : ∀ i j, device'.worker? i j =
      if i = 0 ∧ j = 0 then some worker' else device.worker? i j) : Alone device' worker' := by
  refine ⟨by simp [hworkers], fun i j other hother => ?_⟩
  rw [hworkers] at hother
  split at hother
  · next heq => exact .inl heq
  · exact h.2 i j other hother

/-- What changes neither the workers nor what they work on changes nothing for the stream. -/
theorem Standing.frame (h : Standing start stream before current left gone worker)
    {device : Device} (hworkers : ∀ i j, device.worker? i j = stream.device.worker? i j)
    (hshared : device.shared.memory = stream.device.shared.memory ∧
      device.shared.hostBuffers = stream.device.shared.hostBuffers ∧
      device.shared.statuses = stream.device.shared.statuses ∧
      device.shared.sink = stream.device.shared.sink) :
    Standing start { stream with device } before current left gone worker := by
  obtain ⟨hmemory, hhostBuffers, hstatuses, hsink⟩ := hshared
  exact { h with
    alone := by simpa only [Alone, hworkers] using h.alone
    served := by simpa only [hmemory, hhostBuffers] using h.served
    sink := hsink.trans h.sink
    recorded := fun command status => by simpa only [Recorded, hstatuses] using h.recorded command status }

/-- As long as no other status is reported than the abnormal one, all of them stand recorded. -/
theorem recorded_enter {report : Report}
    (h : ∀ command status, stream.Recorded command status ↔ { command, ending := .exit status } ∈ stream.told)
    (hends : ∀ other ∈ stream.told ++ [report], other.ending = .done ∨ other.ending = .exit .abnormal)
    (command : CommandId) (status : Status) :
    ((report.enter stream.device.shared.statuses).find? command = some status ∨
      (command, some status) ∈ stream.answers) ↔
        { command, ending := .exit status } ∈ stream.told ++ [report] := by
  have hold := h command status
  unfold Recorded at hold
  have hstatus : { command, ending := .exit status } ∈ stream.told ++ [report] → status = .abnormal :=
    fun hmem => by simpa using hends _ hmem
  obtain ⟨other, ending⟩ := report
  rw [List.mem_append, List.mem_singleton] at hstatus ⊢
  rcases hends _ (List.mem_append_right _ (List.mem_singleton_self _)) with hdone | hexit
  · obtain rfl : ending = .done := hdone
    simpa [Report.enter] using hold
  · obtain rfl : ending = .exit .abnormal := hexit
    simp only [Report.enter, Dict.find?_insert, Report.mk.injEq, Ending.exit.injEq] at hstatus ⊢
    by_cases hsame : command = other
    · rw [if_pos hsame]
      refine ⟨?_, fun hmem => .inl (by rw [hstatus hmem])⟩
      rintro (heq | hanswered)
      · exact .inr ⟨hsame, (Option.some.inj heq).symm⟩
      · exact .inl (hold.1 (.inr hanswered))
    · simpa [hsame] using hold

theorem Standing.enqueue (h : Standing start stream before current left gone worker)
    (command : Command) {service : ServiceCommand} (event : Event) (kind : command.kind = .service service)
    (faultless : service.Faultless) (free : ∀ call ∈ stream.calls, ¬ call.UnderWay) :
    Standing start { stream with
      calls := stream.calls ++ [{ command, event }]
      steps := stream.steps + 1 } before (some { command, event }) 8 gone worker := by
  obtain ⟨rfl, rfl⟩ : current = none ∧ left = 0 := by
    cases current with
    | none => exact ⟨rfl, h.coming.none_left⟩
    | some call => exact absurd h.coming.underWay (free call (by simp [h.calls]))
  refine { h with calls := by simp [h.calls], coming := .routing rfl, kinds := ?_, steps := ?_ }
  · intro call hcall
    rcases List.mem_append.1 hcall with hold | hnew
    · exact h.kinds call hold
    · obtain rfl := List.mem_singleton.1 hnew
      exact ⟨service, kind, faultless⟩
  · have := h.steps
    simp only [List.length_append, List.length_singleton]
    omega

/-- A call that is under way goes on to the first worker, and its command gets into the queue there. -/
theorem Coming.moves {device device' : Device} {call : EnqueueCall} {stage : EnqueueStage}
    (h : Coming (some call) left) (hmoves : call.Moves device device' stage)
    (hrange : call.command.isNDRange = false) (hhere : device.worker? 0 0 = some worker)
    (hopen : worker.queue.closed = false) : ∃ worker' taken,
      (∀ i j, device'.worker? i j = if i = 0 ∧ j = 0 then some worker' else device.worker? i j) ∧
      device'.shared = device.shared ∧ worker'.phase = worker.phase ∧
      worker'.queue = { worker.queue with pending := worker.queue.pending ++ taken } ∧
      ((taken = [] ∧ ∃ left', Coming (some { call with stage }) left' ∧ left = left' + 1) ∨
        (taken = [call.pushed] ∧ stage = .accepted 0 0 ∧ left = 6)) := by
  have hsame : ∀ i j, device.worker? i j = if i = 0 ∧ j = 0 then some worker else device.worker? i j := by
    intro i j
    split
    · next heq => rw [heq.1, heq.2, hhere]
    · rfl
  cases hmoves with
  | route stage target choice =>
    rename_i i j
    obtain rfl : i = 0 := by simpa [Device.route, hrange] using target
    obtain rfl : j = 0 := by simpa [hrange] using choice
    obtain rfl : left = 8 := by cases h <;> simp_all
    exact ⟨worker, [], hsame, rfl, rfl, by simp, .inl ⟨rfl, 7, .announcing rfl, rfl⟩⟩
  | announce stage here =>
    obtain ⟨⟨rfl, rfl⟩, rfl⟩ := h.of_announcing stage
    cases hhere.symm.trans here
    refine ⟨worker.announce, [], Device.worker?_setWorker hhere, Device.shared_setWorker .., by simp,
      by simp, .inl ⟨rfl, 6, .pushing rfl, rfl⟩⟩
  | push stage here pushes =>
    obtain ⟨⟨rfl, rfl⟩, rfl⟩ := h.of_pushing stage
    cases hhere.symm.trans here
    obtain ⟨-, rfl⟩ := Worker.push?_eq_some pushes
    exact ⟨_, _, Device.worker?_setWorker hhere, Device.shared_setWorker .., rfl, rfl, .inr ⟨rfl, rfl, rfl⟩⟩
  | lose stage missing =>
    obtain ⟨⟨rfl, rfl⟩, -⟩ := h.of_announcing stage
    simp [hhere] at missing
  | turnDown stage here closed =>
    obtain ⟨⟨rfl, rfl⟩, -⟩ := h.of_pushing stage
    cases hhere.symm.trans here
    simp [CommandQueue.push?, hopen] at closed
  | withdraw stage here | retract stage =>
    exfalso
    cases h <;> simp_all

/-- The current call takes a step, and its command may come into the queue by it. -/
theorem Standing.pass (h : Standing start stream before current left gone worker) {device : Device}
    {calls before' : List EnqueueCall} {current' : Option EnqueueCall} {left' : Nat} {worker' : Worker}
    {taken : List Command} (hworkers : ∀ i j, device.worker? i j =
      if i = 0 ∧ j = 0 then some worker' else stream.device.worker? i j)
    (hshared : device.shared = stream.device.shared) (hphase : worker'.phase = worker.phase)
    (hqueue : worker'.queue = { worker.queue with pending := worker.queue.pending ++ taken })
    (hkinds : ∀ call ∈ calls, ∃ service, call.command.kind = .service service ∧ service.Faultless)
    (hcalls : calls = before' ++ current'.toList) (hlength : calls.length = stream.calls.length)
    (hanswered : ∀ call ∈ before', call.stage = .accepted 0 0) (hcoming : Coming current' left')
    (hqueued : before'.map EnqueueCall.pushed = before.map EnqueueCall.pushed ++ taken)
    (hleft : left' + 5 * taken.length + 1 = left) :
    Standing start { stream with device, calls, steps := stream.steps + 1 }
      before' current' left' gone worker' := by
  have hahead : worker'.ahead = worker.ahead ++ taken := by
    simp only [Worker.ahead, hphase, hqueue]
    cases worker.phase <;> rfl
  have htoServe : worker'.toServe = worker.toServe + 5 * taken.length := by
    simp only [Worker.toServe, hphase, hqueue, List.length_append]
    omega
  have hsteps := h.steps
  exact {
    calls := hcalls
    answered := hanswered
    coming := hcoming
    kinds := hkinds
    alone := h.alone.replace hworkers
    serving := hphase ▸ h.serving
    isOpen := by rw [hqueue]; exact h.isOpen
    queued := by rw [hqueued, h.queued, hahead, List.append_assoc]
    served := by simpa only [hshared, Worker.untold, hphase] using h.served
    sink := by simpa only [hshared] using h.sink
    recorded := by simpa only [Recorded, hshared] using h.recorded
    steps := by simp only [hlength]; omega }

theorem Standing.goOn (h : Standing start stream before current left gone worker) {n : Nat}
    {call : EnqueueCall} {device : Device} {stage : EnqueueStage} (hcall : stream.calls[n]? = some call)
    (hmoves : call.Moves stream.device device stage) :
    ∃ before current left worker, Standing start { stream with
      device
      calls := stream.calls.set n { call with stage }
      steps := stream.steps + 1 } before current left gone worker := by
  obtain ⟨rfl, rfl⟩ := h.last hcall hmoves.underWay
  have hcalls : stream.calls = before ++ [call] := h.calls
  obtain ⟨service, hkind, hfaultless⟩ := h.kinds call (by simp [hcalls])
  have hkinds : ∀ other ∈ stream.calls.set before.length { call with stage }, ∃ service,
      other.command.kind = .service service ∧ service.Faultless := by
    intro other hother
    rcases List.mem_or_eq_of_mem_set hother with hold | rfl
    · exact h.kinds other hold
    · exact ⟨service, hkind, hfaultless⟩
  obtain ⟨worker', taken, hworkers, hshared, hphase, hqueue, hcases⟩ :=
    h.coming.moves hmoves (by simp [Command.isNDRange, hkind]) h.alone.1 h.isOpen
  rcases hcases with ⟨rfl, left', hcoming, hleft⟩ | ⟨rfl, rfl, rfl⟩
  · exact ⟨before, _, left', worker', h.pass hworkers hshared hphase hqueue hkinds (by simp [hcalls])
      (List.length_set ..) h.answered hcoming (by simp) (by simpa using hleft.symm)⟩
  · refine ⟨before ++ [{ call with stage := .accepted 0 0 }], none, 0, worker', h.pass hworkers hshared
      hphase hqueue hkinds (by simp [hcalls]) (List.length_set ..) (fun other hother => ?_) .free
      (by simp [EnqueueCall.pushed]) rfl⟩
    rcases List.mem_append.1 hother with hold | hnew
    · exact h.answered other hold
    · obtain rfl := List.mem_singleton.1 hnew
      rfl

/-- The first worker carries out the next service, or reports one. -/
theorem Standing.work (h : Standing start stream before current left gone worker)
    (hreports : start.reports = []) {i j : Nat} {other worker' : Worker} {shared : Shared}
    (hother : stream.device.worker? i j = some other)
    (hstep : other.step? stream.device.shared = some (shared, worker')) :
    ∃ gone, Standing start { stream with
      device := { stream.device.setWorker i j worker' with shared }
      told := stream.told ++ other.report?.toList
      steps := stream.steps + 1 } before current left gone worker' := by
  obtain ⟨rfl, rfl⟩ : i = 0 ∧ j = 0 := by
    refine (h.alone.2 i j other hother).resolve_right fun hidle => ?_
    rw [hidle] at hstep
    cases hstep
  cases h.alone.1.symm.trans hother
  obtain ⟨hadvance, hserving, hopen, htoServe, hsink, hstatuses⟩ :=
    (Worker.turn hstep).serving h.serving h.isOpen h.sink h.ahead
  have hworkers : ∀ i j, ({ stream.device.setWorker 0 0 worker' with shared } : Device).worker? i j =
      if i = 0 ∧ j = 0 then some worker' else stream.device.worker? i j :=
    Device.worker?_setWorker h.alone.1
  obtain ⟨gone', hqueued, hserved⟩ : ∃ gone', before.map EnqueueCall.pushed = gone' ++ worker'.ahead ∧
      start.serveAll (gone'.filterMap Command.service?) = {
        memory := shared.memory
        hostBuffers := shared.hostBuffers
        reports := stream.told ++ worker.report?.toList ++ worker'.untold } := by
    cases hadvance with
    | carry ahead memory hostBuffers untold =>
      refine ⟨gone, by rw [ahead, h.queued], ?_⟩
      rw [h.served, memory, hostBuffers, List.append_assoc, untold]
    | serve command service result kind ahead quiet untold execute untold' =>
      refine ⟨gone ++ [command], by rw [h.queued, ahead, List.append_assoc, List.singleton_append], ?_⟩
      have hcommand : [command].filterMap Command.service? = [(command.id, service)] := by
        simp [Command.service?_of_kind kind]
      rw [List.filterMap_append, hcommand, Served.serveAll_concat, h.served]
      simp [Served.serve, execute, quiet, untold, untold']
  have hends : ∀ report ∈ stream.told ++ worker.report?.toList,
      report.ending = .done ∨ report.ending = .exit .abnormal := by
    intro report hreport
    refine Served.ending_of_mem hreports (gone'.filterMap Command.service?) report ?_
    rw [hserved]
    exact List.mem_append_left _ hreport
  refine ⟨gone', { h with
    alone := h.alone.replace hworkers
    serving := hserving
    isOpen := hopen
    queued := hqueued
    served := hserved
    sink := hsink
    recorded := fun command status => ?_
    steps := ?_ }⟩
  · simp only [Recorded, hstatuses]
    cases hreport : worker.report? with
    | none => simpa [Recorded] using h.recorded command status
    | some report => exact recorded_enter h.recorded (by simpa [hreport] using hends) command status
  · have := h.steps
    simp only
    omega

/-- A status that somebody is given stands recorded no more. -/
theorem Standing.ask (h : Standing start stream before current left gone worker) (command : CommandId) :
    Standing start { stream with
      device := (stream.device.takeStatus command).2
      answers := stream.answers ++ [(command, (stream.device.takeStatus command).1)] }
      before current left gone worker := by
  refine { h with recorded := fun other status => ?_ }
  rw [← h.recorded other status]
  simp only [Recorded, Device.takeStatus, Dict.find?_erase, List.mem_append, List.mem_singleton,
    Prod.mk.injEq]
  by_cases hsame : other = command
  · subst hsame
    simp [eq_comm, or_comm]
  · simp [hsame]

theorem Standing.step (h : Standing start stream before current left gone worker)
    (hreports : start.reports = []) (hstep : Step stream stream') :
    ∃ before current left gone worker, Standing start stream' before current left gone worker := by
  cases hstep with
  | enqueue command kind faultless free =>
    have hframe := h.frame (fun _ _ => rfl : ∀ i j, (stream.device.setEvents
      stream.device.shared.events.newEvent.2).worker? i j = _) ⟨rfl, rfl, rfl, rfl⟩
    exact ⟨_, _, _, _, _, hframe.enqueue command _ kind faultless free⟩
  | goOn here moves =>
    obtain ⟨before, current, left, worker, h⟩ := h.goOn here moves
    exact ⟨_, _, _, _, _, h⟩
  | work here step =>
    obtain ⟨gone, h⟩ := h.work hreports here step
    exact ⟨_, _, _, _, _, h⟩
  | ask command => exact ⟨_, _, _, _, _, h.ask command⟩
  | aside shared memory hostBuffers statuses sink =>
    exact ⟨_, _, _, _, _, h.frame (fun _ _ => rfl) ⟨memory, hostBuffers, statuses, sink⟩⟩

theorem Standing.services (h : Standing start stream before current left gone worker) :
    ∃ after, stream.services = gone.filterMap Command.service? ++ after ∧
      (current = none → worker.ahead = [] → after = []) := by
  have hbefore : before.filterMap (·.command.service?) =
      gone.filterMap Command.service? ++ worker.ahead.filterMap Command.service? := by
    rw [← List.filterMap_append, ← h.queued, List.filterMap_map]
    rfl
  refine ⟨worker.ahead.filterMap Command.service? ++
    current.toList.filterMap (·.command.service?), ?_, ?_⟩
  · rw [Stream.services, h.calls, List.filterMap_append, hbefore, List.append_assoc]
  · rintro rfl hahead
    simp [hahead]

theorem Standing.current_of_underWay (h : Standing start stream before current left gone worker)
    {call : EnqueueCall} (hcall : call ∈ stream.calls) (hunderWay : call.UnderWay) : current = some call := by
  obtain ⟨n, hn⟩ := List.getElem?_of_mem hcall
  exact (h.last hn hunderWay).2

/-- When nobody can go on, the worker has carried out and reported all it was given. -/
theorem Standing.of_over (h : Standing start stream before current left gone worker)
    (hover : stream.Over) :
    current = none ∧ left = 0 ∧ worker.ahead = [] ∧ worker.untold = [] ∧ worker.toServe = 0 := by
  have hwaits : worker.step? stream.device.shared = none := by
    cases hstep : worker.step? stream.device.shared with
    | none => rfl
    | some next =>
      have hdevice := Device.step?_worker.2 ⟨worker, next.1, next.2, h.alone.1, hstep, rfl⟩
      rw [hover.2 0 0] at hdevice
      cases hdevice
  obtain ⟨hphase, hpending⟩ := Worker.serving_idle h.serving hwaits
  obtain rfl : current = none := by
    cases current with
    | none => rfl
    | some call => exact absurd h.coming.underWay (hover.1 call (by simp [h.calls]))
  exact ⟨rfl, h.coming.none_left, by simp [Worker.ahead, hphase, hpending],
    by simp [Worker.untold, hphase], by simp [Worker.toServe, hphase, hpending]⟩

theorem Standing.inSequence (h : Standing start stream before current left gone worker) :
    stream.InSequence start := by
  obtain ⟨after, hservices, hnothing⟩ := h.services
  refine {
    accepted := fun call hcall => ?_
    soFar := ⟨_, after, worker.untold, hservices, ?_, h.served⟩
    served := fun hover => ?_
    recorded := h.recorded
    goesOn := fun call hcall hunderWay => ?_
    steps := ⟨by have := h.steps; omega, fun hover => ?_⟩ }
  · rw [h.calls] at hcall
    rcases List.mem_append.1 hcall with hbefore | hcurrent
    · exact .inr (h.answered call hbefore)
    · obtain rfl : current = some call := by simpa using hcurrent
      exact .inl h.coming.underWay
  · cases hphase : worker.phase <;> simp [Worker.untold, hphase]
  · obtain ⟨hcurrent, -, hahead, huntold, -⟩ := h.of_over hover
    rw [hservices, hnothing hcurrent hahead, List.append_nil, h.served, huntold, List.append_nil]
  · obtain rfl := h.current_of_underWay hcall hunderWay
    have hroute : stream.device.route call.command = 0 := by
      obtain ⟨service, hkind, -⟩ := h.kinds call hcall
      simp [Device.route, Command.isNDRange, hkind]
    cases h.coming with
    | routing stage => exact ⟨_, _, .route stage hroute.symm (.inr rfl)⟩
    | announcing stage => exact ⟨_, _, .announce stage h.alone.1⟩
    | pushing stage =>
      exact ⟨_, _, .push stage h.alone.1 (by simp only [CommandQueue.push?, h.isOpen]; rfl)⟩
  · obtain ⟨-, rfl, -, -, htoServe⟩ := h.of_over hover
    have := h.steps
    omega

/-- A new device with these contents of the memory and of the host's buffers stands at the beginning. -/
theorem standing_of_create {cores : Nat} {config : Config} {blockLimit : Fin Size.limit} {device : Device}
    (create : Device.create cores config blockLimit = .ok device) (memory : GlobalMemory)
    (hostBuffers : Array Bytes) : ∃ worker, Standing { memory, hostBuffers }
      { device := { device with shared := { device.shared with memory, hostBuffers } } }
      [] none 0 [] worker := by
  obtain ⟨hfresh, _, _, hshared⟩ := Device.create_fresh create
  obtain ⟨worker, here⟩ := Device.exists_worker_of_create create
  have hworker := hfresh 0 0 worker here
  exact ⟨worker, {
    calls := rfl
    answered := by simp
    coming := .free
    kinds := by simp
    alone := ⟨here, fun i j other hother => .inr fun shared => by
      have hother := hfresh i j other hother
      simp [Worker.step?, hother.phase, hother.queue, CommandQueue.pop?]⟩
    serving := by rw [hworker.phase]; trivial
    isOpen := by rw [hworker.queue]
    queued := by simp [Worker.ahead, hworker.phase, hworker.queue]
    served := by simp [Served.serveAll, Worker.untold, hworker.phase]
    sink := by rw [hshared]
    recorded := by simp [Recorded, hshared, Dict.find?, Dict.search]
    steps := by simp [Worker.toServe, hworker.phase, hworker.queue] }⟩

/-- Whatever the device, the services that one client enqueues on it are carried out in sequence. -/
theorem in_sequence {cores : Nat} {config : Config} {blockLimit : Fin Size.limit} {device : Device}
    (create : Device.create cores config blockLimit = .ok device) (memory : GlobalMemory)
    (hostBuffers : Array Bytes) (run : Relation.ReflTransGen Step
      { device := { device with shared := { device.shared with memory, hostBuffers } } } stream) :
    stream.InSequence { memory, hostBuffers } := by
  obtain ⟨before, current, left, gone, worker, h⟩ : ∃ before current left gone worker,
      Standing { memory, hostBuffers } stream before current left gone worker := by
    induction run with
    | refl =>
      obtain ⟨worker, h⟩ := standing_of_create create memory hostBuffers
      exact ⟨_, _, _, _, worker, h⟩
    | tail _ step ih =>
      obtain ⟨_, _, _, _, _, h⟩ := ih
      exact h.step rfl step
  exact h.inSequence

end Steps

/-- Three workers on two multiprocessors. -/
def twoPools : Config :=
  { multiprocessors := 2, workers := 3, pinThreads := false, globalMemory := 16, localMemory := 0 }

/-- A buffer is written, written past its end and read, all of it submitted before the worker begins. -/
theorem in_sequence_three : ∃ (device : Device) (stream : Stream),
    Device.create 1 twoPools = .ok device ∧ stream.InSequence {
      memory := (device.shared.memory.map (.buffer ⟨0⟩ 4)).2
      hostBuffers := #[#[7]] } ∧
    stream.told = [{ command := ⟨0⟩, ending := .done }, { command := ⟨1⟩, ending := .exit .abnormal },
      { command := ⟨2⟩, ending := .done }] ∧
    stream.device.shared.hostBuffers = #[#[0, 1, 2, 0]] := by
  have hcreate : Device.create 1 twoPools = .ok _ := rfl
  have hpushed := (fun {device} (_ : Device.create 1 twoPools = .ok device) =>
    Relation.ReflTransGen.refl (r := Step) (a := ({ device := { device with shared := { device.shared with
      memory := (device.shared.memory.map (.buffer ⟨0⟩ 4)).2
      hostBuffers := #[#[7]] } } } : Stream))) hcreate
    |>.tail (.enqueue { id := ⟨0⟩, kind := .service (.writeBuffer ⟨0⟩ 1 #[1, 2]) } rfl
      ((ServiceCommand.faultless_iff _).2 (by simp)) (by simp))
    |>.tail (.goOn (n := 0) rfl (.route (j := 0) rfl rfl (.inr rfl)))
    |>.tail (.goOn (n := 0) rfl (.announce rfl rfl))
    |>.tail (.goOn (n := 0) rfl (.push rfl rfl rfl))
    |>.tail (.enqueue { id := ⟨1⟩, kind := .service (.writeBuffer ⟨0⟩ 3 #[3, 4]) } rfl
      ((ServiceCommand.faultless_iff _).2 (by simp)) (by simp [EnqueueCall.UnderWay]))
    |>.tail (.goOn (n := 1) rfl (.route (j := 0) rfl rfl (.inr rfl)))
    |>.tail (.goOn (n := 1) rfl (.announce rfl rfl))
    |>.tail (.goOn (n := 1) rfl (.push rfl rfl rfl))
    |>.tail (.enqueue { id := ⟨2⟩, kind := .service (.readBuffer ⟨0⟩ 0 4 0) } rfl
      ((ServiceCommand.faultless_iff _).2 (by rintro _ _ _ _ ⟨⟩; rfl)) (by simp [EnqueueCall.UnderWay]))
    |>.tail (.goOn (n := 2) rfl (.route (j := 0) rfl rfl (.inr rfl)))
    |>.tail (.goOn (n := 2) rfl (.announce rfl rfl))
    |>.tail (.goOn (n := 2) rfl (.push rfl rfl rfl))
  have hfirst := hpushed
    |>.tail (.work (i := 0) (j := 0) rfl rfl) |>.tail (.work (i := 0) (j := 0) rfl rfl)
    |>.tail (.work (i := 0) (j := 0) rfl rfl) |>.tail (.work (i := 0) (j := 0) rfl rfl)
    |>.tail (.work (i := 0) (j := 0) rfl rfl)
  have hsecond := hfirst
    |>.tail (.work (i := 0) (j := 0) rfl rfl) |>.tail (.work (i := 0) (j := 0) rfl rfl)
    |>.tail (.work (i := 0) (j := 0) rfl rfl) |>.tail (.work (i := 0) (j := 0) rfl rfl)
    |>.tail (.work (i := 0) (j := 0) rfl rfl)
  have hthird := hsecond
    |>.tail (.work (i := 0) (j := 0) rfl rfl) |>.tail (.work (i := 0) (j := 0) rfl rfl)
    |>.tail (.work (i := 0) (j := 0) rfl rfl) |>.tail (.work (i := 0) (j := 0) rfl rfl)
  exact ⟨_, _, hcreate, in_sequence hcreate _ _ hthird, rfl, by decide +kernel⟩

end Stream

end ComputeCore
