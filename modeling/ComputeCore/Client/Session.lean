import ComputeCore.Client.Events
import ComputeCore.Client.Objects
import ComputeCore.Kernel.Program
import ComputeCore.Scheduling.Device
/-!
# Sessions

A session is one client's use of a device. The client numbers its objects, its events and its
commands from zero, has kernels by name, and describes a command by a `CommandSpec`. A command whose
index space is rejected is never built and gets no number.

Between two requests everything comes to rest: a session carries a request out with
`Session.serve` and then lets the device's threads run until none of them can go on.
-/

namespace ComputeCore

/-- A kernel argument as a client gives it. -/
inductive ArgSpec where
  | object (number : Nat)
  | localBytes (size : Nat)
  | value (bytes : Bytes)

/-- A command as a client describes it. -/
inductive CommandSpec where
  | marker
  | barrier
  /-- Read into a host buffer that holds these bytes before. -/
  | read (buffer offset length : Nat) (before : Bytes)
  | write (buffer offset : Nat) (data : Bytes)
  | copy (source sourceOffset target targetOffset length : Nat)
  | fill (buffer offset : Nat) (pattern : Bytes) (length : Nat)
  /-- Host code that passes a latch, leaves a mark, and then raises an alarm or ends with its
  status. -/
  | exec (latch : Option Nat) (mark alarm : Option String) (status : Status)
  | ndrange (kernel : String) (globals locals offsets : List Nat) (args : List ArgSpec)
  | task (kernel : String) (args : List ArgSpec)

/-- Why a command could not be built. -/
inductive BuildError where
  | indexSpace (error : IndexSpace.Error)
  /-- The description names a kernel or an object that is not there. -/
  | unknownName
  deriving DecidableEq, Inhabited

/-- What a client remembers of a command. -/
structure CommandRecord where
  command : Command
  /-- The event it was enqueued with, if it was accepted. -/
  event : Option Event := none
  /-- The host buffer it reads to. -/
  hostBuffer : Option Nat := none
  deriving Inhabited

/-- One client's use of a device. -/
structure Session where
  device : Device
  kernels : Dict String Kernel := {}
  objects : ObjectTable := {}
  events : EventNames := {}
  commands : Array CommandRecord := #[]
  /-- How many of the recorder's reports the client has seen. -/
  reportsSeen : Nat := 0

/-- The host code of a native command. -/
def hostCode (latch : Option Nat) (mark alarm : Option String) (status : Status) :
    Process Status := do
  if let some latch := latch then Process.passLatch latch
  if let some label := mark then Process.request (.mark label)
  match alarm with
  | some text => .fault (.raised text)
  | none => return status

namespace Session

/-- A session on a device. -/
def start (device : Device) (kernels : Dict String Kernel) : Session :=
  { device, kernels }

/-- The rounds a session gives its device to come to rest. Every command is bounded by its budget,
so this is far more than any of them takes. -/
def patience : Nat := 0x10000000000

/-- Lets the device come to rest. -/
def settle (session : Session) : Session :=
  { session with device := session.device.settle patience patience }

/-! ## Building commands -/

/-- The identity of the object with this number. -/
def objectId? (session : Session) (number : Nat) : Except BuildError ObjectId :=
  match session.objects.objects[number]? with
  | some object => .ok object.id
  | none => .error .unknownName

/-- The kernel of this name. -/
def kernel? (session : Session) (name : String) : Except BuildError Kernel :=
  match session.kernels.find? name with
  | some kernel => .ok kernel
  | none => .error .unknownName

/-- A kernel argument. -/
def arg? (session : Session) : ArgSpec → Except BuildError KernelArg
  | .object number => do return .object (← session.objectId? number)
  | .localBytes size => .ok (.localBytes size)
  | .value bytes => .ok (.value bytes)

/-- What a described command does. Reads go to the host buffer with the given number. -/
def kind? (session : Session) (hostBuffer : Nat) : CommandSpec → Except BuildError CommandKind
  | .marker => .ok (.service .marker)
  | .barrier => .ok (.service .barrier)
  | .read buffer offset length _ => do
    return .service (.readBuffer (← session.objectId? buffer) offset length hostBuffer)
  | .write buffer offset data => do
    return .service (.writeBuffer (← session.objectId? buffer) offset data)
  | .copy source sourceOffset target targetOffset length => do
    let source ← session.objectId? source
    let target ← session.objectId? target
    return .service (.copyBuffer source sourceOffset target targetOffset length)
  | .fill buffer offset pattern length => do
    return .service (.fillBuffer (← session.objectId? buffer) offset pattern length)
  | .exec latch mark alarm status => .ok (.exec (some (hostCode latch mark alarm status)))
  | .ndrange kernel globals locals offsets args => do
    let kernel ← session.kernel? kernel
    let args ← args.mapM session.arg?
    match IndexSpace.make globals locals offsets with
    | .ok space => return .ndrange { space, kernel, args }
    | .error error => throw (.indexSpace error)
  | .task kernel args => do
    let kernel ← session.kernel? kernel
    let args ← args.mapM session.arg?
    return .ndrange { space := .single, kernel, args }

/-- What a read's host buffer holds before it, none for other commands. -/
def before? : CommandSpec → Option Bytes
  | .read _ _ _ before => some before
  | _ => none

/-- Builds a command and numbers it. -/
def build (session : Session) (spec : CommandSpec) :
    Except BuildError (Nat × Command × Session) := do
  let shared := session.device.shared
  let number := session.commands.size
  let kind ← session.kind? shared.hostBuffers.size spec
  let command : Command := { id := { raw := number }, kind }
  match before? spec with
  | none =>
    return (number, command, { session with commands := session.commands.push { command } })
  | some before =>
    let hostBuffer := shared.hostBuffers.size
    let shared := { shared with hostBuffers := shared.hostBuffers.push before }
    return (number, command, { session with
      device := { session.device with shared }
      commands := session.commands.push { command, hostBuffer := some hostBuffer } })

/-! ## What a client can see -/

/-- What a command has logged so far. -/
def log (session : Session) (number : Nat) : List LogLine :=
  (session.device.shared.logs.findD { raw := number } #[]).toList

/-- What the host buffer of a read holds, none for other commands. -/
def target? (session : Session) (number : Nat) : Option Bytes := do
  let record ← session.commands[number]?
  let hostBuffer ← record.hostBuffer
  session.device.shared.hostBuffers[hostBuffer]?

/-- The completions the recorder took down that the client has not seen yet. -/
def unseenReports (session : Session) : List Report :=
  session.device.shared.reports.toList.drop session.reportsSeen

/-! ## Requests -/

/-- A request of a client. -/
inductive Call where
  | memory (call : MemoryCall)
  | event (call : EventCall)
  | enqueue (spec : CommandSpec)
  /-- Enqueue and wait. -/
  | run (spec : CommandSpec)
  | submit (spec : CommandSpec) (event : Option EventName)
  /-- Wait for a command by number. -/
  | wait (command : Nat)
  | await (event : EventName)
  | status (command : Nat)
  | statuses
  | liveEvents
  | lockHeld
  | releaseLock
  | shutdown
  | openLatch (latch : Nat)
  | seen (command : Nat)
  | marks
  | loads
  | pending
  | closed
  | workers
  | leastLoaded
  | describePools
  | describe
  /-- Report a command as over. -/
  | notify (spec : CommandSpec) (ending : Ending)
  /-- The next reports, as many as there are up to a number, as they came or by command. -/
  | receive (count : Nat) (byCommand : Bool)
  /-- All reports there are. -/
  | receiveRest
  | pinnedCores
  | cores
  /-- Give up the device: its workers finish what is queued. -/
  | drop
  /-- Stop taking notes of completions. -/
  | dropSink

/-- What a request is answered with. -/
inductive Reply where
  | memory (reply : MemoryReply)
  | event (reply : EventReply)
  | notBuilt (error : BuildError)
  /-- A command was built, and accepted if it has an event. -/
  | enqueued (command : Nat) (event : Option Event)
  | submitted (command : Nat) (accepted : Bool)
  /-- What became of a command, and the event of one that was just run. -/
  | finished (command : Nat) (event : Option Event) (log : List LogLine) (target : Option Bytes)
      (status : Option Status)
  | progress (log : List LogLine) (target : Option Bytes)
  | status (status : Option Status)
  | count (n : Nat)
  | flag (value : Bool)
  | done
  | texts (texts : List String)
  | numbers (ns : List Nat)
  /-- A number for each worker of each multiprocessor. -/
  | workerNumbers (rows : List (List Nat))
  | workerFlags (rows : List (List Bool))
  /-- Each multiprocessor and the ids of its workers. -/
  | pools (rows : List (Nat × List Nat))
  | text (text : String)
  | reports (reports : List Report)

/-- Something about each worker of each multiprocessor. -/
def perWorker {α : Type} (session : Session) (f : Worker → α) : List (List α) :=
  session.device.multiprocessors.toList.map fun multiprocessor =>
    multiprocessor.workers.toList.map f

/-- Sends a thread to wait for an event and lets everything come to rest. -/
def awaitEvent (session : Session) (event : Event) : Session :=
  let (_, events) := session.device.shared.events.enterWait event
  { session with
    device := { session.device with shared := { session.device.shared with events } } }.settle

/-- What became of a command, its exit status taken. -/
def finish (session : Session) (number : Nat) (event : Option Event) : Reply × Session :=
  let (status, device) := session.device.takeStatus { raw := number }
  (.finished number event (session.log number) (session.target? number) status,
    { session with device })

/-- Builds a command and enqueues it. -/
def enqueue (session : Session) (spec : CommandSpec) :
    Except BuildError (Nat × Option Event × Session) := do
  let (number, command, session) ← session.build spec
  let (event, device) := session.device.enqueue command
  let events := match event with
    | some event => session.events.add event
    | none => session.events
  let commands := session.commands.modify number ({ · with event })
  return (number, event, { session with device, events, commands }.settle)

/-- The reports in the order of their commands. -/
def sortReports (reports : List Report) : List Report :=
  reports.mergeSort fun a b => a.command.raw ≤ b.command.raw

/-- Takes `count` reports as seen, and answers them. -/
def receive (session : Session) (count : Nat) (byCommand : Bool) : Reply × Session :=
  let reports := session.unseenReports.take count
  (.reports (if byCommand then sortReports reports else reports),
    { session with reportsSeen := session.reportsSeen + reports.length })

/-- Carries out a request, without waiting for what it sets off. -/
def serve (session : Session) : Call → Reply × Session
  | .memory call =>
    let (reply, objects, memory) := session.objects.serve session.device.shared.memory call
    (.memory reply, { session with
      objects, device := { session.device with shared := { session.device.shared with memory } } })
  | .event call =>
    let (reply, names, events) := session.events.serve session.device.shared.events call
    (.event reply, { session with
      events := names
      device := { session.device with shared := { session.device.shared with events } } })
  | .enqueue spec =>
    match session.enqueue spec with
    | .error error => (.notBuilt error, session)
    | .ok (number, event, session) => (.enqueued number event, session)
  | .run spec =>
    match session.enqueue spec with
    | .error error => (.notBuilt error, session)
    | .ok (number, none, session) => (.enqueued number none, session)
    | .ok (number, some event, session) => (session.awaitEvent event).finish number (some event)
  | .submit spec event =>
    match session.build spec with
    | .error error => (.notBuilt error, session)
    | .ok (number, command, session) =>
      let command := match event with
        | some name => command.withEvent (session.events.resolve name)
        | none => command
      let (accepted, device) := session.device.submit command
      (.submitted number accepted, { session with device })
  | .wait number =>
    match (session.commands[number]?).bind (·.event) with
    | some event => (session.awaitEvent event).finish number none
    | none => session.finish number none
  | .await name => (.done, session.awaitEvent (session.events.resolve name))
  | .status number =>
    let (status, device) := session.device.takeStatus { raw := number }
    (.status status, { session with device })
  | .statuses => (.count session.device.pendingStatuses, session)
  | .liveEvents => (.count session.device.shared.events.size, session)
  | .lockHeld => (.flag session.device.shared.lock.locked, session)
  | .releaseLock =>
    let shared := session.device.shared
    let shared := { shared with lock := shared.lock.release }
    (.done, { session with device := { session.device with shared } })
  | .shutdown => (.done, { session with device := session.device.shutdown })
  | .openLatch latch =>
    let shared := session.device.shared.openLatch latch
    (.done, { session with device := { session.device with shared } })
  | .seen number => (.progress (session.log number) (session.target? number), session)
  | .marks => (.texts session.device.shared.marks.toList, session)
  | .loads => (.workerNumbers (session.perWorker (·.load)), session)
  | .pending => (.workerNumbers (session.perWorker (·.queue.pending.length)), session)
  | .closed => (.workerFlags (session.perWorker (·.queue.closed)), session)
  | .workers =>
    let rows := session.device.multiprocessors.toList.map fun multiprocessor =>
      (multiprocessor.id, multiprocessor.workers.toList.map (·.id))
    (.pools rows, session)
  | .leastLoaded =>
    (.numbers (session.device.multiprocessors.toList.map Multiprocessor.leastLoaded), session)
  | .describePools =>
    (.texts (session.device.multiprocessors.toList.map Multiprocessor.describe), session)
  | .describe => (.text session.device.describe, session)
  | .notify spec ending =>
    match session.build spec with
    | .error error => (.notBuilt error, session)
    | .ok (_, command, session) =>
      (.done, { session with device := session.device.notify command ending })
  | .receive count byCommand => session.receive count byCommand
  | .receiveRest => session.receive session.unseenReports.length false
  | .pinnedCores =>
    (.numbers (session.device.multiprocessors.toList.flatMap Multiprocessor.pinnedCores), session)
  | .cores =>
    (.numbers (session.device.multiprocessors.toList.flatMap Multiprocessor.cores), session)
  | .drop =>
    let session' := { session with device := session.device.shutdown }.settle
    (.flag (!session.device.multiprocessors.isEmpty),
      { session' with device := { session'.device with multiprocessors := #[] } })
  | .dropSink =>
    let shared := { session.device.shared with sink := .gone }
    (.flag (session.device.shared.sink ≠ .gone),
      { session with device := { session.device with shared } })

/-- Carries out a request and lets everything come to rest. -/
def request (session : Session) (call : Call) : Reply × Session :=
  let (reply, session) := session.serve call
  (reply, session.settle)

end Session

end ComputeCore
