import ComputeCore.Scheduling.Dispatch
import ComputeCore.Scheduling.Shared
/-!
# Workers

A worker is a thread with a queue. It takes commands out of the queue in order, carries each one
out, takes it off its load, and reports how it ended. A fault in kernel or host code only ends that
command, with the abnormal status. A fault that escapes the dispatch itself means that the worker
can no longer be trusted: it closes its queue, reports the command, and then fails everything still
queued without carrying it out.

`Worker.step?` is one atomic step of this thread. Submitting is a thread of its own: it announces
the command on the load, tries to push it, and takes the announcement back if the queue is closed.
-/

namespace ComputeCore

/-- The queue that feeds a worker. A closed queue accepts nothing more, and still hands out what is
in it. -/
structure CommandQueue where
  /-- What is waiting, first come first. -/
  pending : List Command := []
  closed : Bool := false
  deriving Inhabited

namespace CommandQueue

/-- Adds a command, unless the queue is closed. -/
def push? (queue : CommandQueue) (command : Command) : Option CommandQueue :=
  if queue.closed then none else some { queue with pending := queue.pending ++ [command] }

/-- Takes the first command out, if there is one. -/
def pop? (queue : CommandQueue) : Option (Command × CommandQueue) :=
  match queue.pending with
  | command :: pending => some (command, { queue with pending })
  | [] => none

/-- Accepts nothing more. -/
def close (queue : CommandQueue) : CommandQueue :=
  { queue with closed := true }

end CommandQueue

/-- How far a worker is with a command. -/
inductive Job where
  /-- Not begun. -/
  | fresh
  /-- Running host code. -/
  | native (body : Process Status)
  /-- Looking up the arguments of a dispatch. -/
  | binding (range : NDRange) (params : List KernelArg) (args : List BoundArg)
  /-- Between two invocations of a dispatch. -/
  | scheduling (dispatch : Dispatch)
  /-- In an invocation. -/
  | invoking (dispatch : Dispatch) (turn : Turn) (body : Process (Outcome × Frame))

/-- Where a worker is. -/
inductive Phase where
  /-- About to take the next command, or asleep until there is one. -/
  | fetching
  | running (command : Command) (job : Job)
  /-- A fault escaped the dispatch; the queue is about to be closed. -/
  | failing (command : Command)
  /-- The command is over and about to be taken off the load. -/
  | uncounting (command : Command) (ending : Ending) (healthy : Bool)
  /-- The end of the command is about to be reported. -/
  | reporting (command : Command) (ending : Ending) (healthy : Bool)
  /-- The command's event is about to be completed. -/
  | completing (command : Command) (healthy : Bool)
  /-- Failed, and about to take out the next command to fail. -/
  | draining
  | stopped

/-- A worker. -/
structure Worker where
  id : Nat
  /-- The core it is assigned to. -/
  core : Nat
  arena : LocalArena
  queue : CommandQueue := {}
  /-- The commands submitted to it and not completed. -/
  load : Nat := 0
  phase : Phase := .fetching

namespace Worker

/-! ## Submitting -/

/-- Counts a command that is about to be pushed. -/
def announce (worker : Worker) : Worker :=
  { worker with load := Size.succ worker.load }

/-- Takes back an announcement, or counts off a command that is over. -/
def withdraw (worker : Worker) : Worker :=
  { worker with load := Size.pred worker.load }

/-- Closes the queue. -/
def close (worker : Worker) : Worker :=
  { worker with queue := worker.queue.close }

/-- Submits a command; answers whether it was accepted. -/
def submit (worker : Worker) (command : Command) : Bool × Worker :=
  let announced := worker.announce
  match announced.queue.push? command with
  | some queue => (true, { announced with queue })
  | none => (false, announced.withdraw)

/-! ## Carrying out a command -/

/-- What one step of a job comes to. -/
inductive JobStep where
  | moved (shared : Shared) (arena : LocalArena) (job : Job)
  | ended (shared : Shared) (ending : Ending)
  /-- A fault escaped the dispatch. -/
  | broken (shared : Shared)
  /-- The job has to wait. -/
  | blocked

/-- One step of a process on behalf of a command. `ended` and `faulted` say what becomes of the job
when the process is over. -/
def stepProcess {α : Type} (shared : Shared) (command : CommandId) (body : Process α)
    (running : Process α → Shared → JobStep) (ended : α → JobStep) (faulted : JobStep) :
    JobStep :=
  match body with
  | .done value => ended value
  | .fault _ => faulted
  | .ask request next =>
    match shared.perform command request with
    | none => .blocked
    | some (.error fault) => running (.fault fault) shared
    | some (.ok (reply, shared)) => running (next reply) shared

/-- The first step of a job: services are carried out at once. -/
def begin (shared : Shared) (arena : LocalArena) : CommandKind → JobStep
  | .service service =>
    let (result, memory, hostBuffers) := service.execute shared.memory shared.hostBuffers
    let shared := { shared with memory, hostBuffers }
    match result with
    | .ok () => .ended shared .done
    | .error (.refused _) => .ended shared (.exit .abnormal)
    | .error (.fault _) => .broken shared
  | .exec none => .ended shared (.exit .abnormal)
  | .exec (some body) => .moved shared arena (.native body)
  | .ndrange range => .moved shared arena (.binding range range.args [])

/-- One step of a job. -/
def stepJob (shared : Shared) (arena : LocalArena) (command : Command) : Job → JobStep
  | .fresh => begin shared arena command.kind
  | .native body =>
    stepProcess shared command.id body
      (fun body shared => .moved shared arena (.native body))
      (fun status => .ended shared (.exit status))
      (.ended shared (.exit .abnormal))
  | .binding range [] args =>
    match Dispatch.create range args with
    | .ok dispatch => .moved shared arena (.scheduling dispatch)
    | .error _ => .broken shared
  | .binding range (param :: params) args =>
    match Dispatch.bindArg shared.memory param with
    | some arg => .moved shared arena (.binding range params (args ++ [arg]))
    | none => .ended shared (.exit .invalidValue)
  | .scheduling dispatch =>
    match dispatch.step arena with
    | .ok (.moved dispatch arena) => .moved shared arena (.scheduling dispatch)
    | .ok (.invoke turn item frame) =>
      .moved shared arena (.invoking dispatch turn (dispatch.kernel.invoke item frame))
    | .ok .finished => .ended shared .done
    | .error _ => .broken shared
  | .invoking dispatch turn body =>
    stepProcess shared command.id body
      (fun body shared => .moved shared arena (.invoking dispatch turn body))
      (fun (outcome, frame) =>
        match dispatch.accept turn outcome frame with
        | .ok (.goOn dispatch) => .moved shared arena (.scheduling dispatch)
        | .ok (.trapped status) => .ended shared (.exit status)
        | .error _ => .broken shared)
      (.ended shared (.exit .abnormal))

/-! ## The thread -/

/-- Where a worker goes once a command is reported. -/
def afterReport (healthy : Bool) : Phase :=
  if healthy then .fetching else .draining

/-- One step of the worker's thread, none while it has to wait or once it has stopped. -/
def step? (shared : Shared) (worker : Worker) : Option (Shared × Worker) :=
  match worker.phase with
  | .fetching =>
    match worker.queue.pop? with
    | some (command, queue) =>
      some (shared, { worker with queue, phase := .running command .fresh })
    | none => if worker.queue.closed then some (shared, { worker with phase := .stopped }) else none
  | .running command job =>
    match stepJob shared worker.arena command job with
    | .moved shared arena job => some (shared, { worker with arena, phase := .running command job })
    | .ended shared ending =>
      some (shared, { worker with phase := .uncounting command ending true })
    | .broken shared => some (shared, { worker with phase := .failing command })
    | .blocked => none
  | .failing command =>
    some (shared, { worker.close with phase := .uncounting command (.exit .abnormal) false })
  | .uncounting command ending healthy =>
    some (shared, { worker.withdraw with phase := .reporting command ending healthy })
  | .reporting command ending healthy =>
    let (completes, shared) := shared.report command.id ending
    let phase := if completes then .completing command healthy else afterReport healthy
    some (shared, { worker with phase })
  | .completing command healthy =>
    some (shared.complete command.event, { worker with phase := afterReport healthy })
  | .draining =>
    match worker.queue.pop? with
    | some (command, queue) =>
      some (shared, { worker with queue, phase := .uncounting command (.exit .abnormal) false })
    | none => if worker.queue.closed then some (shared, { worker with phase := .stopped }) else none
  | .stopped => none

/-- Lets a worker take up to `steps` steps. The flag says whether it took any. -/
def runFor : Nat → Shared → Worker → Bool → Bool × Shared × Worker
  | 0, shared, worker, moved => (moved, shared, worker)
  | steps + 1, shared, worker, moved =>
    match worker.step? shared with
    | none => (moved, shared, worker)
    | some (shared, worker) => runFor steps shared worker true

/-- The worker as it reads in logs. -/
def describe (worker : Worker) : String :=
  s!"Thread \x7b id: {worker.id}, cpu: {worker.core}, load: {worker.load} \x7d"

end Worker

end ComputeCore
