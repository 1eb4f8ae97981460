import ComputeCore.Dict
import ComputeCore.Kernel.Registry
import ComputeCore.Memory.Global
/-!
# Commands

A command is a piece of work for a worker. Service commands move bytes between global memory and
the host, or only mark a place in the queue. Native commands run host code. An NDRange command runs
a kernel over an index space.

Service commands are carried out against global memory and the host's buffers by
`ServiceCommand.execute`.
-/

namespace ComputeCore

/-- The identity of a command. -/
structure CommandId where
  raw : Nat
  deriving DecidableEq, Inhabited

/-- The identity as it reads in messages. -/
def CommandId.describe (id : CommandId) : String :=
  s!"cmd#{id.raw}"

/-- The status of a command that ended abnormally. -/
def Status.abnormal : Status := -1

/-- The status of a dispatch with an argument that is not mapped. -/
def Status.invalidValue : Status := -30

/-- Work carried out directly against global memory. -/
inductive ServiceCommand where
  | marker
  | barrier
  /-- Read into a buffer of the host, which takes on the length of the read. -/
  | readBuffer (buffer : ObjectId) (offset length : Nat) (hostBuffer : Nat)
  | writeBuffer (buffer : ObjectId) (offset : Nat) (data : Bytes)
  | copyBuffer (source : ObjectId) (sourceOffset : Nat) (target : ObjectId) (targetOffset : Nat)
      (length : Nat)
  | fillBuffer (buffer : ObjectId) (offset : Nat) (pattern : Bytes) (length : Nat)
  deriving DecidableEq, Inhabited

namespace ServiceCommand

/-- What kind of service it is. -/
def name : ServiceCommand → String
  | marker => "marker"
  | barrier => "barrier"
  | readBuffer .. => "read_buffer"
  | writeBuffer .. => "write_buffer"
  | copyBuffer .. => "copy_buffer"
  | fillBuffer .. => "fill_buffer"

/-- A host buffer cut or filled up with zeros to a length. -/
def resized (buffer : Bytes) (length : Nat) : Bytes :=
  buffer.extract 0 length ++ Array.replicate (length - buffer.size) 0

/-- Carries out a service against global memory and the host's buffers. A read first brings its
host buffer to the length of the read, and keeps it there if the read is refused. -/
def execute (memory : GlobalMemory) (hostBuffers : Array Bytes) :
    ServiceCommand → Except MemoryFailure Unit × GlobalMemory × Array Bytes
  | marker | barrier => (.ok (), memory, hostBuffers)
  | readBuffer buffer offset length hostBuffer =>
    match Size.fitsArray length 1 with
    | .error fault => (.error (.fault fault), memory, hostBuffers)
    | .ok () =>
      match memory.read buffer offset length with
      | .error error =>
        (.error (.refused error), memory, hostBuffers.modify hostBuffer (resized · length))
      | .ok bytes => (.ok (), memory, hostBuffers.setIfInBounds hostBuffer bytes)
  | writeBuffer buffer offset data => settle hostBuffers memory (memory.write buffer offset data)
  | copyBuffer source sourceOffset target targetOffset length =>
    settle hostBuffers memory (memory.copy source sourceOffset target targetOffset length)
  | fillBuffer buffer offset pattern length =>
    settle hostBuffers memory (memory.fill buffer offset pattern length)
where
  settle (hostBuffers : Array Bytes) (memory : GlobalMemory) :
      Except MemoryError GlobalMemory → Except MemoryFailure Unit × GlobalMemory × Array Bytes
    | .ok memory => (.ok (), memory, hostBuffers)
    | .error error => (.error (.refused error), memory, hostBuffers)

end ServiceCommand

/-- A kernel, the index space to run it over and its arguments. -/
structure NDRange where
  space : IndexSpace
  kernel : Kernel
  args : List KernelArg
  deriving Inhabited

/-- What a command does. -/
inductive CommandKind where
  | service (service : ServiceCommand)
  /-- Host code, taken out when it is run. -/
  | exec (body : Option (Process Status))
  | ndrange (range : NDRange)
  deriving Inhabited

/-- A command ready to be carried out. -/
structure Command where
  id : CommandId
  /-- The event to complete once the command is done. -/
  event : Option Event := none
  kind : CommandKind
  deriving Inhabited

namespace Command

/-- A dispatch of one work-item. -/
def task (id : CommandId) (kernel : Kernel) (args : List KernelArg) : Command :=
  { id, kind := .ndrange { space := .single, kernel, args } }

/-- The same command, completing `event` once it is done. -/
def withEvent (command : Command) (event : Event) : Command :=
  { command with event := some event }

/-- Whether the command runs a kernel. -/
def isNDRange (command : Command) : Bool :=
  match command.kind with
  | .ndrange _ => true
  | _ => false

/-- What kind of command it is. -/
def name (command : Command) : String :=
  match command.kind with
  | .service _ => "service"
  | .exec _ => "exec"
  | .ndrange _ => "nd_range"

/-- What kind of service it is, if it is one. -/
def serviceName? (command : Command) : Option String :=
  match command.kind with
  | .service service => some service.name
  | _ => none

/-- Host code or a kernel as it reads in logs. -/
def describe? (command : Command) : Option String :=
  match command.kind with
  | .service _ => none
  | .exec body => some s!"ExecCommand \x7b pending: {body.isSome} \x7d"
  | .ndrange range => some range.kernel.describe

end Command

end ComputeCore
