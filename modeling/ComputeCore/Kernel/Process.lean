import ComputeCore.CopyJob
import ComputeCore.Event.Handle
/-!
# Processes

Code that runs on a worker, a kernel invocation or a native function, is a `Process`: it computes,
asks its surroundings for one thing at a time, and goes on with the answer until it ends with a
value or a fault. A process holds no state of the runtime, so everything other threads could see or
disturb is a `Request`; between two requests a process is on its own.

Three requests may have to wait: for the global lock, for a latch, and for a wait to be over.
-/

namespace ComputeCore

/-- A line in the log of a command. -/
inductive LogLine where
  /-- A labelled record of a work-item: its group ids, its local ids and some words. -/
  | record (label : String) (groupIds localIds : List Nat) (values : List UInt64)
  | text (text : String)
  deriving DecidableEq, Inhabited

/-- What a process can ask of its surroundings. -/
inductive Request where
  /-- The bytes at an address. -/
  | read (start : Address) (size : Nat)
  /-- Put bytes at an address. -/
  | write (start : Address) (bytes : Bytes)
  /-- Make an event. -/
  | newEvent
  /-- Make an event linked under another one; a fault if that is unknown. -/
  | newChildEvent (parent : Event)
  /-- Have another thread do a copy and complete an event afterwards. -/
  | startCopy (job : CopyJob) (signal : Event)
  /-- Start to wait for an event. -/
  | enterWait (event : Event)
  /-- Go on once this wait is over. -/
  | leaveWait (waiter : Nat)
  /-- Go on once the global lock is taken. -/
  | acquireLock
  | releaseLock
  /-- Arrive at a latch. -/
  | arrive (latch : Nat)
  /-- Go on once the latch is open. -/
  | pass (latch : Nat)
  /-- Append to the list all commands share. -/
  | mark (label : String)
  /-- Append to the log of the command. -/
  | log (line : LogLine)
  /-- Use up one unit of the budget of `limit` units the command has; whether there was one left. -/
  | spend (limit : Nat)
  deriving DecidableEq, Inhabited

/-- What a request is answered with. -/
def Request.Reply : Request → Type
  | .read _ _ => Bytes
  | .newEvent | .newChildEvent _ => Event
  | .enterWait _ => Nat
  | .spend _ => Bool
  | _ => Unit

/-- Code that runs on a worker and ends with an `α`, if it does not end with a fault. -/
inductive Process (α : Type) where
  | done (value : α)
  | fault (fault : Fault)
  | ask (request : Request) (next : request.Reply → Process α)

namespace Process

variable {α β : Type}

/-- First one process, then another that depends on how the first one ended. -/
def bind (process : Process α) (next : α → Process β) : Process β :=
  match process with
  | done value => next value
  | fault f => fault f
  | ask request reply => ask request fun answer => (reply answer).bind next

instance : Monad Process where
  pure := done
  bind := bind

instance : Inhabited (Process α) := ⟨fault default⟩

/-- Asks for one thing. -/
def request (r : Request) : Process r.Reply :=
  ask r done

/-- A computation that may fault, as a process that asks for nothing. -/
def ofExcept : Except Fault α → Process α
  | .ok value => done value
  | .error f => fault f

/-- Passes a latch: arrives at it and waits until it is open. -/
def passLatch (latch : Nat) : Process Unit :=
  ask (.arrive latch) fun _ => ask (.pass latch) done

/-- Waits for an event. -/
def waitFor (event : Event) : Process Unit :=
  ask (.enterWait event) fun waiter => ask (.leaveWait waiter) done

/-- Waits for the events of a list that are there, one after the other. -/
def waitForAll : List (Option Event) → Process Unit
  | [] => done ()
  | none :: events => waitForAll events
  | some event :: events => (waitFor event).bind fun _ => waitForAll events

end Process

end ComputeCore
