import ComputeCore.SpinLock
/-!
# A client of the global lock

A client takes and releases the lock by hand, or takes it with a guard that releases it when it is
dropped. Guards are dropped in the reverse order of their making. A client that would have to spin
is told that the lock is held instead.
-/

namespace ComputeCore

/-- A request to the lock. -/
inductive LockCall where
  | tryAcquire
  | acquire
  /-- Take the lock with a guard. -/
  | guard
  | release
  /-- Drop the guard made last. -/
  | dropGuard
  deriving DecidableEq, Inhabited

/-- What a request to the lock is answered with. -/
inductive LockReply where
  | flag (value : Bool)
  | done
  /-- The lock is held, and the caller would spin. -/
  | held
  deriving DecidableEq, Inhabited

/-- The lock and the guards a client holds. -/
structure LockClient where
  lock : SpinLock := {}
  guards : Nat := 0
  deriving DecidableEq, Inhabited

namespace LockClient

/-- Carries out a request. -/
def serve (client : LockClient) : LockCall → LockReply × LockClient
  | .tryAcquire =>
    let (taken, lock) := client.lock.tryAcquire
    (.flag taken, { client with lock })
  | .acquire =>
    match client.lock.acquire? with
    | some lock => (.done, { client with lock })
    | none => (.held, client)
  | .guard =>
    match client.lock.acquire? with
    | some lock => (.done, { lock, guards := client.guards + 1 })
    | none => (.held, client)
  | .release => (.done, { client with lock := client.lock.release })
  | .dropGuard =>
    match client.guards with
    | 0 => (.flag false, client)
    | guards + 1 => (.flag true, { lock := client.lock.release, guards })

end LockClient

end ComputeCore
