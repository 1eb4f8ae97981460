import ComputeCore.Refusal
import ComputeCore.Scheduling.Worker
/-!
# Multiprocessors

A multiprocessor is a fixed pool of workers. Kernels go to the worker with the lowest load, the
first one of several; everything else goes to the first worker, and so stays in order.
-/

namespace ComputeCore

/-- A pool of workers. -/
structure Multiprocessor where
  id : Nat
  workers : Array Worker

namespace Multiprocessor

/-- One worker for each of the given cores, and the heap with their arenas. -/
def spawnWorkers (localMemory : Nat) (heap : Heap) :
    Nat → List Nat → Except MemoryError (List Worker × Heap)
  | _, [] => .ok ([], heap)
  | id, core :: cores => do
    let (arena, heap) ← LocalArena.create heap localMemory
    let (workers, heap) ← spawnWorkers localMemory heap (id + 1) cores
    return ({ id, core, arena } :: workers, heap)

/-- A multiprocessor with one worker for each of the given cores. -/
def create (id : Nat) (cores : List Nat) (shared : Shared) :
    Except Refusal (Multiprocessor × Shared) :=
  if cores.isEmpty then .error (.invalidConfig s!"multiprocessor {id} has no workers")
  else
    match spawnWorkers shared.localMemory shared.memory.heap 0 cores with
    | .error error => .error (.memory error)
    | .ok (workers, heap) =>
      let memory := { shared.memory with heap }
      .ok ({ id, workers := workers.toArray }, { shared with memory })

/-- The position of the least of a list of loads, the first one of several. `best` is the least
one before position `next`, at position `found`. -/
def leastFrom (best found next : Nat) : List Nat → Nat
  | [] => found
  | load :: loads =>
    if load < best then leastFrom load next (next + 1) loads
    else leastFrom best found (next + 1) loads

/-- The loads of the workers. -/
def loads (multiprocessor : Multiprocessor) : List Nat :=
  multiprocessor.workers.toList.map (·.load)

/-- The position of the worker with the lowest load, the first one of several. -/
def leastLoaded (multiprocessor : Multiprocessor) : Nat :=
  match multiprocessor.loads with
  | [] => 0
  | load :: loads => leastFrom load 0 1 loads

/-- The position of the worker a command goes to. -/
def route (multiprocessor : Multiprocessor) (command : Command) : Nat :=
  if command.isNDRange then multiprocessor.leastLoaded else 0

/-- Submits a command to the worker it goes to; answers whether it was accepted. -/
def submit (multiprocessor : Multiprocessor) (command : Command) : Bool × Multiprocessor :=
  let target := multiprocessor.route command
  match multiprocessor.workers[target]? with
  | none => (false, multiprocessor)
  | some worker =>
    let (accepted, worker) := worker.submit command
    (accepted, { multiprocessor with
      workers := multiprocessor.workers.setIfInBounds target worker })

/-- The cores of the workers. -/
def cores (multiprocessor : Multiprocessor) : List Nat :=
  multiprocessor.workers.toList.map (·.core)

/-- The cores of the workers, each one once, in ascending order. -/
def pinnedCores (multiprocessor : Multiprocessor) : List Nat :=
  multiprocessor.cores.mergeSort.eraseDups

/-- Closes every worker's queue. What is queued is still carried out. -/
def shutdown (multiprocessor : Multiprocessor) : Multiprocessor :=
  { multiprocessor with workers := multiprocessor.workers.map Worker.close }

/-- Lets the workers from position `i` on take up to `steps` steps each, one worker after the
other. The flag says whether any took one. -/
def runFor (steps : Nat) : List Worker → Shared → Bool → Bool × Shared × List Worker
  | [], shared, moved => (moved, shared, [])
  | worker :: workers, shared, moved =>
    let (moved, shared, worker) := worker.runFor steps shared moved
    let (moved, shared, workers) := runFor steps workers shared moved
    (moved, shared, worker :: workers)

/-- The multiprocessor as it reads in logs. -/
def describe (multiprocessor : Multiprocessor) : String :=
  let workers := ", ".intercalate (multiprocessor.workers.toList.map Worker.describe)
  s!"Multiprocessor \x7b id: {multiprocessor.id}, threads: [{workers}] \x7d"

end Multiprocessor

end ComputeCore
