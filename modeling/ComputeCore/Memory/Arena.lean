import ComputeCore.Memory.Error
/-!
# Local arenas

Each worker has an arena for the local memory of the work-group it runs. Before a group starts the
arena is reset to the kernel's static prefix, and every local argument is then carved off the top.
Running over the end means that the dispatch was sized wrong, and is a fault.
-/

namespace ComputeCore

/-- A bump allocator over one block. -/
structure LocalArena where
  base : Address
  capacity : Nat
  /-- Bytes handed out since the last reset, static prefix included. -/
  used : Nat := 0
  deriving DecidableEq, Inhabited

namespace LocalArena

/-- An arena over a fresh block of the heap. -/
def create (heap : Heap) (capacity : Nat) : Except MemoryError (LocalArena × Heap) :=
  match heap.allocate? capacity with
  | none => .error (.hostAllocation capacity)
  | some (base, heap) => .ok ({ base, capacity }, heap)

/-- Bytes not handed out. -/
def remaining (arena : LocalArena) : Nat :=
  arena.capacity - arena.used

/-- All of the arena's memory. -/
def region (arena : LocalArena) : Region :=
  { start := arena.base, size := arena.capacity }

/-- Takes back everything but a static prefix. -/
def reset (arena : LocalArena) (staticSize : Nat) : Except Fault LocalArena :=
  if arena.capacity < staticSize then .error (.staticLocalOverflow staticSize arena.capacity)
  else .ok { arena with used := staticSize }

/-- Hands out the next `size` bytes. -/
def alloc (arena : LocalArena) (size : Nat) : Except Fault (Address × LocalArena) :=
  if arena.remaining < size then .error (.arenaOverflow size arena.used arena.capacity)
  else .ok (arena.base.advance arena.used, { arena with used := arena.used + size })

end LocalArena

end ComputeCore
