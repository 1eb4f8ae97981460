import ComputeCore.Size
/-!
# Configuration

A device is configured by the number of its multiprocessors, the number of its workers, whether
workers are pinned to cores, the capacity of global memory and the size of each worker's local
memory. Whatever is not given has a default; some defaults depend on the machine's cores.

From the environment, a number is taken if the text is an optional plus sign and decimal digits
that stay within the 64-bit range, and pinning is off exactly for the text `0`. Anything else, text
that is not valid Unicode included, counts as not given.
-/

namespace ComputeCore

/-- The configuration of a device. -/
structure Config where
  multiprocessors : Nat
  workers : Nat
  pinThreads : Bool
  globalMemory : Nat
  localMemory : Nat
  deriving DecidableEq, Inhabited

/-- The settings somebody chose; the rest is left to the defaults. -/
structure Settings where
  multiprocessors : Option Nat := none
  workers : Option Nat := none
  pinThreads : Option Bool := none
  globalMemory : Option Nat := none
  localMemory : Option Nat := none
  deriving DecidableEq, Inhabited

/-- The environment's texts for the settings, as raw bytes. -/
structure Environment where
  multiprocessors : Option ByteArray := none
  workers : Option ByteArray := none
  pinThreads : Option ByteArray := none
  globalMemory : Option ByteArray := none
  localMemory : Option ByteArray := none

/-! ## Reading texts -/

/-- The number that more digits make of the number so far. -/
def readDigits : List Char → Nat → Option Nat
  | [], n => some n
  | c :: rest, n =>
    if '0' ≤ c ∧ c ≤ '9' then
      let n' := 10 * n + (c.toNat - 48)
      if n' < Size.limit then readDigits rest n' else none
    else none

/-- The size a text stands for. -/
def readSize (text : String) : Option Nat :=
  match text.toList with
  | [] => none
  | ['+'] => none
  | '+' :: digits => readDigits digits 0
  | digits => readDigits digits 0

namespace Environment

/-- A variable's text as a size. -/
def size? (setting? : Option ByteArray) : Option Nat := do
  let raw ← setting?
  let text ← String.fromUTF8? raw
  readSize text

/-- A variable's text as a switch, off for `0` only. -/
def switch? (setting? : Option ByteArray) : Option Bool := do
  let raw ← setting?
  let text ← String.fromUTF8? raw
  some (text ≠ "0")

/-- The settings an environment makes. -/
def settings (environment : Environment) : Settings :=
  { multiprocessors := size? environment.multiprocessors
    workers := size? environment.workers
    pinThreads := switch? environment.pinThreads
    globalMemory := size? environment.globalMemory
    localMemory := size? environment.localMemory }

end Environment

namespace Config

/-- The default capacity of global memory: one gibibyte. -/
def defaultGlobalMemory : Nat := 0x40000000

/-- The default size of a worker's local memory: 512 cache lines. -/
def defaultLocalMemory : Nat := 512 * 64

/-- The configuration on a machine with this many cores. -/
def make (cores : Nat) (settings : Settings) : Config :=
  { multiprocessors := settings.multiprocessors.getD 1
    workers := settings.workers.getD (max cores 1)
    pinThreads := settings.pinThreads.getD true
    globalMemory := settings.globalMemory.getD defaultGlobalMemory
    localMemory := settings.localMemory.getD defaultLocalMemory }

/-- The width of one multiprocessor's entry in the assignment of cores. -/
def partitionEntry : Nat := 24

/-- The cores of the workers of each multiprocessor: worker `w` runs on core `w % cores` and
belongs to multiprocessor `w % multiprocessors`. -/
def partition (config : Config) (cores : Nat) : Except Fault (List (List Nat)) := do
  let cores := max cores 1
  let groups := max config.multiprocessors 1
  Size.fitsArray groups partitionEntry
  return (List.range groups).map fun group =>
    ((List.range config.workers).filter (· % groups = group)).map (· % cores)

end Config

end ComputeCore
