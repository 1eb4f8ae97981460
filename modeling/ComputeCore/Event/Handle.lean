/-!
# Event handles

An event is named by the slot it lives in and the generation that slot had when the event was
made. Once the event is reaped the slot moves on to the next generation, so the old handle no
longer matches anything: it is *stale*, and every query treats it as unknown.
-/

namespace ComputeCore

/-- A generation-checked name of one event. -/
structure Event where
  /-- The slot the event lives in. -/
  index : UInt32
  /-- The generation of that slot the handle belongs to. -/
  generation : UInt32
  deriving DecidableEq, Inhabited

namespace Event

/-- The handle as one 64-bit word, generation in the upper half, e.g. to keep it in a frame slot. -/
def toBits (event : Event) : UInt64 :=
  (event.generation.toUInt64 <<< 32) ||| event.index.toUInt64

/-- The handle packed in a word; the inverse of `toBits`. -/
def ofBits (bits : UInt64) : Event :=
  { index := bits.toUInt32, generation := (bits >>> 32).toUInt32 }

/-- The handle as it reads in messages. -/
def describe (event : Event) : String :=
  s!"Event \x7b index: {event.index}, generation: {event.generation} \x7d"

end Event

end ComputeCore
