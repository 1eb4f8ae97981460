import ComputeCore.Size
/-!
# Work-item frames

What a work-item keeps across a barrier lives in its frame: the point at which to resume, and
numbered slots of 64 bits. A slot that was never set reads zero. Setting a slot past the end makes
room up to it; the room grows to the next power of two, which must be a possible array.
-/

namespace ComputeCore

/-- The saved state of one work-item. -/
structure Frame where
  /-- Where to go on, zero at the first invocation. -/
  resume : UInt32 := 0
  slots : Array UInt64 := #[]
  deriving DecidableEq, Inhabited

namespace Frame

/-- The most slots a frame can make room for: the largest power of two that are a possible array
at eight bytes each. -/
def slotLimit : Nat := 0x800000000000000

/-- The value of a slot. -/
def get (frame : Frame) (slot : Nat) : UInt64 :=
  frame.slots.getD slot 0

/-- The slots, at least `count` of them. -/
def extend (slots : Array UInt64) (count : Nat) : Array UInt64 :=
  slots ++ Array.replicate (count - slots.size) 0

/-- Sets a slot, making room for it if necessary. -/
def set (frame : Frame) (slot : Nat) (value : UInt64) : Except Fault Frame :=
  if slot < frame.slots.size then .ok { frame with slots := frame.slots.setIfInBounds slot value }
  else
    match Size.add slot 1 with
    | .error fault => .error fault
    | .ok count =>
      if slotLimit < count then .error .capacityOverflow
      else .ok { frame with slots := (extend frame.slots count).setIfInBounds slot value }

/-- Starts the frame over. -/
def reset (frame : Frame) : Frame :=
  { frame with resume := 0, slots := #[] }

/-- Starts all frames over. -/
def resetAll (frames : Array Frame) : Array Frame :=
  (frames.toList.map reset).toArray

/-- The frame as it reads in logs. -/
def describe (frame : Frame) : String :=
  let slots := ", ".intercalate (frame.slots.toList.map toString)
  s!"WorkItemFrame \x7b resume: {frame.resume}, slots: [{slots}] \x7d"

end Frame

end ComputeCore
