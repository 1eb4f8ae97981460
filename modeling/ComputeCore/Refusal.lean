import ComputeCore.Memory.Error
/-!
# What the runtime refuses
-/

namespace ComputeCore

/-- Why a runtime call was refused. -/
inductive Refusal where
  /-- Memory for the runtime itself could not be had. -/
  | memory (error : MemoryError)
  /-- A configuration without a usable pool of workers. -/
  | invalidConfig (reason : String)
  | kernelNotFound (name : String)
  deriving DecidableEq, Inhabited

/-- The text a refusal is reported with. -/
def Refusal.message : Refusal → String
  | .memory error => s!"device error: {error.message}"
  | .invalidConfig reason => s!"invalid configuration: {reason}"
  | .kernelNotFound name => s!"kernel '{name}' not found in module"

/-- How setting up a runtime can fail. -/
inductive SetupFailure where
  | refused (error : Refusal)
  | fault (fault : Fault)
  deriving DecidableEq, Inhabited

end ComputeCore
