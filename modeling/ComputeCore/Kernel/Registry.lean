import ComputeCore.Dict
import ComputeCore.Kernel.Basic
import ComputeCore.Quoted
import ComputeCore.Refusal
/-!
# Kernel registries

A registry finds kernels by name. Registering a kernel files it under its own name;
`getOrRegister` files whatever it builds under the name it was asked for, and only if nothing is
filed there yet. Looking a name up, building a kernel, and filing it are separate steps, and each
of the first and the last is atomic, so the filing step looks again.
-/

namespace ComputeCore

/-- The kernel as it reads in logs. -/
def Kernel.describe (kernel : Kernel) : String :=
  let name := Quoted.quote kernel.name
  s!"KernelEntry \x7b name: {name} \x7d"

/-- Kernels by name. -/
structure KernelRegistry where
  entries : Dict String Kernel := {}
  deriving Inhabited

namespace KernelRegistry

/-- The kernel filed under a name. -/
def find? (registry : KernelRegistry) (name : String) : Option Kernel :=
  registry.entries.find? name

/-- The kernel filed under a name, or the complaint that there is none. -/
def require (registry : KernelRegistry) (name : String) : Except Refusal Kernel :=
  match registry.find? name with
  | some kernel => .ok kernel
  | none => .error (.kernelNotFound name)

/-- Files a kernel under its own name, in place of any other one. -/
def register (registry : KernelRegistry) (kernel : Kernel) : KernelRegistry :=
  { entries := registry.entries.insert kernel.name kernel }

/-- Files a kernel under a name unless one is filed there, and answers the one that is there
then. -/
def fileIfAbsent (registry : KernelRegistry) (name : String) (kernel : Kernel) :
    Kernel × KernelRegistry :=
  match registry.find? name with
  | some existing => (existing, registry)
  | none => (kernel, { entries := registry.entries.insert name kernel })

/-- The kernel filed under a name, built and filed first if there is none. `build` is only asked
for in that case, and may fault; the flag says whether it was asked. -/
def getOrRegister (registry : KernelRegistry) (name : String) (build : Except Fault Kernel) :
    Except Fault (Kernel × Bool × KernelRegistry) :=
  match registry.find? name with
  | some kernel => .ok (kernel, false, registry)
  | none => do
    let built ← build
    let (kernel, registry) := registry.fileIfAbsent name built
    return (kernel, true, registry)

/-- Takes the kernel of a name out; answers whether there was one. -/
def remove (registry : KernelRegistry) (name : String) : Bool × KernelRegistry :=
  (registry.entries.contains name, { entries := registry.entries.erase name })

/-- The number of names. -/
def size (registry : KernelRegistry) : Nat :=
  registry.entries.size

/-- The registry as it reads in logs. -/
def describe (registry : KernelRegistry) : String :=
  s!"KernelRegistry \x7b len: {registry.size} \x7d"

end KernelRegistry

end ComputeCore
