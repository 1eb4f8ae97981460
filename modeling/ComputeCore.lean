import ComputeCore.Client.Copying
import ComputeCore.Client.Locking
import ComputeCore.Client.Session
import ComputeCore.IndexSpace.Cursor
import ComputeCore.Kernel.Registry
import ComputeCore.Proofs.Event.Names
import ComputeCore.Proofs.Event.Reaping
import ComputeCore.Proofs.Event.Removal
import ComputeCore.Proofs.Event.Sleepers
import ComputeCore.Proofs.Event.Slots
import ComputeCore.Proofs.Event.Waiting
import ComputeCore.Proofs.IndexSpace.Groups
import ComputeCore.Proofs.IndexSpace.Iteration
import ComputeCore.Proofs.Kernel.ChainedCopies
import ComputeCore.Proofs.Kernel.Registry
import ComputeCore.Proofs.Memory.Accounting
import ComputeCore.Proofs.Memory.Aliases
import ComputeCore.Proofs.Memory.Arena
import ComputeCore.Proofs.Memory.Atomicity
import ComputeCore.Proofs.Memory.Elementwise
import ComputeCore.Proofs.Memory.Freeing
import ComputeCore.Proofs.Memory.Upload
import ComputeCore.Proofs.Scheduling.Barriers
import ComputeCore.Proofs.Scheduling.Completion
import ComputeCore.Proofs.Scheduling.Containment
import ComputeCore.Proofs.Scheduling.Coverage
import ComputeCore.Proofs.Scheduling.Cutoff
import ComputeCore.Proofs.Scheduling.Frames
import ComputeCore.Proofs.Scheduling.Load
import ComputeCore.Proofs.Scheduling.LocalMemory
import ComputeCore.Proofs.Scheduling.Passes
import ComputeCore.Proofs.Scheduling.Pool
import ComputeCore.Proofs.Scheduling.Protocol
import ComputeCore.Proofs.Scheduling.Rounds
import ComputeCore.Proofs.Scheduling.Services
import ComputeCore.Proofs.Scheduling.Spread
import ComputeCore.Proofs.Scheduling.Stream
import ComputeCore.Proofs.SpinLock
