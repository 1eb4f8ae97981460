import ComputeCore.Kernel.Program
import ComputeCore.Proofs.Event.Names
import ComputeCore.Scheduling.Shared
/-!
# Who completes an event

A process can complete an event only by having a copy started that completes it in the end. The code
that kernels are given for this makes an event for every copy, so each copy completes an event of its
own: `Process.SignalsOwn` says this of a process, and `Program.independent_kernel` that it holds of
everything a program can do. `Shared.Custody` is what a request of such a process does to the events
that are its own: it gets those it makes, and hands the one it has a copy complete over to the copy.
-/

namespace ComputeCore

namespace Process

variable {α β : Type}

/-- A process that has these events of its own has a copy complete only an event of its own, and no
event twice. -/
def SignalsOwn (own : Event → Prop) : Process α → Prop
  | .ask .newEvent next | .ask (.newChildEvent _) next =>
    ∀ event : Event, (next event).SignalsOwn fun other => own other ∨ other = event
  | .ask (.startCopy _ signal) next =>
    own signal ∧ (next ()).SignalsOwn fun other => own other ∧ other ≠ signal
  | .ask _ next => ∀ reply, (next reply).SignalsOwn own
  | _ => True

theorem SignalsOwn.mono {own own' : Event → Prop} {process : Process α} (h : process.SignalsOwn own)
    (hmore : ∀ event, own event → own' event) : process.SignalsOwn own' := by
  induction process generalizing own own' with
  | done value => trivial
  | fault fault => trivial
  | ask request next ih =>
    cases request with
    | newEvent | newChildEvent =>
      exact fun event => ih event (h event) fun other => Or.imp_left (hmore other)
    | startCopy job signal =>
      exact ⟨hmore signal h.1, ih () h.2 fun other hown => ⟨hmore other hown.1, hown.2⟩⟩
    | _ => exact fun reply => ih reply (h reply) hmore

/-- A process that starts with no event of its own. -/
def Independent (process : Process α) : Prop :=
  process.SignalsOwn fun _ => False

theorem SignalsOwn.of_independent {own : Event → Prop} {process : Process α} (h : process.Independent) :
    process.SignalsOwn own :=
  h.mono fun _ => False.elim

/-- One process after another. By induction on the first. -/
theorem SignalsOwn.bind {own : Event → Prop} {next : α → Process β} {process : Process α}
    (h : process.SignalsOwn own) (hnext : ∀ value, (next value).Independent) :
    (process.bind next).SignalsOwn own := by
  induction process generalizing own with
  | done value => exact .of_independent (hnext value)
  | fault fault => trivial
  | ask request reply ih =>
    cases request with
    | newEvent | newChildEvent => exact fun event => ih event (h event)
    | startCopy job signal => exact ⟨h.1, ih () h.2⟩
    | _ => exact fun answer => ih answer (h answer)

theorem independent_waitForAll (events : List (Option Event)) : (waitForAll events).Independent := by
  induction events with
  | nil => trivial
  | cons event events ih =>
    cases event with
    | none => exact ih
    | some event =>
      have hwait : (waitFor event).Independent := fun _ _ => trivial
      exact SignalsOwn.bind hwait fun _ => ih

end Process

/-- Each invocation of the kernel. -/
def Kernel.Independent (kernel : Kernel) : Prop :=
  ∀ item frame, (kernel.invoke item frame).Independent

/-! ## Programs -/

/-- A group copy completes the event it makes. -/
theorem WorkItem.independent_groupCopy (item : WorkItem) (job : CopyJob) (event : Option Event) :
    (item.groupCopy job event).Independent := by
  unfold groupCopy
  split
  · cases event with
    | none => exact fun signal => ⟨.inr rfl, trivial⟩
    | some parent => exact fun signal => ⟨.inr rfl, trivial⟩
  · trivial

namespace Program

theorem independent_advance (pc : Nat) (frame : Except Fault Frame) : (advance pc frame).Independent := by
  cases frame <;> trivial

theorem independent_trapping {α : Type} {frame : Frame} {value : Except Status α}
    {next : α → Process Next} (h : ∀ value, (next value).Independent) :
    (trapping frame value next).Independent := by
  cases value with
  | ok value => exact h value
  | error status => trivial

theorem independent_execute (item : WorkItem) (pc : Nat) (frame : Frame) (instruction : Instruction) :
    (execute item pc frame instruction).Independent := by
  cases instruction with
  | groupCopy target goal goalOffset source sourceOffset count elementSize event stride =>
    refine independent_trapping fun job => (item.independent_groupCopy job _).bind fun event => ?_
    cases event with
    | none => exact independent_advance _ _
    | some event => exact independent_advance _ _
  | wait events => exact (Process.independent_waitForAll _).bind fun _ => independent_advance _ _
  | operate op target a b => exact independent_trapping fun value => independent_advance _ _
  | load target memory offset width =>
    exact independent_trapping fun part bytes => independent_advance _ _
  | store memory offset source width => exact independent_trapping fun part _ => trivial
  | value target arg scalar =>
    simp only [execute]
    split <;> exact independent_advance _ _
  | latch number =>
    have hpass : (Process.passLatch number).Independent := fun _ _ => trivial
    exact hpass.bind fun _ => trivial
  | jump | jumpIfZero | jumpUnlessZero | barrier | done | trap | raise | malformed => trivial
  | lock | unlock | mark | log | describe => exact fun _ => trivial
  | set | move | addImmediate | query | argKind => exact independent_advance _ _

theorem independent_run (code : Array Instruction) (item : WorkItem) (steps pc : Nat) (frame : Frame) :
    (run code item steps pc frame).Independent := by
  induction steps generalizing pc frame with
  | zero => trivial
  | succ steps ih =>
    unfold run
    split
    · trivial
    · intro granted
      dsimp only
      split
      · trivial
      · refine (independent_execute item pc frame _).bind fun next => ?_
        cases next with
        | goTo pc frame => exact ih pc frame
        | stop outcome frame => trivial

/-- Whatever a program does, each copy it starts completes an event of its own. -/
theorem independent_kernel (name : String) (staticLocal : Nat) (code : Array Instruction) :
    (kernel name staticLocal code).Independent :=
  fun item frame => independent_run code item _ _ frame

end Program

/-! ## Requests -/

namespace Shared

/-- What a request does to the events a process has for its own. `links` are the events it may link
another one under. -/
inductive Custody (shared shared' : Shared) (own own' : Event → Prop) (links : Event → Prop) : Prop where
  /-- No event is made, and none changes hands. -/
  | kept (table : shared'.events.table = shared.events.table) (copies : shared'.copies = shared.copies)
      (own_eq : own' = own)
  /-- An event is made, and is the process's own. -/
  | made (op : EventOp) (op_eq : op = .newEvent ∨ ∃ parent, op = .newChild parent ∧ links parent)
      (events : shared'.events = shared.events.apply op) (copies : shared'.copies = shared.copies)
      (own_iff : ∀ event, own' event ↔ own event ∨ event ∈ (shared.events.answer op).names)
  /-- A copy gets an event to complete. -/
  | started (job : CopyJob) (signal : Event) (mine : own signal)
      (table : shared'.events.table = shared.events.table)
      (copies : shared'.copies = shared.copies.push { job, signal })
      (own_iff : ∀ event, own' event ↔ own event ∧ event ≠ signal)

theorem newChildEvent_eq {list list' : WaitList} {parent child : Event}
    (h : list.newChildEvent parent = .ok (child, list')) :
    list' = list.apply (.newChild parent) ∧ list.answer (.newChild parent) = .name child := by
  simp only [WaitList.apply, WaitList.answer, h, and_self]

end Shared

/-- A request of a process that only signals events of its own, and what it has for its own then. -/
theorem Process.SignalsOwn.perform {α : Type} {own : Event → Prop} {request : Request}
    {next : request.Reply → Process α} {reply : request.Reply} {shared shared' : Shared}
    {command : CommandId} (h : (Process.ask request next).SignalsOwn own)
    (hreply : shared.perform command request = some (.ok (reply, shared'))) :
    ∃ own', (next reply).SignalsOwn own' ∧
      shared.Custody shared' own own' fun parent => request = .newChildEvent parent := by
  cases request with
  | newEvent =>
    cases hreply
    refine ⟨_, h _, .made .newEvent (.inl rfl) rfl rfl fun event => ?_⟩
    exact or_congr_right List.mem_singleton.symm
  | newChildEvent parent =>
    simp only [Shared.perform] at hreply
    split at hreply <;> cases hreply
    rename_i events hchild
    obtain ⟨happly, hanswer⟩ := Shared.newChildEvent_eq hchild
    refine ⟨_, h _, .made (.newChild parent) (.inr ⟨parent, rfl, rfl⟩) happly rfl fun event => ?_⟩
    rw [hanswer]
    exact or_congr_right List.mem_singleton.symm
  | startCopy job signal =>
    cases hreply
    exact ⟨_, h.2, .started job signal h.1 rfl rfl fun event => Iff.rfl⟩
  | acquireLock | leaveWait | pass | spend =>
    simp only [Shared.perform] at hreply
    split at hreply <;> cases hreply <;> exact ⟨own, h _, .kept rfl rfl rfl⟩
  | _ =>
    cases hreply
    exact ⟨own, h _, .kept rfl rfl rfl⟩

end ComputeCore
