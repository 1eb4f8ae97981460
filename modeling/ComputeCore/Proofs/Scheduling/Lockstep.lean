import ComputeCore.Proofs.Scheduling.Invocations
import ComputeCore.Proofs.Scheduling.Opening
/-!
# Two kernels in lockstep

The scheduler does not look into kernels: two dispatches that differ in their kernel only take the same
steps for as long as the kernels make the same moves. `JobLife.Twins` are two lives of such dispatches among
threads that go on in the same way, and `Twins.inStep` says that they agree on everything, turn by turn,
up to the first invocation in which the kernels part.
-/

namespace ComputeCore

/-! ## Other kernels -/

/-- A dispatch of another kernel over the same index space, with the same arguments. -/
def NDRange.withKernel (range : NDRange) (kernel : Kernel) : NDRange :=
  { range with kernel }

/-- The scheduler of another kernel. -/
def Dispatch.withKernel (dispatch : Dispatch) (kernel : Kernel) : Dispatch :=
  { dispatch with kernel }

def DispatchStep.withKernel (step : DispatchStep) (kernel : Kernel) : DispatchStep :=
  match step with
  | .moved dispatch arena => .moved (dispatch.withKernel kernel) arena
  | .invoke turn item frame => .invoke turn item frame
  | .finished => .finished

def Verdict.withKernel (verdict : Verdict) (kernel : Kernel) : Verdict :=
  match verdict with
  | .goOn dispatch => .goOn (dispatch.withKernel kernel)
  | .trapped status => .trapped status

namespace Dispatch

variable {dispatch : Dispatch} {kernel : Kernel}

theorem create_withKernel (range : NDRange) (kernel : Kernel) (args : List BoundArg) :
    create (range.withKernel kernel) args = (create range args).map fun made => made.withKernel kernel := by
  cases hper : range.space.itemsPerGroup with
  | error fault => simp [create, NDRange.withKernel, hper, bind, Except.bind, Except.map]
  | ok perGroup =>
    cases hfits : Size.fitsArray perGroup frameWidth with
    | error fault => simp [create, NDRange.withKernel, hper, hfits, bind, Except.bind, Except.map]
    | ok fits =>
      cases htotal : range.space.totalGroups <;>
        simp [create, NDRange.withKernel, hper, hfits, htotal, bind, Except.bind, Except.map, pure,
          Except.pure, withKernel]

/-- All that setting up a group takes from the kernel is the size of its static storage. -/
theorem enterGroup_withKernel (hstatic : kernel.staticLocal = dispatch.kernel.staticLocal)
    (arena : LocalArena) : (dispatch.withKernel kernel).enterGroup arena =
      (dispatch.enterGroup arena).map fun entered => (entered.1.withKernel kernel, entered.2) := by
  cases hstart : dispatch.space.groupStart dispatch.group with
  | error fault => simp [enterGroup, withKernel, hstart, bind, Except.bind, Except.map]
  | ok start =>
    cases hreset : arena.reset dispatch.kernel.staticLocal with
    | error fault => simp [enterGroup, withKernel, hstatic, hstart, hreset, bind, Except.bind, Except.map]
    | ok arena' =>
      cases hcarve : carve dispatch.params dispatch.args arena' <;>
        simp [enterGroup, withKernel, hstatic, hstart, hreset, hcarve, bind, Except.bind, Except.map, pure,
          Except.pure]

theorem step_withKernel (hstatic : kernel.staticLocal = dispatch.kernel.staticLocal) (arena : LocalArena) :
    (dispatch.withKernel kernel).step arena =
      (dispatch.step arena).map fun step => step.withKernel kernel := by
  cases hstage : dispatch.stage with
  | entering =>
    by_cases hgroup : dispatch.group < dispatch.totalGroups
    · have hentered := enterGroup_withKernel hstatic arena
      have hstage' : (dispatch.withKernel kernel).stage = .entering := hstage
      have hgroup' : (dispatch.withKernel kernel).group < (dispatch.withKernel kernel).totalGroups := hgroup
      simp only [step, hstage, hstage', if_pos hgroup, if_pos hgroup', hentered]
      cases dispatch.enterGroup arena <;> rfl
    · simp only [step, withKernel, hstage, if_neg hgroup]
      rfl
  | passing turn =>
    simp only [step, withKernel, hstage]
    split
    · split <;> rfl
    · split <;> rfl

theorem accept_withKernel (kernel : Kernel) (turn : Turn) (outcome : Outcome) (frame : Frame) :
    (dispatch.withKernel kernel).accept turn outcome frame =
      (dispatch.accept turn outcome frame).map fun verdict => verdict.withKernel kernel := by
  cases outcome with
  | barrier | trap => rfl
  | done =>
    simp only [accept, withKernel]
    cases Size.sub dispatch.remaining 1 <;> rfl

end Dispatch

/-! ## The same moves -/

/-- Two processes make the same next move: they end with the same value, fault, or ask for the same. -/
def Process.Alike {α : Type} : Process α → Process α → Prop
  | .done value, .done value' => value = value'
  | .fault _, .fault _ => True
  | .ask request _, .ask request' _ => request = request'
  | _, _ => False

/-- If both jobs are in an invocation, their kernels make the same next move. -/
def Job.MovesAlike : Job → Job → Prop
  | .invoking _ _ body, .invoking _ _ body' => body.Alike body'
  | _, _ => True

/-- Two jobs that differ in the kernel only, and in what is left of an invocation. -/
inductive Job.Twin (own kernel : Kernel) : Job → Job → Prop
  | fresh : Twin own kernel .fresh .fresh
  | binding {range : NDRange} {params : List KernelArg} {args : List BoundArg} (same : range.kernel = own) :
      Twin own kernel (.binding range params args) (.binding (range.withKernel kernel) params args)
  | scheduling {dispatch : Dispatch} (same : dispatch.kernel = own) :
      Twin own kernel (.scheduling dispatch) (.scheduling (dispatch.withKernel kernel))
  | invoking {dispatch : Dispatch} {turn : Turn} {body body' : Process (Outcome × Frame)}
      (same : dispatch.kernel = own) :
      Twin own kernel (.invoking dispatch turn body) (.invoking (dispatch.withKernel kernel) turn body')

inductive JobStage.Twin (own kernel : Kernel) : JobStage → JobStage → Prop
  | going {arena : LocalArena} {job job' : Job} (jobs : job.Twin own kernel job') :
      Twin own kernel (.going arena job) (.going arena job')
  | ended {ending : Ending} : Twin own kernel (.ended ending) (.ended ending)
  | broken : Twin own kernel .broken .broken

/-- Two steps that come to the same but for the kernel. -/
inductive Worker.JobStep.Twin (own kernel : Kernel) : JobStep → JobStep → Prop
  | moved {shared : Shared} {arena : LocalArena} {job job' : Job} (jobs : job.Twin own kernel job') :
      Twin own kernel (.moved shared arena job) (.moved shared arena job')
  | ended {shared : Shared} {ending : Ending} :
      Twin own kernel (.ended shared ending) (.ended shared ending)
  | broken {shared : Shared} : Twin own kernel (.broken shared) (.broken shared)
  | blocked : Twin own kernel .blocked .blocked

section Steps
variable {own kernel : Kernel} {job job' : Job} {command command' : Command} {range : NDRange}
  {shared : Shared} {arena : LocalArena}

/-- A step of twins, of which the kernels make the same move, leads to twins again. -/
theorem Job.Twin.step (h : job.Twin range.kernel kernel job') (hmoves : job.MovesAlike job')
    (hid : command'.id = command.id) (hkind : command.kind = .ndrange range)
    (hkind' : command'.kind = .ndrange (range.withKernel kernel))
    (hstatic : kernel.staticLocal = range.kernel.staticLocal) :
    Worker.JobStep.Twin range.kernel kernel (Worker.stepJob shared arena command job)
      (Worker.stepJob shared arena command' job') := by
  cases h with
  | fresh =>
    simp only [Worker.stepJob, hkind, hkind', Worker.begin]
    exact .moved (.binding rfl)
  | binding same =>
    rename_i bound params args
    cases params with
    | nil =>
      simp only [Worker.stepJob, Dispatch.create_withKernel]
      cases hcreate : Dispatch.create bound args with
      | error fault => exact .broken
      | ok dispatch => exact .moved (.scheduling ((Dispatch.create_args hcreate).1.trans same))
    | cons param params =>
      simp only [Worker.stepJob]
      cases Dispatch.bindArg shared.memory param with
      | none => exact .ended
      | some arg => exact .moved (.binding same)
  | scheduling same =>
    rename_i dispatch
    simp only [Worker.stepJob, Dispatch.step_withKernel (same ▸ hstatic)]
    cases hstep : dispatch.step arena with
    | error fault => exact .broken
    | ok outcome =>
      cases outcome with
      | moved next arena' => exact .moved (.scheduling ((Dispatch.move_of_step hstep).kernel_eq.trans same))
      | invoke turn item frame => exact .moved (.invoking same)
      | finished => exact .ended
  | invoking same =>
    rename_i dispatch turn body body'
    cases body <;> cases body' <;> try exact hmoves.elim
    case done.done result result' =>
      obtain rfl : result = result' := hmoves
      simp only [Worker.stepJob, Worker.stepProcess, Dispatch.accept_withKernel]
      cases haccept : dispatch.accept turn result.1 result.2 with
      | error fault => exact .broken
      | ok verdict =>
        cases verdict with
        | trapped status => exact .ended
        | goOn next =>
          obtain ⟨remaining, frames, finished, rfl⟩ := Dispatch.goOn_of_accept haccept
          exact .moved (.scheduling same)
    case fault.fault => exact .ended
    case ask.ask request next request' next' =>
      obtain rfl : request = request' := hmoves
      simp only [Worker.stepJob, Worker.stepProcess, hid]
      cases shared.perform command.id request with
      | none => exact .blocked
      | some reply =>
        cases reply with
        | error fault => exact .moved (.invoking same)
        | ok reply => exact .moved (.invoking same)

theorem Worker.JobStep.Twin.after {outcome outcome' : JobStep} (h : Twin own kernel outcome outcome') :
    outcome'.shared? = outcome.shared? ∧ ((outcome = .blocked ∧ outcome' = .blocked) ∨
      ∃ stage stage', JobStage.after outcome = some stage ∧ JobStage.after outcome' = some stage' ∧
        JobStage.Twin own kernel stage stage') := by
  cases h with
  | moved jobs => exact ⟨rfl, .inr ⟨_, _, rfl, rfl, .going jobs⟩⟩
  | ended => exact ⟨rfl, .inr ⟨_, _, rfl, rfl, .ended⟩⟩
  | broken => exact ⟨rfl, .inr ⟨_, _, rfl, rfl, .broken⟩⟩
  | blocked => exact ⟨rfl, .inl ⟨rfl, rfl⟩⟩

/-- Twins record the same invocations and answers. -/
theorem Job.Twin.record_eq (h : job.Twin own kernel job') (hmoves : job.MovesAlike job')
    (hstatic : kernel.staticLocal = own.staticLocal) (trace : Trace) :
    trace.record arena job' = trace.record arena job := by
  cases h with
  | fresh | binding => rfl
  | scheduling same =>
    rename_i dispatch
    simp only [Trace.record, Dispatch.step_withKernel (same ▸ hstatic)]
    cases hstep : dispatch.step arena with
    | error fault => rfl
    | ok outcome => cases outcome <;> rfl
  | @invoking dispatch turn body body' =>
    cases body <;> cases body' <;> try exact hmoves.elim
    case done.done result result' =>
      obtain rfl : result = result' := hmoves
      rfl
    case fault.fault | ask.ask => rfl

end Steps

namespace JobLife

/-- Two lives of dispatches that differ in their kernel only, with other threads that do the same in both
whenever they find the same. -/
structure Twins (life other : JobLife) (range : NDRange) (kernel : Kernel) : Prop where
  kind : life.command.kind = .ndrange range
  command : other.command = { life.command with kind := .ndrange (range.withKernel kernel) }
  static : kernel.staticLocal = range.kernel.staticLocal
  arena : other.arena = life.arena
  start : other.world 0 = life.world 0
  others : ∃ react : Nat → Shared → Shared, (∀ n, life.world (n + 1) = react n (life.left n)) ∧
    ∀ n, other.world (n + 1) = react n (other.left n)

/-- The kernels make the same moves until the first one has made `m` invocations and comes to the next. -/
def Follows (other life : JobLife) (m : Nat) : Prop :=
  ∀ n, (life.trace n).calls.length ≤ m → ∀ arena arena' job job', life.stage n = .going arena job →
    other.stage n = .going arena' job' → job.MovesAlike job'

/-- The two lives agree before turn `n`. -/
structure InStep (life other : JobLife) (own kernel : Kernel) (n : Nat) : Prop where
  world : other.world n = life.world n
  trace : other.trace n = life.trace n
  stage : JobStage.Twin own kernel (life.stage n) (other.stage n)

variable {life other : JobLife} {range : NDRange} {kernel : Kernel} {m n : Nat}

/-- One turn of two lives that agree. -/
theorem InStep.next (h : life.InStep other range.kernel kernel n) (htwins : life.Twins other range kernel)
    (hmoves : ∀ arena arena' job job', life.stage n = .going arena job →
      other.stage n = .going arena' job' → job.MovesAlike job') :
    life.InStep other range.kernel kernel (n + 1) := by
  obtain ⟨react, hreact, hreact'⟩ := htwins.others
  have hstage := h.stage
  suffices hnext : other.left n = life.left n ∧ other.trace (n + 1) = life.trace (n + 1) ∧
      JobStage.Twin range.kernel kernel (life.stage (n + 1)) (other.stage (n + 1)) from
    ⟨by rw [hreact, hreact', hnext.1], hnext.2.1, hnext.2.2⟩
  generalize hthis : life.stage n = stage at hstage
  generalize hthat : other.stage n = stage' at hstage
  cases hstage with
  | ended | broken =>
    have hover : ∀ arena job, life.stage n ≠ .going arena job := by simp [hthis]
    have hover' : ∀ arena job, other.stage n ≠ .going arena job := by simp [hthat]
    obtain ⟨hsame, htrace⟩ := next_of_over hover
    obtain ⟨hsame', htrace'⟩ := next_of_over hover'
    rw [left, left, hsame, hsame', hthis, hthat, htrace, htrace']
    exact ⟨h.world, h.trace, by constructor⟩
  | going jobs =>
    rename_i arena job job'
    have hmove := hmoves _ _ _ _ hthis hthat
    have hrecord : (life.trace n).record arena job' = (life.trace n).record arena job :=
      jobs.record_eq hmove htwins.static _
    have hstep : Worker.JobStep.Twin range.kernel kernel
        (Worker.stepJob (life.world n) arena life.command job)
        (Worker.stepJob (life.world n) arena other.command job') :=
      jobs.step hmove (by rw [htwins.command]) htwins.kind (by rw [htwins.command]) htwins.static
    obtain ⟨hshared, hnext⟩ := hstep.after
    refine ⟨by simp only [left, leave, hthis, hthat, h.world, hshared], ?_⟩
    rcases hnext with ⟨hblocked, hblocked'⟩ | ⟨stage, stage', hafter, hafter', hstage⟩
    · obtain ⟨hsame, htrace⟩ := next_of_waits ⟨arena, job, hthis, hblocked⟩
      have hwaits : other.Waits n := ⟨arena, job', hthat, h.world ▸ hblocked'⟩
      obtain ⟨hsame', htrace'⟩ := next_of_waits hwaits
      rw [hsame, hsame', htrace, htrace', hthis, hthat]
      exact ⟨h.trace, .going jobs⟩
    · obtain ⟨hnext, htrace⟩ := next_of_step hthis hafter
      obtain ⟨hnext', htrace'⟩ := next_of_step hthat (h.world ▸ hafter')
      rw [hnext, hnext', htrace, htrace', h.trace]
      exact ⟨hrecord, hstage⟩

/-- Two lives agree as they begin. -/
theorem Twins.begin (htwins : life.Twins other range kernel) : life.InStep other range.kernel kernel 0 := by
  refine ⟨htwins.start, rfl, ?_⟩
  show JobStage.Twin range.kernel kernel (.going life.arena .fresh) (.going other.arena .fresh)
  rw [htwins.arena]
  exact .going .fresh

/-- As long as the first one has made no more than `m` invocations, the two lives agree. By induction on the
turns. -/
theorem Twins.inStep (htwins : life.Twins other range kernel) (hfollows : other.Follows life m)
    (hbefore : ∀ k < n, (life.trace k).calls.length ≤ m) : life.InStep other range.kernel kernel n := by
  induction n with
  | zero => exact htwins.begin
  | succ n ih =>
    exact (ih fun k hk => hbefore k (by omega)).next htwins (hfollows n (hbefore n (Nat.lt_succ_self n)))

/-! ## Kernels that do the same -/

end JobLife

end ComputeCore
