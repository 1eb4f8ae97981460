import Mathlib.Algebra.Order.Ring.Nat
import ComputeCore.Scheduling.Worker
/-!
# Runs of a job

`JobRun` is every way in which a worker can carry out one command: the steps are `Worker.stepJob`,
and each of them meets whatever state the other threads have left the shared state in. What the
worker cannot see is who else runs, so a fact about every `JobRun` holds for every interleaving.

The run keeps a `Trace` of the kernel's invocations: which work-item was invoked in which pass, what
it was handed, and how the invocation ended. `JobStage.Next` lists the steps of a job with what they
add to the trace, and `JobStage.next_of_after` says that there are no others.
-/

namespace ComputeCore

/-! ## Invocations -/

/-- The turn of one work-item, in one pass over one group. -/
structure Moment where
  group : Nat
  pass : Nat
  /-- The place of the work-item, and of its frame, in the group. -/
  index : Nat
  deriving DecidableEq

/-- Moments are ordered by group, then by pass, then by work-item. -/
def Moment.Before (a b : Moment) : Prop :=
  a.group < b.group ∨
    (a.group = b.group ∧ (a.pass < b.pass ∨ (a.pass = b.pass ∧ a.index < b.index)))

/-- An invocation of a kernel. -/
structure Call where
  moment : Moment
  /-- What the kernel was shown. -/
  item : WorkItem
  /-- The frame it was handed. -/
  frame : Frame

/-- How an invocation ended. -/
inductive Answer where
  | returned (outcome : Outcome) (frame : Frame)
  | panicked

namespace Answer

/-- The work-item stands at a barrier. -/
def IsBarrier (answer : Answer) : Prop :=
  ∃ resumeAt frame, answer = .returned (.barrier resumeAt) frame

/-- The work-item is finished. -/
def IsDone (answer : Answer) : Prop :=
  ∃ frame, answer = .returned .done frame

/-- The dispatch goes on after this answer. -/
def GoesOn (answer : Answer) : Prop :=
  answer.IsDone ∨ answer.IsBarrier

/-- The status the dispatch is given up with, if it does not go on. -/
def status? : Answer → Option Status
  | .returned (.trap status) _ => some status
  | .returned _ _ => none
  | .panicked => some .abnormal

end Answer

/-- The invocations of a job so far and the answers to them, in order. The last invocation may still
be without its answer. -/
structure Trace where
  calls : List Call := []
  answers : List Answer := []

namespace Trace

/-- The invocations that have ended, with their answers. -/
def ended (trace : Trace) : List (Call × Answer) :=
  trace.calls.zip trace.answers

/-- The trace after a step of the job: the scheduler may invoke the kernel, and an invocation may
end. -/
def record (trace : Trace) (arena : LocalArena) : Job → Trace
  | .scheduling dispatch =>
    match dispatch.step arena with
    | .ok (.invoke turn item frame) =>
      let moment := { group := dispatch.group, pass := dispatch.pass, index := turn.index }
      { trace with calls := trace.calls ++ [{ moment, item, frame }] }
    | _ => trace
  | .invoking _ _ (.done (outcome, frame)) =>
    { trace with answers := trace.answers ++ [.returned outcome frame] }
  | .invoking _ _ (.fault _) => { trace with answers := trace.answers ++ [.panicked] }
  | _ => trace

end Trace

/-! ## Runs -/

/-- How far a worker is with carrying out a command. -/
inductive JobStage where
  | going (arena : LocalArena) (job : Job)
  | ended (ending : Ending)
  /-- A fault escaped the dispatch. -/
  | broken

/-- Where a step of a job leads, nowhere while the job has to wait. -/
def JobStage.after : Worker.JobStep → Option JobStage
  | .moved _ arena job => some (.going arena job)
  | .ended _ ending => some (.ended ending)
  | .broken _ => some .broken
  | .blocked => none

/-- The runs of a command on a worker with this arena. `world` says in which shared states a job may
take its step; apart from that the shared state is arbitrary at every step. -/
inductive JobRun (world : Job → Shared → Prop) (command : Command) (arena₀ : LocalArena) :
    JobStage → Trace → Prop
  | begun : JobRun world command arena₀ (.going arena₀ .fresh) {}
  | step {arena job trace stage} : JobRun world command arena₀ (.going arena job) trace →
      ∀ shared, world job shared →
      JobStage.after (Worker.stepJob shared arena command job) = some stage →
      JobRun world command arena₀ stage (trace.record arena job)

/-! ## Steps -/

namespace JobStage

/-- The steps of a job: where each of them leads, and what it leaves in the trace. -/
inductive Next (shared : Shared) (command : Command) (arena : LocalArena) (trace : Trace) :
    Job → JobStage → Trace → Prop
  | begin {range} (kind : command.kind = .ndrange range) :
      Next shared command arena trace .fresh (.going arena (.binding range range.args [])) trace
  | load {body} (kind : command.kind = .exec (some body)) :
      Next shared command arena trace .fresh (.going arena (.native body)) trace
  | serve {stage} (kind : ∀ range, command.kind ≠ .ndrange range)
      (finished : ∀ arena job, stage ≠ .going arena job) : Next shared command arena trace .fresh stage trace
  | proceed {body body'} :
      Next shared command arena trace (.native body) (.going arena (.native body')) trace
  | exit {body status} : Next shared command arena trace (.native body) (.ended (.exit status)) trace
  | bind {range param params args arg} (bound : Dispatch.bindArg shared.memory param = some arg) :
      Next shared command arena trace (.binding range (param :: params) args)
        (.going arena (.binding range params (args ++ [arg]))) trace
  | unmapped {range param params args} (unbound : Dispatch.bindArg shared.memory param = none) :
      Next shared command arena trace (.binding range (param :: params) args)
        (.ended (.exit .invalidValue)) trace
  | create {range args dispatch} (created : Dispatch.create range args = .ok dispatch) :
      Next shared command arena trace (.binding range [] args) (.going arena (.scheduling dispatch)) trace
  | oversize {range args fault} (created : Dispatch.create range args = .error fault) :
      Next shared command arena trace (.binding range [] args) .broken trace
  | move {dispatch next arena'} (step : dispatch.step arena = .ok (.moved next arena')) :
      Next shared command arena trace (.scheduling dispatch) (.going arena' (.scheduling next)) trace
  | invoke {dispatch turn item frame} (step : dispatch.step arena = .ok (.invoke turn item frame)) :
      Next shared command arena trace (.scheduling dispatch)
        (.going arena (.invoking dispatch turn (dispatch.kernel.invoke item frame)))
        { trace with calls := trace.calls ++ [⟨⟨dispatch.group, dispatch.pass, turn.index⟩, item, frame⟩] }
  | finish {dispatch} (step : dispatch.step arena = .ok .finished) :
      Next shared command arena trace (.scheduling dispatch) (.ended .done) trace
  | fail {dispatch fault} (step : dispatch.step arena = .error fault) :
      Next shared command arena trace (.scheduling dispatch) .broken trace
  | ask {dispatch turn request next body} :
      Next shared command arena trace (.invoking dispatch turn (.ask request next))
        (.going arena (.invoking dispatch turn body)) trace
  | goOn {dispatch turn outcome frame next} (accepted : dispatch.accept turn outcome frame = .ok (.goOn next)) :
      Next shared command arena trace (.invoking dispatch turn (.done (outcome, frame)))
        (.going arena (.scheduling next)) { trace with answers := trace.answers ++ [.returned outcome frame] }
  | trap {dispatch turn status frame} :
      Next shared command arena trace (.invoking dispatch turn (.done (.trap status, frame)))
        (.ended (.exit status)) { trace with answers := trace.answers ++ [.returned (.trap status) frame] }
  | reject {dispatch turn outcome frame fault} (accepted : dispatch.accept turn outcome frame = .error fault) :
      Next shared command arena trace (.invoking dispatch turn (.done (outcome, frame))) .broken
        { trace with answers := trace.answers ++ [.returned outcome frame] }
  | panic {dispatch turn fault} :
      Next shared command arena trace (.invoking dispatch turn (.fault fault)) (.ended (.exit .abnormal))
        { trace with answers := trace.answers ++ [.panicked] }

variable {shared : Shared} {command : Command} {arena : LocalArena} {job : Job} {stage : JobStage}

/-- Every step of a job is one of these. -/
theorem next_of_after (trace : Trace)
    (hstep : after (Worker.stepJob shared arena command job) = some stage) :
    Next shared command arena trace job stage (trace.record arena job) := by
  cases job with
  | fresh =>
    rw [Worker.stepJob] at hstep
    rcases hkind : command.kind with service | (_ | body) | range <;>
      simp only [hkind, Worker.begin, after, Option.some.injEq] at hstep
    case ndrange => exact hstep ▸ .begin hkind
    case exec.some => exact hstep ▸ .load hkind
    case exec.none => exact .serve (by simp [hkind]) (by simp [← hstep])
    case service =>
      refine .serve (by simp [hkind]) ?_
      rcases hservice : service.execute shared.memory shared.hostBuffers with
        ⟨((_ | _) | _), memory, buffers⟩ <;>
        simp only [hservice, Option.some.injEq] at hstep <;> simp [← hstep]
  | native body =>
    simp only [Worker.stepJob, Worker.stepProcess] at hstep
    cases body with
    | done status | fault fault =>
      simp only [after, Option.some.injEq] at hstep
      exact hstep ▸ .exit
    | ask request next =>
      rcases hreply : shared.perform command.id request with _ | (fault | ⟨reply, shared'⟩) <;>
        simp only [hreply, after, Option.some.injEq, reduceCtorEq] at hstep <;> exact hstep ▸ .proceed
  | binding range params args =>
    cases params with
    | nil =>
      simp only [Worker.stepJob] at hstep
      cases hcreate : Dispatch.create range args <;>
        simp only [hcreate, after, Option.some.injEq] at hstep <;> subst hstep
      · exact .oversize hcreate
      · exact .create hcreate
    | cons param params =>
      simp only [Worker.stepJob] at hstep
      cases hbound : Dispatch.bindArg shared.memory param <;>
        simp only [hbound, after, Option.some.injEq] at hstep <;> subst hstep
      · exact .unmapped hbound
      · exact .bind hbound
  | scheduling dispatch =>
    simp only [Worker.stepJob] at hstep
    simp only [Trace.record]
    rcases hnext : dispatch.step arena with fault | (⟨next, arena'⟩ | ⟨turn, item, frame⟩ | -) <;>
      simp only [hnext, after, Option.some.injEq] at hstep ⊢ <;> subst hstep
    · exact .fail hnext
    · exact .move hnext
    · exact .invoke hnext
    · exact .finish hnext
  | invoking dispatch turn body =>
    simp only [Worker.stepJob, Worker.stepProcess] at hstep
    cases body with
    | ask request next =>
      rcases hreply : shared.perform command.id request with _ | (fault | ⟨reply, shared'⟩) <;>
        simp only [hreply, after, Option.some.injEq, reduceCtorEq] at hstep <;> exact hstep ▸ .ask
    | fault fault =>
      simp only [after, Option.some.injEq] at hstep
      exact hstep ▸ .panic
    | done result =>
      obtain ⟨outcome, frame⟩ := result
      rcases haccept : dispatch.accept turn outcome frame with fault | (next | status) <;>
        simp only [haccept, after, Option.some.injEq] at hstep <;> subst hstep
      · exact .reject haccept
      · exact .goOn haccept
      · obtain rfl : outcome = .trap status := by
          cases outcome with
          | trap other => simpa [Dispatch.accept] using haccept
          | barrier resumeAt => simp [Dispatch.accept] at haccept
          | done =>
            simp only [Dispatch.accept] at haccept
            cases hleft : Size.sub dispatch.remaining 1 <;>
              simp [hleft, bind, Except.bind, pure, Except.pure] at haccept
        exact .trap

end JobStage

/-! ## Dispatches that can be carried out -/

/-- The bytes of local memory an argument asks for. -/
def KernelArg.localSize : KernelArg → Nat
  | .localBytes size => size
  | _ => 0

/-- The bytes of local memory every group of a dispatch needs. -/
def NDRange.localSize (range : NDRange) : Nat :=
  range.kernel.staticLocal + (range.args.map KernelArg.localSize).sum

/-- A dispatch over an accepted index space whose group size and number of groups are sizes, whose
frames make a possible array, and whose local memory fits the arena. -/
structure NDRange.Fits (range : NDRange) (arena : LocalArena) : Prop where
  accepted : ∃ globals locals offsets, IndexSpace.make globals locals offsets = .ok range.space
  items_fit : range.space.localSizes.prod < Size.limit
  groups_fit : range.space.groupCounts.prod < Size.limit
  frames_fit : range.space.localSizes.prod * Dispatch.frameWidth ≤ Size.arrayLimit
  args_fit : range.localSize ≤ arena.capacity

/-- Every argument is mapped when it is looked up. -/
def Resolving : Job → Shared → Prop
  | .binding _ (param :: _) _, shared => (Dispatch.bindArg shared.memory param).isSome
  | _, _ => True

end ComputeCore
