import Mathlib.Data.UInt
import ComputeCore.Proofs.Kernel.Exchange
import ComputeCore.Proofs.Scheduling.Carving
import ComputeCore.Proofs.Scheduling.Coverage
/-!
# Exchange over a whole dispatch

`exchange_delivers` ties everything together that a dispatch does for its work-items: the passes, the
points at which they resume, the local memory of their group, and their places in the index space. A
dispatch of `Exchange.invoke` comes to its end, and leaves the value of the synchronous iteration at the
position of every work-item, whatever was in local memory before.

The run keeps to `Exchange.Keeps` at every turn: the ended invocations have filled their part of the
board, and an invocation under way will.
-/

namespace ComputeCore

namespace Exchange

/-! ## The dispatch -/

/-- The memory the groups of `range` work in on this arena. The local argument with the cells has
`size` bytes. -/
def board (exchange : Exchange) (range : NDRange) (arena : LocalArena) (size : Nat) (output : Region) :
    Board where
  perGroup := range.space.localSizes.prod
  cells := { start := arena.base.advance (range.localOffset exchange.cells), size }
  output := output

/-- A dispatch of the kernel: its argument with the cells has room for all of them, its buffer is
mapped and large enough, the buffer and the arena have bytes of their own, and nobody else changes
what is on the board while the dispatch runs. -/
structure Dispatched (exchange : Exchange) (life : JobLife) (range : NDRange) (size : Nat)
    (output : Region) : Prop where
  kind : life.command.kind = .ndrange range
  kernel : range.kernel.invoke = exchange.invoke
  fits : range.FitsWhole life.arena
  resolving : ∀ n arena job, life.stage n = .going arena job → Resolving job (life.world n)
  cells_arg : range.args[exchange.cells]? = some (.localBytes size)
  output_arg : ∃ id, range.args[exchange.output]? = some (.object id) ∧
    ∀ n, (life.world n).memory.regionOf? id = some output
  room : exchange.Fits (exchange.board range life.arena size output) range.space.groupCounts.prod
  arena_backed : (life.world 0).memory.heap.Backs life.arena.region
  output_backed : (life.world 0).memory.heap.Backs output
  undisturbed : ∀ n, (life.left n).memory.heap.Agrees
    (exchange.board range life.arena size output).Kept (life.world (n + 1)).memory.heap

/-- The invocations that have ended did so as the rounds demand. -/
def Ended (exchange : Exchange) (past : List (Call × Answer)) : Prop :=
  ∀ e ∈ past, ∃ outcome frame, e.2 = .returned outcome frame ∧
    exchange.Answers e.1.moment.pass outcome

section Histories
variable {exchange : Exchange} {past : List (Call × Answer)} {perGroup groups : Nat} {m : Moment}

theorem Ended.goesOn (h : exchange.Ended past) {e : Call × Answer} (he : e ∈ past) : e.2.GoesOn := by
  obtain ⟨outcome, frame, heq, ⟨-, resumeAt, rfl, -⟩ | ⟨-, rfl⟩⟩ := h e he
  · exact .inr ⟨resumeAt, frame, heq⟩
  · exact .inl ⟨frame, heq⟩

theorem Ended.of_barrier (h : exchange.Ended past) {e : Call × Answer} (he : e ∈ past)
    {resumeAt : UInt32} {frame : Frame} (heq : e.2 = .returned (.barrier resumeAt) frame) :
    e.1.moment.pass < exchange.rounds ∧ resumeAt.toNat = e.1.moment.pass + 1 := by
  obtain ⟨outcome, frame', heq', hanswers⟩ := h e he
  rw [heq] at heq'
  cases heq'
  obtain ⟨hlt, resumeAt', heq, hresume⟩ | ⟨-, heq⟩ := hanswers
  · cases heq
    exact ⟨hlt, hresume⟩
  · cases heq

theorem Ended.of_done (h : exchange.Ended past) {e : Call × Answer} (he : e ∈ past)
    (hdone : e.2.IsDone) : e.1.moment.pass = exchange.rounds := by
  obtain ⟨frame, heq⟩ := hdone
  obtain ⟨outcome, frame', heq', hanswers⟩ := h e he
  rw [heq] at heq'
  cases heq'
  obtain ⟨-, resumeAt, heq, -⟩ | ⟨hpass, -⟩ := hanswers
  · cases heq
  · exact hpass

/-- Nobody is invoked after the delivery. -/
theorem Ended.pass_le (h : exchange.Ended past) (hdue : Due perGroup groups past m) :
    m.pass ≤ exchange.rounds := by
  obtain ⟨group, pass, index⟩ := m
  cases pass with
  | zero => exact Nat.zero_le _
  | succ pass =>
    obtain ⟨e, he, hm, resumeAt, frame, heq⟩ := hdue
    have hlt := (h.of_barrier he heq).1
    rw [hm] at hlt
    exact hlt

/-- The frame of a work-item resumes at the round it has come to. -/
theorem Ended.resume_eq (h : exchange.Ended past) {frame : Frame} (hkept : Kept past m frame) :
    frame.resume.toNat = m.pass := by
  obtain ⟨group, pass, index⟩ := m
  cases pass with
  | zero =>
    obtain rfl : frame = {} := hkept
    rfl
  | succ pass =>
    obtain ⟨e, he, hm, resumeAt, left, heq, rfl⟩ := hkept
    simpa [hm] using (h.of_barrier he heq).2

/-- When a round begins, the whole group has ended the round before. -/
theorem Ended.round_before (h : exchange.Ended past) {front : Moment}
    (hfrontier : Frontier perGroup groups past front) (hdue : Due perGroup groups past front)
    {round : Nat} (hround : front.pass = round + 1) {other : Nat} (hother : other < perGroup) :
    ∃ e ∈ past, e.1.moment = ⟨front.group, round, other⟩ := by
  have hgroup := (hfrontier.due_bounds hdue).1
  have hbefore : Moment.Before ⟨front.group, round, other⟩ front := .inr ⟨rfl, .inl (by simp; omega)⟩
  rcases hfrontier.barrier_or_done hgroup hother hbefore with
    ⟨e, he, hm, -⟩ | ⟨e, he, -, hpass, -, hdone⟩
  · exact ⟨e, he, hm⟩
  · -- It is done only after the last round, and there is no pass beyond that one.
    have := h.of_done he hdone
    have := h.pass_le hdue
    omega

end Histories

/-! ## Every turn -/

/-- A scheduler has the kernel, and the arguments as they should be. -/
structure Carries (exchange : Exchange) (board : Board) (range : NDRange) (arena₀ : LocalArena)
    (dispatch : Dispatch) (arena : LocalArena) : Prop extends dispatch.Carves range arena₀ arena where
  output : dispatch.args[exchange.output]? = some (.object board.output)

/-- What an invocation at this moment promises for its end. -/
def Promises (exchange : Exchange) (board : Board) (past : List (Call × Answer)) (m : Moment)
    (result : Outcome × Frame) (heap : Heap) : Prop :=
  exchange.Answers m.pass result.1 ∧ ∀ call : Call, call.moment = m →
    exchange.Filled board (past ++ [(call, .returned result.1 result.2)]) m.group heap

/-- What holds at each stage of the dispatch. -/
def Keeps (exchange : Exchange) (board : Board) (range : NDRange) (arena₀ : LocalArena) (heap : Heap)
    (past : List (Call × Answer)) : JobStage → Prop
  | .going arena .fresh => arena = arena₀ ∧ exchange.Filled board past 0 heap
  | .going arena (.binding _ params args) => arena = arena₀ ∧
      exchange.Filled board past 0 heap ∧ params = range.args.drop args.length ∧
      args.length ≤ range.args.length ∧
      (exchange.output < args.length → args[exchange.output]? = some (.object board.output))
  | .going arena (.scheduling dispatch) => exchange.Carries board range arena₀ dispatch arena ∧
      exchange.Filled board past dispatch.group heap
  | .going arena (.invoking dispatch turn body) => exchange.Carries board range arena₀ dispatch arena ∧
      dispatch.stage = .passing turn ∧ body.Ensures board.Kept
        (exchange.Promises board past ⟨dispatch.group, dispatch.pass, turn.index⟩) heap
  | .ended .done => ∃ group, exchange.Filled board past group heap
  | _ => False

section Stages
variable {exchange : Exchange} {board : Board} {range : NDRange} {arena₀ arena : LocalArena}
  {heap heap' : Heap} {past : List (Call × Answer)} {stage : JobStage} {groups : Nat}

theorem Keeps.agrees (h : exchange.Keeps board range arena₀ heap past stage)
    (hfits : exchange.Fits board groups)
    (hbounds : ∀ e ∈ past, e.1.moment.group < groups ∧ e.1.moment.index < board.perGroup)
    (hagrees : heap.Agrees board.Kept heap') : exchange.Keeps board range arena₀ heap' past stage := by
  cases stage with
  | broken => exact h
  | ended ending =>
    cases ending with
    | exit status => exact h
    | done =>
      obtain ⟨group, hfilled⟩ := h
      exact ⟨group, hfilled.agrees hfits hbounds hagrees⟩
  | going arena job =>
    cases job with
    | native body => exact h
    | fresh => exact ⟨h.1, h.2.agrees hfits hbounds hagrees⟩
    | binding bound params args => exact ⟨h.1, h.2.1.agrees hfits hbounds hagrees, h.2.2⟩
    | scheduling dispatch => exact ⟨h.1, h.2.agrees hfits hbounds hagrees⟩
    | invoking dispatch turn body => exact ⟨h.1, h.2.1, h.2.2.agrees hagrees⟩

/-- A new group finds no values of its own on the board. -/
theorem Filled.leave {group : Nat}
    (h : exchange.Filled board past group heap) (hbehind : ∀ e ∈ past, e.1.moment.group ≤ group) :
    exchange.Filled board past (group + 1) heap :=
  { h with cells := fun e he hgroup => absurd (hbehind e he) (by omega) }

/-- A group that is set up finds the buffer where every other group does. -/
theorem Carries.enter {dispatch next : Dispatch} {arena' : LocalArena}
    (h : exchange.Carries board range arena₀ dispatch arena)
    (houtput : ∃ id, range.args[exchange.output]? = some (.object id))
    (henter : dispatch.enterGroup arena = .ok (next, arena')) :
    exchange.Carries board range arena₀ next arena' := by
  obtain ⟨hcarve, -⟩ := Dispatch.enterGroup_args henter
  obtain ⟨-, -, -, hobject⟩ := Dispatch.carve_args _ _ _ _ _ hcarve (by rw [h.length, h.params])
  obtain ⟨id, houtput⟩ := houtput
  refine { h.toCarves.enter henter with output := ?_ }
  rw [hobject exchange.output id (h.params ▸ houtput)]
  exact h.output

theorem Keeps.move {dispatch next : Dispatch} {arena' : LocalArena}
    (h : exchange.Keeps board range arena₀ heap past (.going arena (.scheduling dispatch)))
    (houtput : ∃ id, range.args[exchange.output]? = some (.object id))
    (htracks : dispatch.Tracks past) (hmove : dispatch.Move arena next arena') :
    exchange.Keeps board range arena₀ heap past (.going arena' (.scheduling next)) := by
  obtain ⟨hcarries, hfilled⟩ := h
  have hcarves := hcarries.toCarves.move hmove
  cases hmove with
  | enter hstage hgroup henter =>
    obtain ⟨-, -, -, hsame⟩ := Dispatch.enterGroup_args henter
    exact ⟨hcarries.enter houtput henter, hsame ▸ hfilled⟩
  | skip hstage | nextPass hstage => exact ⟨{ hcarves with output := hcarries.output }, hfilled⟩
  | leave hstage =>
    simp only [Dispatch.Tracks, hstage] at htracks
    refine ⟨{ hcarves with output := hcarries.output }, hfilled.leave fun e he => ?_⟩
    have := htracks.frontier.behind e he
    simp only [Moment.Before] at this
    omega

/-- The kernel is shown the place of the work-item and the board. -/
theorem Carries.shown {dispatch : Dispatch} {item : WorkItem} {group index : Nat}
    (h : exchange.Carries board range arena₀ dispatch arena) (hwhole : range.FitsWhole arena₀)
    (hper : board.perGroup = range.space.localSizes.prod)
    (hcells : ∃ size, range.args[exchange.cells]? = some (.localBytes size) ∧
      board.cells = range.localRegion arena₀ exchange.cells size) (hstage : dispatch.stage ≠ .entering)
    (hargs : item.args = dispatch.args) (hcursor : item.cursor = range.space.place group index)
    (hgroup : group < range.space.groupCounts.prod) (hindex : index < range.space.localSizes.prod) :
    exchange.Shown board group index item where
  perGroup_eq := by
    rw [hcursor, hper]
    exact hwhole.wellFormed.itemsPerGroup_eq hwhole.fits.items_fit
  group_eq := by
    rw [hcursor]
    exact IndexSpace.groupLinear_place _ _ hgroup hwhole.fits.groups_fit
  index_eq := by
    rw [hcursor]
    exact IndexSpace.localLinear_place _ _ hindex hwhole.fits.items_fit
  position_eq := by
    rw [hcursor, hper]
    exact IndexSpace.position_place hwhole.wellFormed hwhole.count_lt hgroup hindex
  cells_eq := by
    obtain ⟨size, hsize, hcells⟩ := hcells
    simp [WorkItem.localArg?, hargs, h.locals hstage _ _ hsize, hcells]
  output_eq := by simp [WorkItem.objectArg?, hargs, h.output]

theorem Keeps.invoke {dispatch : Dispatch} {turn : Turn} {item : WorkItem} {frame : Frame}
    (h : exchange.Keeps board range arena₀ heap past (.going arena (.scheduling dispatch)))
    (hwhole : range.FitsWhole arena₀) (hkernel : range.kernel.invoke = exchange.invoke)
    (hper : board.perGroup = range.space.localSizes.prod)
    (hcells : ∃ size, range.args[exchange.cells]? = some (.localBytes size) ∧
      board.cells = range.localRegion arena₀ exchange.cells size)
    (hroom : exchange.Fits board range.space.groupCounts.prod) (hended : exchange.Ended past)
    (hserves : dispatch.Serves range arena past) (hpassing : dispatch.Passing past turn)
    (hlt : turn.index < dispatch.perGroup) (hcursor : item.cursor = turn.cursor)
    (hstep : dispatch.stage = .passing turn ∧ item.args = dispatch.args ∧
      item.localMemory = arena.region)
    (hdue : Due dispatch.perGroup dispatch.totalGroups past
      ⟨dispatch.group, dispatch.pass, turn.index⟩)
    (hkept : Kept past ⟨dispatch.group, dispatch.pass, turn.index⟩ frame) :
    exchange.Keeps board range arena₀ heap past
      (.going arena (.invoking dispatch turn (dispatch.kernel.invoke item frame))) := by
  obtain ⟨hcarries, hfilled⟩ := h
  obtain ⟨hstage, hargs, -⟩ := hstep
  have hfits := hserves.fits
  rw [hpassing.cursor hlt, hserves.space] at hcursor
  have hgroups : dispatch.totalGroups = range.space.groupCounts.prod := by
    rw [hfits.totalGroups, hserves.space]
  have hitems : dispatch.perGroup = board.perGroup := by rw [hfits.perGroup, hserves.space, hper]
  have hfrontier := hpassing.frontier
  have hgroup := hpassing.group_lt
  rw [hgroups, hitems] at hfrontier hdue
  rw [hgroups] at hgroup
  rw [hitems] at hlt
  refine ⟨hcarries, hstage, ?_⟩
  rw [hcarries.kernel, hkernel]
  exact invoke_ensures hroom hfilled
    (fun e he => hfrontier.due_bounds (hfrontier.due e he))
    (fun e he hsame => Moment.Before.irrefl _ (hsame ▸ hfrontier.behind e he))
    (fun other hother round hround => hended.round_before hfrontier hdue hround hother)
    (hended.pass_le hdue) hgroup hlt
    (hcarries.shown hwhole hper hcells (by simp [hstage]) hargs hcursor hgroup (hper ▸ hlt))
    (hended.resume_eq hkept)

end Stages

section Turns
variable {exchange : Exchange} {life : JobLife} {range : NDRange} {size : Nat} {output : Region}
  {arena : LocalArena} {trace : Trace} {shared : Shared}

/-- The job takes its step, and the dispatch keeps to its rounds. -/
def Proceeds (exchange : Exchange) (board : Board) (range : NDRange) (command : Command)
    (arena₀ arena : LocalArena) (shared : Shared) (trace : Trace) (job : Job) : Prop :=
  ∃ stage shared', JobStage.after (Worker.stepJob shared arena command job) = some stage ∧
    (Worker.stepJob shared arena command job).shared? = some shared' ∧
    exchange.Ended (trace.record arena job).ended ∧
    exchange.Keeps board range arena₀ shared'.memory.heap (trace.record arena job).ended stage

theorem Dispatched.proceeds_binding (h : exchange.Dispatched life range size output)
    {bound : NDRange} {params : List KernelArg} {args : List BoundArg}
    (hsound : (JobStage.going arena (.binding bound params args)).Sound range trace)
    (hresolves : Resolving (.binding bound params args) shared)
    (hmapped : ∃ id, range.args[exchange.output]? = some (.object id) ∧
      shared.memory.regionOf? id = some output)
    (hended : exchange.Ended trace.ended)
    (hkeeps : exchange.Keeps (exchange.board range life.arena size output) range life.arena
      shared.memory.heap trace.ended (.going arena (.binding bound params args))) :
    exchange.Proceeds (exchange.board range life.arena size output) range life.command life.arena arena
      shared trace (.binding bound params args) := by
  obtain ⟨rfl, hfits, -⟩ := hsound
  obtain ⟨harena, hfilled, hparams, hlength, houtput⟩ := hkeeps
  obtain ⟨id, hid, hregion⟩ := hmapped
  have hin : exchange.output < bound.args.length := (List.getElem?_eq_some_iff.1 hid).1
  cases params with
  | nil =>
    obtain ⟨dispatch, hcreate, -⟩ := Dispatch.create_ok hfits args
    obtain ⟨-, -, hargs, hgroup, -⟩ := Dispatch.create_args hcreate
    have hall : args.length = bound.args.length := by
      have := List.drop_eq_nil_iff.1 hparams.symm
      omega
    refine ⟨.going arena (.scheduling dispatch), shared, by simp [Worker.stepJob, hcreate, JobStage.after],
      by simp [Worker.stepJob, hcreate, Worker.JobStep.shared?], hended, ?_, hgroup.symm ▸ hfilled⟩
    have hcarves : dispatch.Carves bound life.arena arena := harena ▸ Dispatch.carves_create hcreate hall
    exact { hcarves with output := hargs ▸ houtput (hall ▸ hin) }
  | cons param params =>
    obtain ⟨arg, harg⟩ := Option.isSome_iff_exists.1 hresolves
    refine ⟨.going arena (.binding bound params (args ++ [arg])), shared,
      by simp [Worker.stepJob, harg, JobStage.after], by simp [Worker.stepJob, harg,
        Worker.JobStep.shared?], hended, harena, hfilled, ?_, ?_, fun hlt => ?_⟩
    · rw [List.length_append, List.length_singleton, ← List.tail_drop, ← hparams, List.tail_cons]
    · have := congrArg List.length hparams
      simp only [List.length_cons, List.length_drop] at this
      simp only [List.length_append, List.length_singleton]
      omega
    · by_cases hbefore : exchange.output < args.length
      · rw [List.getElem?_append_left hbefore]
        exact houtput hbefore
      · obtain hlast : exchange.output = args.length := by
          simp only [List.length_append, List.length_singleton] at hlt
          omega
        have hparam : bound.args[args.length]? = some param := by
          rw [← List.head?_drop, ← hparams, List.head?_cons]
        rw [← hlast, hid] at hparam
        cases hparam
        simp only [Dispatch.bindArg, hregion, Option.map_some, Option.some.injEq] at harg
        subst harg
        simp [hlast, board]

theorem Dispatched.proceeds_scheduling (h : exchange.Dispatched life range size output)
    {dispatch : Dispatch} (hsound : (JobStage.going arena (.scheduling dispatch)).Sound range trace)
    (hended : exchange.Ended trace.ended)
    (hkeeps : exchange.Keeps (exchange.board range life.arena size output) range life.arena
      shared.memory.heap trace.ended (.going arena (.scheduling dispatch))) :
    exchange.Proceeds (exchange.board range life.arena size output) range life.command life.arena arena
      shared trace (.scheduling dispatch) := by
  obtain ⟨past, hserves, htracks, rfl⟩ := hsound
  obtain ⟨id, hid, -⟩ := h.output_arg
  rw [Trace.ended_of_none] at hended hkeeps
  rcases Dispatch.step_cases hserves.fits htracks with
    ⟨next, arena', hstep, -⟩ | ⟨turn, item, frame, hstep, hpassing, hlt, hcursor, hdue, hkept⟩ |
    ⟨hstep, -⟩
  · refine ⟨.going arena' (.scheduling next), shared, by simp [Worker.stepJob, hstep, JobStage.after],
      by simp [Worker.stepJob, hstep, Worker.JobStep.shared?], ?_⟩
    simp only [Trace.record, hstep, Trace.ended_of_none]
    exact ⟨hended, hkeeps.move ⟨id, hid⟩ htracks (Dispatch.move_of_step hstep)⟩
  · refine ⟨.going arena (.invoking dispatch turn (dispatch.kernel.invoke item frame)), shared,
      by simp [Worker.stepJob, hstep, JobStage.after],
      by simp [Worker.stepJob, hstep, Worker.JobStep.shared?], ?_⟩
    let call : Call := { moment := ⟨dispatch.group, dispatch.pass, turn.index⟩, item, frame }
    have hrecord : (Trace.of past none none).record arena (.scheduling dispatch) =
        .of past (some call) none := by simp [Trace.record, hstep, Trace.of, call]
    rw [hrecord, Trace.ended_of_none]
    exact ⟨hended, hkeeps.invoke h.fits h.kernel rfl ⟨size, h.cells_arg, rfl⟩ h.room hended hserves hpassing hlt hcursor
      (Dispatch.invoke_of_step hstep) hdue hkept⟩
  · refine ⟨.ended .done, shared, by simp [Worker.stepJob, hstep, JobStage.after],
      by simp [Worker.stepJob, hstep, Worker.JobStep.shared?], ?_⟩
    simp only [Trace.record, hstep, Trace.ended_of_none]
    exact ⟨hended, dispatch.group, hkeeps.2⟩

theorem Dispatched.proceeds_invoking {dispatch : Dispatch} {turn : Turn}
    {body : Process (Outcome × Frame)}
    (hsound : (JobStage.going arena (.invoking dispatch turn body)).Sound range trace)
    (hended : exchange.Ended trace.ended)
    (hkeeps : exchange.Keeps (exchange.board range life.arena size output) range life.arena
      shared.memory.heap trace.ended (.going arena (.invoking dispatch turn body))) :
    exchange.Proceeds (exchange.board range life.arena size output) range life.command life.arena arena
      shared trace (.invoking dispatch turn body) := by
  obtain ⟨past, call, hserves, hpassing, hlt, hmoment, hdue, -, rfl⟩ := hsound
  rw [Trace.ended_of_none] at hended hkeeps
  obtain ⟨hcarries, hstage, hensures⟩ := hkeeps
  cases body with
  | fault fault => exact hensures.elim
  | ask request next =>
    obtain ⟨reply, shared', hreply, hnext⟩ := hensures.perform life.command.id
    refine ⟨.going arena (.invoking dispatch turn (next reply)), shared',
      by simp [Worker.stepJob, Worker.stepProcess, hreply, JobStage.after],
      by simp [Worker.stepJob, Worker.stepProcess, hreply, Worker.JobStep.shared?], ?_⟩
    simp only [Trace.record, Trace.ended_of_none]
    exact ⟨hended, hcarries, hstage, hnext⟩
  | done result =>
    obtain ⟨outcome, frame⟩ := result
    obtain ⟨hanswers, hfilled⟩ := hensures _ (.refl _ _)
    -- It ends as promised, and so without a trap: the scheduler takes the answer.
    have htrap : ∀ status, outcome ≠ .trap status := by
      rintro status rfl
      obtain ⟨-, resumeAt, heq, -⟩ | ⟨-, heq⟩ := hanswers <;> cases heq
    obtain ⟨next, haccept, -⟩ :=
      hpassing.accept hserves.fits hlt (hmoment ▸ hdue) hmoment outcome frame htrap
    have hrecord : (Trace.of past (some call) none).record arena
        (.invoking dispatch turn (.done (outcome, frame))) =
        .of (past ++ [(call, .returned outcome frame)]) none none := by simp [Trace.record, Trace.of]
    refine ⟨.going arena (.scheduling next), shared,
      by simp [Worker.stepJob, Worker.stepProcess, haccept, JobStage.after],
      by simp [Worker.stepJob, Worker.stepProcess, haccept, Worker.JobStep.shared?], ?_⟩
    rw [hrecord, Trace.ended_of_none]
    have hcarves := hcarries.toCarves.accept (by simp [hstage]) haccept
    obtain ⟨remaining, frames, finished, rfl⟩ := Dispatch.goOn_of_accept haccept
    refine ⟨fun e he => ?_, { hcarves with output := hcarries.output }, hfilled call hmoment⟩
    rcases List.mem_append.1 he with he | he
    · exact hended e he
    · obtain rfl := List.mem_singleton.1 he
      exact ⟨outcome, frame, rfl, by simpa [hmoment] using hanswers⟩

/-- Every turn of the dispatch is a step, and keeps to the rounds. -/
theorem Dispatched.proceeds (h : exchange.Dispatched life range size output) {n : Nat} {job : Job}
    (hgoing : life.stage n = .going arena job) (hended : exchange.Ended (life.trace n).ended)
    (hkeeps : exchange.Keeps (exchange.board range life.arena size output) range life.arena
      (life.world n).memory.heap (life.trace n).ended (.going arena job)) :
    exchange.Proceeds (exchange.board range life.arena size output) range life.command life.arena arena
      (life.world n) (life.trace n) job := by
  have hsound := (life.run h.resolving n).sound h.kind h.fits.fits
  have hresolves := h.resolving n arena job hgoing
  rw [hgoing] at hsound
  cases job with
  | native body => exact hsound.elim
  | binding bound params args =>
    obtain ⟨id, hid, hmapped⟩ := h.output_arg
    exact h.proceeds_binding hsound hresolves ⟨id, hid, hmapped n⟩ hended hkeeps
  | scheduling dispatch => exact h.proceeds_scheduling hsound hended hkeeps
  | invoking dispatch turn body => exact proceeds_invoking hsound hended hkeeps
  | fresh =>
    refine ⟨.going arena (.binding range range.args []), life.world n, ?_, ?_, hended, hkeeps.1, hkeeps.2,
      rfl, Nat.zero_le _, by simp⟩
    · simp [Worker.stepJob, h.kind, Worker.begin, JobStage.after]
    · simp [Worker.stepJob, h.kind, Worker.begin, Worker.JobStep.shared?]

/-- The dispatch keeps to its rounds for its whole life. By induction on the turns. -/
theorem Dispatched.keeps (h : exchange.Dispatched life range size output) (n : Nat) :
    exchange.Ended (life.trace n).ended ∧
      exchange.Keeps (exchange.board range life.arena size output) range life.arena
        (life.world n).memory.heap (life.trace n).ended (life.stage n) := by
  induction n with
  | zero =>
    refine ⟨by simp [Ended, JobLife.trace, JobLife.state, Trace.ended], rfl, ?_, h.output_backed, ?_, ?_⟩
    · have hle := NDRange.localOffset_le h.cells_arg
      have hfit := h.fits.args_fit
      exact h.arena_backed.advance (by omega)
    all_goals simp [JobLife.trace, JobLife.state, Trace.ended]
  | succ n ih =>
    obtain ⟨hended, hkeeps⟩ := ih
    have hlaw := ((life.run h.resolving (n + 1)).sound h.kind h.fits.fits).followsBarriers
    -- Others leave the board alone until the next turn, so what this turn leaves is all that matters.
    suffices hleft : exchange.Ended (life.trace (n + 1)).ended ∧
        exchange.Keeps (exchange.board range life.arena size output) range life.arena
          (life.left n).memory.heap (life.trace (n + 1)).ended (life.stage (n + 1)) from
      ⟨hleft.1, hleft.2.agrees h.room (fun e he => hlaw.bounds (List.of_mem_zip he).1) (h.undisturbed n)⟩
    cases hstage : life.stage n with
    | broken | ended =>
      have hover : ∀ arena job, life.stage n ≠ .going arena job := by simp [hstage]
      obtain ⟨hsame, htrace⟩ := JobLife.next_of_over hover
      have hleft : life.left n = life.world n := by rw [JobLife.left, hstage]; rfl
      rw [hsame, htrace, hleft]
      exact ⟨hended, hkeeps⟩
    | going arena job =>
      rw [hstage] at hkeeps
      obtain ⟨next, shared', hafter, hshared, hended', hkeeps'⟩ := h.proceeds hstage hended hkeeps
      obtain ⟨hnext, htrace⟩ := JobLife.next_of_step hstage hafter
      have hleft : life.left n = shared' := by
        rw [JobLife.left, hstage, JobLife.leave, hshared, Option.getD_some]
      rw [hnext, htrace, hleft]
      exact ⟨hended', hkeeps'⟩

/-! ## What the dispatch comes to -/

theorem Dispatched.served (h : exchange.Dispatched life range size output) : life.Served where
  resolving := h.resolving
  unblocked n := by
    refine ⟨n, Nat.le_refl n, ?_⟩
    rintro ⟨arena, job, hgoing, hblocked⟩
    obtain ⟨hended, hkeeps⟩ := h.keeps n
    rw [hgoing] at hkeeps
    obtain ⟨next, -, hafter, -⟩ := h.proceeds hgoing hended hkeeps
    simp [hblocked, JobStage.after] at hafter

theorem Dispatched.finishes (h : exchange.Dispatched life range size output) : life.Finishes where
  going n answer hanswer := by
    have hlaw := ((life.run h.resolving n).sound h.kind h.fits.fits).followsBarriers
    have hended : (life.trace n).ended.map Prod.snd = (life.trace n).answers :=
      List.map_snd_zip hlaw.answered
    rw [← hended] at hanswer
    obtain ⟨e, he, rfl⟩ := List.mem_map.1 hanswer
    exact (h.keeps n).1.goesOn he
  finite group index := by
    refine ⟨exchange.rounds + 1, fun n call hcall _ _ => ?_⟩
    have hlaw := ((life.run h.resolving n).sound h.kind h.fits.fits).followsBarriers
    exact Nat.lt_succ_of_le ((h.keeps n).1.pass_le (hlaw.due call hcall))

end Turns

end Exchange

/-- A dispatch of an exchange comes to its end, and then the buffer holds, at the position of every
work-item, its value of the last round of the synchronous iteration over its own group. What other
groups or earlier commands left in local memory does not matter. -/
theorem exchange_delivers {exchange : Exchange} {life : JobLife} {range : NDRange} {size : Nat}
    {output : Region} (h : exchange.Dispatched life range size output) :
    ∃ n, life.stage n = .ended .done ∧ ∀ group < range.space.groupCounts.prod,
      ∀ index < range.space.localSizes.prod,
        (life.world n).memory.heap.slot output exchange.width
            (group * range.space.localSizes.prod + index) =
          exchange.iterate range.space.localSizes.prod group (exchange.rounds - 1) index := by
  obtain ⟨n, hend⟩ := h.finishes.ends h.served h.kind h.fits.fits
  refine ⟨n, hend, fun group hgroup index hindex => ?_⟩
  obtain ⟨hended, hkeeps⟩ := h.keeps n
  have hsound := (life.run h.resolving n).sound h.kind h.fits.fits
  rw [hend] at hkeeps hsound
  obtain ⟨last, hfilled⟩ := hkeeps
  obtain ⟨e, he, rfl, rfl, hdone⟩ := Trace.EndsAs.item_done hsound.2 hgroup hindex
  exact hfilled.results e he (hended.of_done he hdone)

/-! ### Two groups of two work-items, in two rounds -/

/-- The sum of all values of the round before, plus the linear id of the work-item. -/
def tally : Exchange where
  rounds := 2
  width := 1
  value _ _ index previous :=
    #[(previous.map fun bytes => bytes.getD 0 0).sum + UInt8.ofNat index]
  cells := 0
  output := 1
  rounds_pos := by decide
  rounds_lt := by decide
  size_value _ _ _ _ := rfl

def tallyRange : NDRange where
  space := { axes := [{ globalSize := 4, localSize := 2, offset := 0 }] }
  kernel := { name := "tally", invoke := tally.invoke }
  args := [.localBytes 4, .object ⟨0⟩]

def tallyCommand : Command where
  id := ⟨0⟩
  kind := .ndrange tallyRange

def tallyArena : LocalArena where
  base := ⟨0, 0⟩
  capacity := 4

/-- Local memory as an earlier command has left it, and a buffer. -/
def tallyShared : Shared where
  localMemory := 4
  sink := .gone
  memory := {
    capacity := 4, available := 0
    heap := { blocks := #[#[9, 9, 9, 9], #[0, 0, 0, 0]] }
    mappings := { entries := [(⟨0⟩, { start := ⟨1, 0⟩, size := 4, storage := .owned })] } }

theorem exchange_delivers_tally :
    let life := JobLife.alone tallyCommand tallyArena tallyShared
    ∃ n, life.stage n = .ended .done ∧ ∀ group < 2, ∀ index < 2,
      (life.world n).memory.heap.slot ⟨⟨1, 0⟩, 4⟩ 1 (group * 2 + index) = tally.iterate 2 group 1 index := by
  have hkind : tallyCommand.kind = .ndrange tallyRange := rfl
  have hmappings := JobLife.alone_mappings tallyCommand tallyArena tallyShared hkind
  have hresolving : ∀ n arena job, (JobLife.alone tallyCommand tallyArena tallyShared).stage n =
      .going arena job → Resolving job ((JobLife.alone tallyCommand tallyArena tallyShared).world n) :=
    JobLife.alone_resolving hkind (by decide)
  have hdispatched : tally.Dispatched (.alone tallyCommand tallyArena tallyShared) tallyRange 4
      ⟨⟨1, 0⟩, 4⟩ := {
    kind := rfl
    kernel := rfl
    fits := ⟨⟨[4], [2], [0], rfl⟩, by decide, by decide, by decide⟩
    resolving := hresolving
    cells_arg := rfl
    output_arg := ⟨⟨0⟩, rfl, fun n => by simp only [GlobalMemory.regionOf?, hmappings]; rfl⟩
    room := ⟨by decide, by decide, by decide⟩
    arena_backed := .of_le_size (by decide)
    output_backed := .of_le_size (by decide)
    undisturbed := fun n => by
      rw [JobLife.alone_left]
      exact .refl _ _ }
  exact exchange_delivers hdispatched

end ComputeCore
