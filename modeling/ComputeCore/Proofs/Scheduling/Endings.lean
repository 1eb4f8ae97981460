import Mathlib.Data.Finset.Lattice.Fold
import Mathlib.Data.Finset.Prod
import Mathlib.Data.Prod.Lex
import ComputeCore.Proofs.Scheduling.Lives
import ComputeCore.Proofs.Scheduling.Moves
/-!
# The end of a dispatch

A dispatch comes to an end if no work-item comes to barriers for ever (`JobLife.Served.ends`), and has
done everything there if its kernel neither traps nor panics (`JobLife.Finishes.ends`). What goes down
with every step of the scheduler is `Dispatch.left`: the groups that are left, then the passes over the
current group, then the work-items of the current pass. A pass has another one after it only if a
work-item stands at a barrier, so that the passes are bounded by the invocations of the work-items.
-/

namespace ComputeCore

/-- What is left of a dispatch that makes at most `passes` passes over a group. -/
def Dispatch.left (dispatch : Dispatch) (passes : Nat) : Nat ×ₗ Nat ×ₗ Nat :=
  toLex (dispatch.totalGroups - dispatch.group,
    match dispatch.stage with
    | .entering => toLex (passes + 2, 0)
    | .passing turn => toLex (passes + 1 - dispatch.pass, dispatch.perGroup - turn.index))

/-- No work-item is invoked over and over. -/
def JobLife.Bounded (life : JobLife) : Prop :=
  ∀ group index, ∃ bound, ∀ n, ∀ call ∈ (life.trace n).calls,
    call.moment.group = group → call.moment.index = index → call.moment.pass < bound

/-- The kernel neither traps nor panics, and no work-item is invoked over and over. -/
structure JobLife.Finishes (life : JobLife) : Prop where
  going : ∀ n, ∀ answer ∈ (life.trace n).answers, answer.GoesOn
  finite : ∀ group index, ∃ bound, ∀ n, ∀ call ∈ (life.trace n).calls,
    call.moment.group = group → call.moment.index = index → call.moment.pass < bound

theorem Answer.goesOn_iff {answer : Answer} : answer.GoesOn ↔ answer.status? = none := by
  cases answer with
  | panicked => simp [GoesOn, IsDone, IsBarrier, status?]
  | returned outcome frame => cases outcome <;> simp [GoesOn, IsDone, IsBarrier, status?]

namespace Dispatch

section Steps
variable {dispatch next : Dispatch} {arena arena' : LocalArena} {past : List (Call × Answer)}
  {turn : Turn} {passes : Nat}

/-! ## What a step leaves -/

/-- At the end of a pass that is not the last one, some work-item has come to a barrier in it. -/
theorem Passing.barrier_of_remaining (hfits : dispatch.Fits arena) (h : dispatch.Passing past turn)
    (hend : ¬ turn.index < dispatch.perGroup) (hremaining : 0 < dispatch.remaining) :
    ∃ e ∈ past, e.1.moment.pass = dispatch.pass ∧ e.2.IsBarrier := by
  obtain ⟨index, hlt, hopen⟩ := h.exists_open hfits hremaining
  have hdue := (h.flags index hlt).1 hopen
  rw [nextMoment, if_pos (by omega)] at hdue
  obtain ⟨e, he, hm, hbar⟩ := hdue
  exact ⟨e, he, by simp [hm], hbar⟩

theorem Move.left (hmove : dispatch.Move arena next arena') (hfits : dispatch.Fits arena)
    (h : dispatch.Tracks past) (hpasses : ∀ e ∈ past, e.1.moment.pass < passes) :
    next.left passes < dispatch.left passes := by
  cases hmove with
  | enter hstage hgroup henter =>
    obtain ⟨args, arena'', hready, -⟩ := enterGroup_ok hfits hgroup
    rw [hready] at henter
    cases henter
    simp [Dispatch.left, hstage, Prod.Lex.toLex_lt_toLex]
  | skip hstage hlt =>
    simp [Dispatch.left, hstage, Prod.Lex.toLex_lt_toLex, Turn.next]
    omega
  | nextPass hstage hend hremaining =>
    simp only [Tracks, hstage] at h
    obtain ⟨e, he, hpass, -⟩ := h.barrier_of_remaining hfits hend hremaining
    have := hpasses e he
    simp [Dispatch.left, hstage, Prod.Lex.toLex_lt_toLex]
    omega
  | leave hstage =>
    simp only [Tracks, hstage] at h
    have := h.group_lt
    simp [Dispatch.left, hstage, Prod.Lex.toLex_lt_toLex]
    omega

theorem accept_left {outcome : Outcome} {frame : Frame} (hlt : turn.index < dispatch.perGroup)
    (hstage : dispatch.stage = .passing turn)
    (haccept : dispatch.accept turn outcome frame = .ok (.goOn next)) :
    next.left passes < dispatch.left passes := by
  obtain ⟨remaining, frames, finished, rfl⟩ := goOn_of_accept haccept
  simp [left, hstage, Prod.Lex.toLex_lt_toLex, Turn.next]
  omega

end Steps

end Dispatch

/-- Only work-items of the index space are invoked. -/
theorem Trace.FollowsBarriers.bounds {trace : Trace} {space : IndexSpace}
    (h : trace.FollowsBarriers space) {call : Call} (hcall : call ∈ trace.calls) :
    call.moment.group < space.groupCounts.prod ∧ call.moment.index < space.localSizes.prod := by
  -- By induction on the pass: an invocation in a later pass is due because of one in the pass before.
  suffices hbounds : ∀ pass, ∀ call ∈ trace.calls, call.moment.pass = pass →
      call.moment.group < space.groupCounts.prod ∧ call.moment.index < space.localSizes.prod from
    hbounds _ call hcall rfl
  intro pass
  induction pass with
  | zero =>
    intro call hcall hpass
    have hdue := h.due call hcall
    rcases hm : call.moment with ⟨group, pass, index⟩
    obtain rfl : pass = 0 := by simpa [hm] using hpass
    rw [hm] at hdue
    exact hdue
  | succ pass ih =>
    intro call hcall hpass
    have hdue := h.due call hcall
    rcases hm : call.moment with ⟨group, pass', index⟩
    obtain rfl : pass' = pass + 1 := by simpa [hm] using hpass
    rw [hm] at hdue
    obtain ⟨e, he, hbefore, -⟩ := hdue
    simpa [hbefore] using ih e.1 (List.of_mem_zip he).1 (by simp [hbefore])

namespace JobLife

section Lives
variable {life : JobLife} {range : NDRange} {n : Nat}

/-! ## Every stage of a life -/

theorem Served.sound (hserved : life.Served) (hkind : life.command.kind = .ndrange range)
    (hfits : range.Fits life.arena) (n : Nat) : (life.stage n).Sound range (life.trace n) :=
  (life.run hserved.resolving n).sound hkind hfits

/-- There is a pass that no invocation of the whole life comes to: only the finitely many work-items
of the index space are invoked. -/
theorem Bounded.passes (hbounded : life.Bounded)
    (hlaw : ∀ n, (life.trace n).FollowsBarriers range.space) :
    ∃ passes, ∀ n, ∀ call ∈ (life.trace n).calls, call.moment.pass < passes := by
  choose bound hbound using hbounded
  let places := Finset.range range.space.groupCounts.prod ×ˢ Finset.range range.space.localSizes.prod
  refine ⟨places.sup fun place => bound place.1 place.2, fun n call hcall => ?_⟩
  have hplace : (call.moment.group, call.moment.index) ∈ places := by
    obtain ⟨hgroup, hindex⟩ := (hlaw n).bounds hcall
    simp [places, hgroup, hindex]
  exact Nat.lt_of_lt_of_le (hbound _ _ n call hcall rfl rfl)
    (Finset.le_sup (f := fun place => bound place.1 place.2) hplace)

theorem Finishes.not_exit (hfinishes : life.Finishes) (hserved : life.Served)
    (hkind : life.command.kind = .ndrange range) (hfits : range.Fits life.arena) (status : Status) :
    life.stage n ≠ .ended (.exit status) := by
  intro hexit
  obtain ⟨-, -, answer, hlast, hstatus⟩ := hexit ▸ hserved.sound hkind hfits n
  have hgoing := Answer.goesOn_iff.1 (hfinishes.going n answer (List.mem_of_getLast? hlast))
  simp [hgoing] at hstatus

/-! ## From turn to turn -/

/-- The dispatch is over after an invocation, or the scheduler comes back from it with less left to do. -/
theorem Served.returns (hserved : life.Served) (hkind : life.command.kind = .ndrange range)
    (hfits : range.Fits life.arena) (passes : Nat) {arena : LocalArena} {dispatch : Dispatch}
    {turn : Turn} {body : Process (Outcome × Frame)} (hturn : dispatch.stage = .passing turn)
    (hstage : life.stage n = .going arena (.invoking dispatch turn body)) :
    ∃ m, (∃ ending, life.stage m = .ended ending) ∨
      ∃ next, life.stage m = .going arena (.scheduling next) ∧
        next.left passes < dispatch.left passes := by
  obtain ⟨k, last, -, hlast, -, hover⟩ := Unblocked.answers hserved.unblocked body n hstage
  obtain ⟨m, -, hm, -, stage, hafter⟩ := Unblocked.steps hserved.unblocked hlast
  obtain ⟨hnext, -⟩ := next_of_step hm hafter
  obtain ⟨past, call, hserves, hpassing, hlt, hmoment, hdue, -⟩ := hm ▸ hserved.sound hkind hfits m
  refine ⟨m + 1, ?_⟩
  cases last with
  | ask request next => exact absurd rfl (hover request next)
  | fault fault =>
    simp only [Worker.stepJob, Worker.stepProcess, JobStage.after, Option.some.injEq] at hafter
    exact .inl ⟨_, hnext.trans hafter.symm⟩
  | done result =>
    obtain ⟨outcome, frame⟩ := result
    by_cases htrap : ∃ status, outcome = .trap status
    · obtain ⟨status, rfl⟩ := htrap
      simp only [Worker.stepJob, Worker.stepProcess, Dispatch.accept, JobStage.after,
        Option.some.injEq] at hafter
      exact .inl ⟨_, hnext.trans hafter.symm⟩
    · obtain ⟨next, haccept, -⟩ := hpassing.accept hserves.fits hlt (hmoment ▸ hdue) hmoment outcome
        frame fun status heq => htrap ⟨status, heq⟩
      simp only [Worker.stepJob, Worker.stepProcess, haccept, JobStage.after,
        Option.some.injEq] at hafter
      exact .inr ⟨next, hnext.trans hafter.symm, Dispatch.accept_left hlt hturn haccept⟩

/-- The dispatch ends, or the scheduler comes to its next step with less left to do. -/
theorem Served.moves (hserved : life.Served) (hkind : life.command.kind = .ndrange range)
    (hfits : range.Fits life.arena) {passes : Nat}
    (hpasses : ∀ n, ∀ call ∈ (life.trace n).calls, call.moment.pass < passes)
    {arena : LocalArena} {dispatch : Dispatch}
    (hstage : life.stage n = .going arena (.scheduling dispatch)) :
    ∃ m, (∃ ending, life.stage m = .ended ending) ∨ ∃ arena next,
      life.stage m = .going arena (.scheduling next) ∧ next.left passes < dispatch.left passes := by
  obtain ⟨m, -, hm, -, stage, hafter⟩ := Unblocked.steps hserved.unblocked hstage
  obtain ⟨hnext, -⟩ := next_of_step hm hafter
  have hsound := hserved.sound hkind hfits m
  rw [hm] at hsound
  obtain ⟨past, hserves, htracks, htrace⟩ := hsound
  simp only [Worker.stepJob] at hafter
  rcases Dispatch.step_cases hserves.fits htracks with
    ⟨next, arena', hstep, -⟩ | ⟨turn, item, frame, hstep, -⟩ | ⟨hstep, -⟩
  · simp only [hstep, JobStage.after, Option.some.injEq] at hafter
    refine ⟨m + 1, .inr ⟨arena', next, hnext.trans hafter.symm,
      (Dispatch.move_of_step hstep).left hserves.fits htracks fun e he => ?_⟩⟩
    exact hpasses m e.1 (htrace ▸ Trace.fst_mem_calls_of he)
  · simp only [hstep, JobStage.after, Option.some.injEq] at hafter
    obtain ⟨k, hended | ⟨next, hk, hless⟩⟩ := hserved.returns hkind hfits passes
      (Dispatch.invoke_of_step hstep).1 (hnext.trans hafter.symm)
    · exact ⟨k, .inl hended⟩
    · exact ⟨k, .inr ⟨arena, next, hk, hless⟩⟩
  · simp only [hstep, JobStage.after, Option.some.injEq] at hafter
    exact ⟨m + 1, .inl ⟨_, hnext.trans hafter.symm⟩⟩

/-- Once its arguments are bound, a dispatch comes to its scheduler. -/
theorem Served.schedules (hserved : life.Served) (hkind : life.command.kind = .ndrange range)
    (hfits : range.Fits life.arena) (params : List KernelArg) :
    ∀ n arena args, life.stage n = .going arena (.binding range params args) →
      ∃ m arena dispatch, life.stage m = .going arena (.scheduling dispatch) := by
  induction params with
  | nil =>
    intro n arena args hstage
    obtain ⟨m, -, hm, -, stage, hafter⟩ := Unblocked.steps hserved.unblocked hstage
    obtain ⟨hnext, -⟩ := next_of_step hm hafter
    have hsound := hserved.sound hkind hfits m
    rw [hm] at hsound
    obtain ⟨dispatch, hcreate, -⟩ := Dispatch.create_ok hsound.2.1 args
    simp only [Worker.stepJob, hcreate, JobStage.after, Option.some.injEq] at hafter
    exact ⟨m + 1, arena, dispatch, hnext.trans hafter.symm⟩
  | cons param params ih =>
    intro n arena args hstage
    obtain ⟨m, -, hm, -, stage, hafter⟩ := Unblocked.steps hserved.unblocked hstage
    obtain ⟨hnext, -⟩ := next_of_step hm hafter
    obtain ⟨arg, harg⟩ := Option.isSome_iff_exists.1 (hserved.resolving m _ _ hm)
    simp only [Worker.stepJob, harg, JobStage.after, Option.some.injEq] at hafter
    exact ih (m + 1) arena (args ++ [arg]) (hnext.trans hafter.symm)

/-! ## To the end -/

/-- A dispatch that fits its worker comes to an end, if no work-item is invoked over and over. By
induction on what is left of it. -/
theorem Served.ends (hserved : life.Served) (hkind : life.command.kind = .ndrange range)
    (hfits : range.Fits life.arena) (hbounded : life.Bounded) :
    ∃ n ending, life.stage n = .ended ending := by
  obtain ⟨passes, hpasses⟩ := hbounded.passes fun n => (hserved.sound hkind hfits n).followsBarriers
  have hscheduling : ∀ left n arena dispatch, dispatch.left passes = left →
      life.stage n = .going arena (.scheduling dispatch) →
        ∃ m ending, life.stage m = .ended ending := by
    intro left
    induction left using WellFoundedLT.induction with
    | ind left ih =>
      rintro n arena dispatch rfl hstage
      obtain ⟨m, hended | ⟨arena, next, hnext, hless⟩⟩ := hserved.moves hkind hfits hpasses hstage
      · exact ⟨m, hended⟩
      · exact ih _ hless m arena next rfl hnext
  obtain ⟨m, -, hm, -, stage, hafter⟩ := Unblocked.steps hserved.unblocked (n := 0) rfl
  obtain ⟨hnext, -⟩ := next_of_step hm hafter
  simp only [Worker.stepJob, hkind, Worker.begin, JobStage.after, Option.some.injEq] at hafter
  obtain ⟨n, arena, dispatch, hstage⟩ :=
    hserved.schedules hkind hfits range.args (m + 1) _ [] (hnext.trans hafter.symm)
  exact hscheduling _ n arena dispatch rfl hstage

/-- If its kernel neither traps nor panics, it is carried out to its end. -/
theorem Finishes.ends (hfinishes : life.Finishes) (hserved : life.Served)
    (hkind : life.command.kind = .ndrange range) (hfits : range.Fits life.arena) :
    ∃ n, life.stage n = .ended .done := by
  obtain ⟨n, ending, hended⟩ := hserved.ends hkind hfits hfinishes.finite
  cases ending with
  | done => exact ⟨n, hended⟩
  | exit status => exact absurd hended (hfinishes.not_exit hserved hkind hfits status)

end Lives

end JobLife

end ComputeCore
