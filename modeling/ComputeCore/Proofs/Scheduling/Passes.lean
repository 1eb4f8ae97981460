import Mathlib.Order.Lattice.Nat
import ComputeCore.Proofs.Scheduling.Frames
import ComputeCore.Proofs.Scheduling.Invocations
/-!
# The passes over a group

A group is gone over in passes until nothing is left of it, and how many that takes is up to the kernel.
`passes_end` says that a dispatch comes to an end as soon as each of its work-items stops coming to
barriers, and that a group has taken as many passes by then as its most frequently invoked work-item
has had invocations.

The passes are counted by their starts (`JobLife.passesOver`), without looking at the number the scheduler
keeps of them. Two facts tie the count to the invocations: every invocation is in a pass that has begun
(`JobLife.Served.called`), and every pass has begun because of a work-item whose turn was due in it
(`JobLife.Served.due_in_pass`).
-/

namespace ComputeCore

/-- The scheduler is at the start of a pass over this group. -/
def JobStage.beginsPass (group : Nat) : JobStage → Bool
  | .going _ (.scheduling dispatch) =>
    match dispatch.stage with
    | .entering => false
    | .passing turn => turn.index = 0 ∧ dispatch.group = group
  | _ => false

/-- The passes over a group that have begun before turn `n`. -/
def JobLife.passesOver (life : JobLife) (group n : Nat) : Nat :=
  (List.range n).countP fun k => (life.stage k).beginsPass group

/-- The most invocations that a work-item of this group has had. -/
def Trace.needed (trace : Trace) (space : IndexSpace) (group : Nat) : Nat :=
  (Finset.range space.localSizes.prod).sup fun index =>
    (trace.callsOf (space.place group index).item).length

/-- After finitely many invocations of a work-item there is one that does not end at a barrier, if it ends
at all. -/
def JobLife.ItemsEnd (life : JobLife) : Prop :=
  ∀ item, ∃ k : Nat, ∀ (n : Nat) (answer : Answer),
    ((life.trace n).answersOf item)[k]? = some answer → ¬ answer.IsBarrier

/-- What every pass of a dispatch keeps to. -/
structure JobLife.PassLaw (life : JobLife) (space : IndexSpace) : Prop where
  /-- A pass starts with a true count of the work-items that are left, and not in vain: the next invocation
  is in this pass. -/
  starts : ∀ n arena dispatch turn, life.stage n = .going arena (.scheduling dispatch) →
    dispatch.stage = .passing turn → turn.index = 0 →
      dispatch.remaining = dispatch.finished.count false ∧ 0 < dispatch.remaining ∧
      ∃ m call, (life.trace m).calls = (life.trace n).calls ++ [call] ∧
        call.moment.group = dispatch.group ∧ call.moment.pass = dispatch.pass
  /-- The count stays true, and there is a work-item to take off it whenever one may be done. -/
  counts : ∀ n arena dispatch turn body, life.stage n = .going arena (.invoking dispatch turn body) →
    dispatch.remaining = dispatch.finished.count false ∧ 0 < dispatch.remaining
  /-- A group that is done has taken as many passes as the most invocations a work-item of it needed. -/
  passes : ∀ n, ∀ group < space.groupCounts.prod,
    (∀ index < space.localSizes.prod, ∃ e ∈ (life.trace n).ended,
      e.1.moment.group = group ∧ e.1.moment.index = index ∧ e.2.IsDone) →
    life.passesOver group n = (life.trace n).needed space group

namespace JobLife

section Lives
variable {life : JobLife} {range : NDRange} {n : Nat}

/-! ## Work-items that stop coming to barriers -/

theorem ItemsEnd.bounded (hitems : life.ItemsEnd) (hserved : life.Served)
    (hkind : life.command.kind = .ndrange range) (hfits : range.Fits life.arena) : life.Bounded := by
  intro group index
  obtain ⟨k, hk⟩ := hitems (range.space.place group index).item
  refine ⟨k + 1, fun n call hcall hgroup hindex => ?_⟩
  have hlaw := (hserved.sound hkind hfits n).followsBarriers
  have hlocated := (life.run hserved.resolving n).located hkind hfits
  have hown : call ∈ (life.trace n).callsOf (range.space.place group index).item := by
    refine List.mem_filter.2 ⟨hcall, decide_eq_true ?_⟩
    rw [hlocated.itemId_eq hcall, hgroup, hindex]
  obtain ⟨place, hplace⟩ := List.mem_iff_getElem?.1 hown
  rw [hlaw.pass_eq hlocated hplace]
  by_contra hlater
  -- Another invocation after number `k` is there because that one has ended at a barrier.
  have hlt : k + 1 < ((life.trace n).callsOf (range.space.place group index).item).length := by
    have := (List.getElem?_eq_some_iff.1 hplace).1
    omega
  obtain ⟨resumeAt, left, hanswer, -⟩ := hlaw.own_frame hlocated (List.getElem?_eq_getElem hlt)
  exact hk n _ hanswer ⟨resumeAt, left, rfl⟩

/-- The work-items of a job that is over have stopped. -/
theorem ItemsEnd.of_ended {ending : Ending} (hended : life.stage n = .ended ending) : life.ItemsEnd := by
  intro item
  refine ⟨(life.trace n).answers.length, fun m answer hanswer => ?_⟩
  have hle : (life.trace m).answers.length ≤ (life.trace n).answers.length := by
    rcases Nat.le_total m n with hle | hle
    · exact (life.answers_mono hle).length_le
    · rw [(stays_over (by simp [hended]) hle).2]
  have hown : ((life.trace m).answersOf item).length ≤ (life.trace m).answers.length := by
    rw [Trace.answersOf, List.length_map]
    exact (List.length_filter_le _ _).trans (by simp [Trace.ended])
  have := (List.getElem?_eq_some_iff.1 hanswer).1
  omega

/-! ## The start of a pass -/

theorem passesOver_succ (life : JobLife) (n group : Nat) : life.passesOver group (n + 1) =
    life.passesOver group n + if (life.stage n).beginsPass group then 1 else 0 := by
  rw [passesOver, List.range_succ, List.countP_append, List.countP_singleton]
  rfl

theorem passesOver_le_succ (life : JobLife) (n group : Nat) :
    life.passesOver group n ≤ life.passesOver group (n + 1) :=
  passesOver_succ life n group ▸ Nat.le_add_right _ _

theorem exists_of_beginsPass {group : Nat} (hbegins : (life.stage n).beginsPass group = true) :
    ∃ arena dispatch turn, life.stage n = .going arena (.scheduling dispatch) ∧
      dispatch.stage = .passing turn ∧ turn.index = 0 ∧ dispatch.group = group := by
  match hstage : life.stage n with
  | .ended _ | .broken | .going _ .fresh | .going _ (.native _) | .going _ (.binding ..)
  | .going _ (.invoking ..) => simp [hstage, JobStage.beginsPass] at hbegins
  | .going arena (.scheduling dispatch) =>
    cases hturn : dispatch.stage with
    | entering => simp [hstage, JobStage.beginsPass, hturn] at hbegins
    | passing turn =>
      obtain ⟨hzero, hgroup⟩ : turn.index = 0 ∧ dispatch.group = group := by
        simpa [hstage, JobStage.beginsPass, hturn] using hbegins
      exact ⟨arena, dispatch, turn, rfl, hturn, hzero, hgroup⟩

/-- A pass that has come to a work-item not marked as finished invokes the kernel. -/
theorem invokes_next {arena : LocalArena} {dispatch : Dispatch} {turn : Turn}
    (hstage : life.stage n = .going arena (.scheduling dispatch)) (hturn : dispatch.stage = .passing turn)
    (hlt : turn.index < dispatch.perGroup) (hopen : dispatch.finished.getD turn.index false = false) :
    ∃ call, (life.trace (n + 1)).calls = (life.trace n).calls ++ [call] ∧
      call.moment.group = dispatch.group ∧ call.moment.pass = dispatch.pass := by
  have hstep : dispatch.step arena = .ok (.invoke turn
      { cursor := turn.cursor, args := dispatch.args, localMemory := arena.region }
      (dispatch.frames.getD turn.index {})) := by
    simp only [Dispatch.step, hturn, if_pos hlt, hopen]
    rfl
  obtain ⟨-, htrace⟩ := next_of_step hstage (by simp only [Worker.stepJob, hstep]; rfl)
  exact ⟨_, by rw [htrace, Trace.record, hstep], rfl, rfl⟩

/-- So does one that has yet to come to such a work-item. By induction on the work-items up to that one. -/
theorem invokes_in_pass {arena : LocalArena} (more : Nat) :
    ∀ (n : Nat) (dispatch : Dispatch) (turn : Turn), life.stage n = .going arena (.scheduling dispatch) →
      dispatch.stage = .passing turn → turn.index + more < dispatch.perGroup →
      dispatch.finished.getD (turn.index + more) false = false →
      ∃ m call, (life.trace m).calls = (life.trace n).calls ++ [call] ∧
        call.moment.group = dispatch.group ∧ call.moment.pass = dispatch.pass := by
  induction more with
  | zero => exact fun n dispatch turn hstage hturn hlt hopen => ⟨n + 1, invokes_next hstage hturn hlt hopen⟩
  | succ more ih =>
    intro n dispatch turn hstage hturn hlt hopen
    have hlt' : turn.index < dispatch.perGroup := by omega
    cases hflag : dispatch.finished.getD turn.index false with
    | false => exact ⟨n + 1, invokes_next hstage hturn hlt' hflag⟩
    | true =>
      have hstep : dispatch.step arena =
          .ok (.moved { dispatch with stage := .passing turn.next } arena) := by
        simp only [Dispatch.step, hturn, if_pos hlt', if_pos hflag]
      obtain ⟨hnext, htrace⟩ := next_of_step hstage (by simp only [Worker.stepJob, hstep]; rfl)
      have hsucc : turn.next.index + more = turn.index + (more + 1) := by
        simp only [Turn.next]
        omega
      obtain ⟨m, call, hcalls, hmoment⟩ := ih (n + 1) _ turn.next hnext rfl
        (by rw [hsucc]; exact hlt) (by rw [hsucc]; exact hopen)
      refine ⟨m, call, ?_, hmoment⟩
      rw [hcalls, htrace, Trace.record, hstep]

end Lives

end JobLife

/-! ## Counting passes -/

/-- The numbers of passes that have begun, with the one that begins at this stage. -/
def JobStage.countPass (begun : Nat → Nat) (stage : JobStage) (group : Nat) : Nat :=
  begun group + if stage.beginsPass group then 1 else 0

/-- How many passes have begun, as far as the scheduler can tell, and that a pass begins with something
left to do. -/
def JobStage.Counted (begun : Nat → Nat) : JobStage → Prop
  | .going _ .fresh | .going _ (.binding ..) => ∀ group, begun group = 0
  | .going _ (.scheduling dispatch) => (∀ group > dispatch.group, begun group = 0) ∧
    match dispatch.stage with
    | .entering => begun dispatch.group = 0
    | .passing turn => if turn.index = 0 then begun dispatch.group = dispatch.pass ∧ 0 < dispatch.remaining
        else begun dispatch.group = dispatch.pass + 1
  | .going _ (.invoking dispatch ..) => (∀ group > dispatch.group, begun group = 0) ∧
    begun dispatch.group = dispatch.pass + 1
  | _ => True

section Steps
variable {dispatch next : Dispatch} {arena arena' : LocalArena} {job : Job} {stage : JobStage}
  {range : NDRange} {shared : Shared} {command : Command} {trace trace' : Trace} {begun : Nat → Nat}

theorem Dispatch.Fits.perGroup_pos (hfits : dispatch.Fits arena) : 0 < dispatch.perGroup :=
  hfits.perGroup ▸ hfits.space.localSizes_prod_pos

/-- Within a pass, or from its start on, one more pass has begun than the scheduler has behind it. -/
theorem JobStage.Counted.within {turn : Turn} (h : Counted begun (.going arena (.scheduling dispatch)))
    (hturn : dispatch.stage = .passing turn) :
    (∀ group > dispatch.group, countPass begun (.going arena (.scheduling dispatch)) group = 0) ∧
      countPass begun (.going arena (.scheduling dispatch)) dispatch.group = dispatch.pass + 1 := by
  simp only [Counted, hturn] at h
  obtain ⟨hlater, hcurrent⟩ := h
  constructor
  · intro group hgroup
    have hother : dispatch.group ≠ group := Nat.ne_of_lt hgroup
    simp [countPass, beginsPass, hturn, hlater group hgroup, hother]
  · by_cases hzero : turn.index = 0
    · rw [if_pos hzero] at hcurrent
      simp [countPass, beginsPass, hturn, hzero, hcurrent.1]
    · rw [if_neg hzero] at hcurrent
      simp [countPass, beginsPass, hturn, hzero, hcurrent]

theorem Dispatch.Move.counted (hmove : dispatch.Move arena next arena') (hfits : dispatch.Fits arena)
    (h : JobStage.Counted begun (.going arena (.scheduling dispatch))) :
    JobStage.Counted (JobStage.countPass begun (.going arena (.scheduling dispatch)))
      (.going arena' (.scheduling next)) := by
  have hpos := hfits.perGroup_pos
  cases hmove with
  | enter hstage hgroup henter =>
    obtain ⟨args, arena'', hready, -⟩ := enterGroup_ok hfits hgroup
    rw [hready] at henter
    cases henter
    simp only [JobStage.Counted, hstage] at h
    simpa [JobStage.Counted, JobStage.countPass, JobStage.beginsPass, hstage, hpos] using h
  | skip hstage hlt => simpa [JobStage.Counted, Turn.next] using h.within hstage
  | nextPass hstage hend hremaining => simpa [JobStage.Counted, hremaining] using h.within hstage
  | leave hstage hend =>
    obtain ⟨hlater, -⟩ := h.within hstage
    exact ⟨fun group hgroup => hlater group (Nat.lt_of_succ_lt hgroup), hlater _ (Nat.lt_succ_self _)⟩

theorem JobStage.Counted.step (h : Counted begun (.going arena job))
    (hsound : Sound range trace (.going arena job))
    (hnext : Next shared command arena trace job stage trace') :
    stage.Counted (countPass begun (.going arena job)) := by
  cases hnext with
  | begin | bind | ask => simpa [Counted, countPass, beginsPass] using h
  | serve kind finished =>
    cases stage with
    | going arena' job => exact absurd rfl (finished arena' job)
    | ended | broken => trivial
  | create created =>
    obtain ⟨-, -, -, hgroup, hentering⟩ := Dispatch.create_args created
    have hnone : ∀ group, begun group = 0 := h
    simp [Counted, hentering, countPass, beginsPass, hnone]
  | move step =>
    obtain ⟨past, hserves, -⟩ := hsound
    exact (Dispatch.move_of_step step).counted hserves.fits h
  | invoke step => exact h.within (Dispatch.invoke_of_step step).1
  | goOn accepted =>
    obtain ⟨remaining, frames, finished, rfl⟩ := Dispatch.goOn_of_accept accepted
    simpa [Counted, countPass, beginsPass, Turn.next] using h
  | _ => trivial

end Steps

/-- What is due stays due. -/
theorem Trace.DueIn.mono {trace trace' : Trace} {space : IndexSpace} {m : Moment}
    (hcalls : trace.calls <+: trace'.calls) (hanswers : trace.answers <+: trace'.answers)
    (h : trace.DueIn space m) : trace'.DueIn space m := by
  have hended : ∀ e ∈ trace.ended, e ∈ trace'.ended := by
    intro e he
    obtain ⟨i, hi⟩ := List.mem_iff_getElem?.1 he
    obtain ⟨hcall, hanswer⟩ := List.getElem?_zip_eq_some.1 hi
    obtain ⟨hlt, hcall⟩ := List.getElem?_eq_some_iff.1 hcall
    obtain ⟨hlt', hanswer⟩ := List.getElem?_eq_some_iff.1 hanswer
    refine List.mem_of_getElem? (i := i) (List.getElem?_zip_eq_some.2 ⟨?_, ?_⟩)
    · exact (List.prefix_iff_getElem?.1 hcalls i hlt).trans (congrArg some hcall)
    · exact (List.prefix_iff_getElem?.1 hanswers i hlt').trans (congrArg some hanswer)
  obtain ⟨group, pass, index⟩ := m
  cases pass with
  | zero => exact h
  | succ pass =>
    obtain ⟨e, he, hmoment, hbar⟩ := h
    exact ⟨e, hended e he, hmoment, hbar⟩

/-- A work-item that is done has no turn in a later pass. -/
theorem Trace.FollowsBarriers.due_le_done {trace : Trace} {space : IndexSpace}
    (hlaw : trace.FollowsBarriers space) (hlocated : trace.Located space) {e : Call × Answer}
    (he : e ∈ trace.ended) (hdone : e.2.IsDone) {pass : Nat}
    (hdue : trace.DueIn space ⟨e.1.moment.group, pass, e.1.moment.index⟩) : pass ≤ e.1.moment.pass := by
  cases pass with
  | zero => exact Nat.zero_le _
  | succ pass =>
    obtain ⟨b, hb, hbefore, resumeAt, left, hbar⟩ := hdue
    have hcall := (List.of_mem_zip hb).1
    have hle := hlaw.done_for_good e he hdone b.1 hcall (by rw [hbefore]) (by rw [hbefore])
    refine Nat.lt_of_le_of_ne (by simpa [hbefore] using hle) fun hsame => ?_
    -- Otherwise both would be the answer to one invocation.
    have hitem : b.1.itemId = e.1.itemId := by
      rw [hlocated.itemId_eq hcall, hlocated.itemId_eq (List.of_mem_zip he).1, hbefore]
    obtain ⟨i, hi, hanswer⟩ := exists_callsOf_of_answersOf hb hitem
    obtain ⟨j, hj, hanswer'⟩ := exists_callsOf_of_answersOf he rfl
    have hplace := hlaw.pass_eq hlocated hi
    have hplace' := hlaw.pass_eq hlocated hj
    obtain rfl : i = j := by
      rw [← hplace, ← hplace', ← hsame, hbefore]
    obtain ⟨frame, hdone⟩ := hdone
    simp [hanswer, hbar, hdone] at hanswer'

namespace JobLife

section Counts
variable {life : JobLife} {range : NDRange} (hserved : life.Served)
  (hkind : life.command.kind = .ndrange range) (hfits : range.Fits life.arena) {n : Nat}
include hserved hkind hfits

theorem Served.counted (n : Nat) : (life.stage n).Counted fun group => life.passesOver group n := by
  induction n with
  | zero => exact fun _ => rfl
  | succ n ih =>
    have hsound := hserved.sound hkind hfits n
    have hsucc : (fun group => life.passesOver group (n + 1)) =
        (life.stage n).countPass fun group => life.passesOver group n := funext (life.passesOver_succ n)
    rw [hsucc]
    rcases life.next_or_rests n with ⟨arena, job, hstage, hnext⟩ | ⟨hsame, -, hrests⟩
    · rw [hstage] at ih hsound ⊢
      exact ih.step hsound hnext
    · have hquiet : ∀ group, ¬ (life.stage n).beginsPass group = true := by
        intro group hbegins
        obtain ⟨arena, dispatch, -, hstage, -⟩ := exists_of_beginsPass hbegins
        exact hrests arena dispatch hstage
      have hnone : ((life.stage n).countPass fun group => life.passesOver group n) =
          fun group => life.passesOver group n := funext fun group => by simp [JobStage.countPass, hquiet]
      rw [hnone, hsame]
      exact ih

/-- Every invocation is in a pass that has begun. By induction on the turns. -/
theorem Served.called (n : Nat) : ∀ call ∈ (life.trace n).calls,
      call.moment.pass < life.passesOver call.moment.group n := by
  induction n with
  | zero => exact fun call hcall => absurd hcall List.not_mem_nil
  | succ n ih =>
    have hbefore : ∀ call ∈ (life.trace n).calls,
        call.moment.pass < life.passesOver call.moment.group (n + 1) :=
      fun call hcall => (ih call hcall).trans_le (life.passesOver_le_succ n _)
    have hcounted := hserved.counted hkind hfits (n + 1)
    rcases life.next_or_rests n with ⟨arena, job, hstage, hnext⟩ | ⟨-, htrace, -⟩
    · generalize life.trace (n + 1) = trace' at hnext ⊢
      generalize hstage' : life.stage (n + 1) = stage' at hnext hcounted
      cases hnext with
      | invoke step =>
        intro call hcall
        rcases List.mem_append.1 hcall with hcall | hcall
        · exact hbefore call hcall
        · obtain rfl := List.mem_singleton.1 hcall
          exact Nat.lt_of_lt_of_eq (Nat.lt_succ_self _) hcounted.2.symm
      | _ => exact hbefore
    · exact htrace ▸ hbefore

/-- At the start of a pass there is a work-item whose turn in it is due. -/
theorem Served.start {arena : LocalArena} {dispatch : Dispatch} {turn : Turn}
    (hstage : life.stage n = .going arena (.scheduling dispatch)) (hturn : dispatch.stage = .passing turn)
    (hzero : turn.index = 0) :
    dispatch.remaining = dispatch.finished.count false ∧ 0 < dispatch.remaining ∧
    ∃ index < dispatch.perGroup, dispatch.finished.getD index false = false ∧
      index < range.space.localSizes.prod ∧
      (life.trace n).DueIn range.space ⟨dispatch.group, dispatch.pass, index⟩ := by
  have hcounted := hserved.counted hkind hfits n
  have hsound := hserved.sound hkind hfits n
  rw [hstage] at hcounted hsound
  obtain ⟨past, hserves, htracks, htrace⟩ := hsound
  simp only [JobStage.Counted, hturn, hzero, if_true] at hcounted
  simp only [Dispatch.Tracks, hturn] at htracks
  obtain ⟨index, hindex, hopen⟩ := htracks.exists_open hserves.fits hcounted.2.2
  refine ⟨htracks.remaining, hcounted.2.2, index, hindex, hopen, ?_, ?_⟩
  · rwa [← hserves.space, ← hserves.fits.perGroup]
  · rw [htrace, Trace.dueIn_of (by simp), ← hserves.space, ← hserves.fits.perGroup,
      ← hserves.fits.totalGroups]
    simpa [Dispatch.nextMoment, hzero] using (htracks.flags index hindex).1 hopen

/-- Every pass has begun because of a work-item whose turn was due in it. By induction on the turns. -/
theorem Served.due_in_pass (n : Nat) : ∀ group, ∀ pass < life.passesOver group n,
      ∃ index < range.space.localSizes.prod, (life.trace n).DueIn range.space ⟨group, pass, index⟩ := by
  induction n with
  | zero => exact fun group pass hpass => absurd hpass (Nat.not_lt_zero pass)
  | succ n ih =>
    intro group pass hpass
    suffices hdue : ∃ index < range.space.localSizes.prod,
        (life.trace n).DueIn range.space ⟨group, pass, index⟩ by
      obtain ⟨index, hindex, hdue⟩ := hdue
      have hle := Nat.le_add_right n 1
      exact ⟨index, hindex, hdue.mono (life.calls_mono hle) (life.answers_mono hle)⟩
    by_cases hbefore : pass < life.passesOver group n
    · exact ih group pass hbefore
    · rw [passesOver_succ] at hpass
      have hbegins : (life.stage n).beginsPass group = true := by
        by_contra hnot
        simp [hnot] at hpass
        omega
      obtain ⟨arena, dispatch, turn, hstage, hturn, hzero, rfl⟩ := exists_of_beginsPass hbegins
      have hcounted := hserved.counted hkind hfits n
      simp only [hstage, JobStage.Counted, hturn, hzero, if_true] at hcounted
      obtain ⟨-, -, index, -, -, hindex, hdue⟩ := hserved.start hkind hfits hstage hturn hzero
      obtain rfl : pass = dispatch.pass := by
        rw [if_pos hbegins] at hpass
        omega
      exact ⟨index, hindex, hdue⟩

/-! ## Passes and invocations -/

/-- No work-item of a group has had more invocations than there were passes. -/
theorem Served.needed_le (n : Nat) {group : Nat} (hgroup : group < range.space.groupCounts.prod) :
    (life.trace n).needed range.space group ≤ life.passesOver group n := by
  have hlaw := (hserved.sound hkind hfits n).followsBarriers
  have hlocated := (life.run hserved.resolving n).located hkind hfits
  refine Finset.sup_le fun index hindex => ?_
  set item := (range.space.place group index).item
  by_contra hmore
  -- The last invocation of the work-item would be in a pass that has not begun.
  have hlast := List.getElem?_eq_getElem
    (show ((life.trace n).callsOf item).length - 1 < ((life.trace n).callsOf item).length by omega)
  obtain ⟨hcall, hitem⟩ := List.mem_filter.1 (List.mem_of_getElem? hlast)
  obtain ⟨hgroup', hindex'⟩ := hlaw.bounds hcall
  have hplace := IndexSpace.item_place_inj hgroup' hindex' hgroup (List.mem_range.1 hindex)
    ((hlocated.itemId_eq hcall).symm.trans (of_decide_eq_true hitem))
  have hbegun := hserved.called hkind hfits n _ hcall
  rw [hplace.1, hlaw.pass_eq hlocated hlast] at hbegun
  omega

/-- The last pass over a group whose work-items are all done had one of them in it. -/
theorem Served.le_needed (n : Nat) {group : Nat}
    (hdone : ∀ index < range.space.localSizes.prod, ∃ e ∈ (life.trace n).ended,
      e.1.moment.group = group ∧ e.1.moment.index = index ∧ e.2.IsDone) :
    life.passesOver group n ≤ (life.trace n).needed range.space group := by
  have hlaw := (hserved.sound hkind hfits n).followsBarriers
  have hlocated := (life.run hserved.resolving n).located hkind hfits
  rcases Nat.eq_zero_or_pos (life.passesOver group n) with hzero | hpos
  · omega
  obtain ⟨index, hindex, hdue⟩ :=
    hserved.due_in_pass hkind hfits n group (life.passesOver group n - 1) (by omega)
  obtain ⟨e, he, rfl, rfl, hisDone⟩ := hdone index hindex
  have hlast := hlaw.due_le_done hlocated he hisDone hdue
  obtain ⟨place, hplace, -⟩ := Trace.exists_callsOf_of_answersOf he
    (hlocated.itemId_eq (List.of_mem_zip he).1)
  have hlt := (List.getElem?_eq_some_iff.1 hplace).1
  rw [hlaw.pass_eq hlocated hplace] at hlast
  calc life.passesOver e.1.moment.group n
    _ ≤ place + 1 := by omega
    _ ≤ ((life.trace n).callsOf (range.space.place e.1.moment.group e.1.moment.index).item).length := hlt
    _ ≤ (life.trace n).needed range.space e.1.moment.group :=
        Finset.le_sup (f := fun index =>
          ((life.trace n).callsOf (range.space.place e.1.moment.group index).item).length)
          (List.mem_range.2 hindex)

theorem Served.passLaw : life.PassLaw range.space where
  starts n arena dispatch turn hstage hturn hzero := by
    obtain ⟨htrue, hpos, index, hindex, hopen, -⟩ := hserved.start hkind hfits hstage hturn hzero
    have hat : turn.index + index = index := by omega
    exact ⟨htrue, hpos, invokes_in_pass index n dispatch turn hstage hturn (by rwa [hat]) (by rwa [hat])⟩
  counts n arena dispatch turn body hstage := by
    obtain ⟨past, call, hserves, hpassing, hlt, hmoment, hdue, -⟩ :=
      hstage ▸ hserved.sound hkind hfits n
    exact ⟨hpassing.remaining, (hpassing.open_of_due hserves.fits hlt (hmoment ▸ hdue)).2⟩
  passes n group hgroup hdone :=
    Nat.le_antisymm (hserved.le_needed hkind hfits n hdone) (hserved.needed_le hkind hfits n hgroup)

end Counts

end JobLife

/-! ## The pass loop -/

/-- A dispatch that fits its worker comes to an end if each of its work-items finishes, traps or panics
after finitely many invocations, and no fault ever escapes it. Its passes keep to their law: the number of
work-items left is the number of those not marked as finished and never counted below zero, no pass is in
vain, and a group takes exactly as many of them as its most frequently invoked work-item needs. -/
theorem passes_end {life : JobLife} {range : NDRange} (hkind : life.command.kind = .ndrange range)
    (hfits : range.Fits life.arena) (hserved : life.Served) (hitems : life.ItemsEnd) :
    (∃ n ending, life.stage n = .ended ending ∧ (life.trace n).EndsAs range.space ending) ∧
      (∀ n, life.stage n ≠ .broken) ∧ life.PassLaw range.space := by
  refine ⟨?_, fun n hbroken => ?_, hserved.passLaw hkind hfits⟩
  · obtain ⟨n, ending, hended⟩ := hserved.ends hkind hfits (hitems.bounded hserved hkind hfits)
    obtain ⟨-, hends⟩ := hended ▸ hserved.sound hkind hfits n
    exact ⟨n, ending, hended, hends⟩
  · exact (hbroken ▸ hserved.sound hkind hfits n : JobStage.Sound range _ .broken)

/-- A kernel whose work-items come to as many barriers as their place in the group says. -/
def staggered : Kernel where
  name := "staggered"
  invoke item frame :=
    match item.cursor.localLinear with
    | .error fault => .fault fault
    | .ok index =>
      .done (if frame.resume.toNat < index then .barrier (frame.resume + 1) else .done, frame)

/-- One group of three work-items. -/
def staggeredRange : NDRange where
  space := { axes := [{ globalSize := 3, localSize := 3, offset := 0 }] }
  kernel := staggered
  args := []

def staggeredLife : JobLife :=
  .alone { id := ⟨0⟩, kind := .ndrange staggeredRange } default default

/-- The three work-items need one, two and three invocations, and the group takes three passes. -/
theorem passes_end_staggered : staggeredLife.stage 22 = .ended .done ∧
    (List.range 3).map (fun index => ((staggeredLife.trace 22).callsOf ⟨[index], [0]⟩).length) = [1, 2, 3] ∧
    staggeredLife.passesOver 0 22 = 3 ∧ (∀ n, staggeredLife.stage n ≠ .broken) ∧
    staggeredLife.PassLaw staggeredRange.space := by
  have hended : staggeredLife.stage 22 = .ended .done := rfl
  have hfits : staggeredRange.Fits default :=
    ⟨⟨[3], [3], [0], rfl⟩, by decide, by decide, by decide, Nat.zero_le _⟩
  have hserved : staggeredLife.Served := by
    refine ⟨JobLife.alone_resolving rfl (by simp [staggeredRange]), fun n => ⟨22 + n, by omega, ?_⟩⟩
    rintro ⟨arena, job, hstage, -⟩
    rw [(JobLife.stays_over (by simp [hended]) (Nat.le_add_right 22 n)).1, hended] at hstage
    cases hstage
  obtain ⟨-, hunbroken, hlaw⟩ := passes_end rfl hfits hserved (.of_ended hended)
  refine ⟨hended, rfl, ?_, hunbroken, hlaw⟩
  rw [hlaw.passes 22 0 (by decide) (by decide)]
  rfl

end ComputeCore
