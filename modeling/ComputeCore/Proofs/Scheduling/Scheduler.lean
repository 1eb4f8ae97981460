import ComputeCore.Proofs.IndexSpace.Places
import ComputeCore.Proofs.Memory.Arena
import ComputeCore.Proofs.Scheduling.Frontier
/-!
# The scheduler of a dispatch

The scheduler stands at the frontier of what has ended: `Dispatch.Tracks` ties its cursor, its place
in the group and its records of what is finished to the history. Each of its steps moves the frontier
on, and it invokes the kernel only when the invocation is due (`Dispatch.step_cases`); so does each
answer it takes in (`Dispatch.Passing.accept`).
-/

namespace ComputeCore

/-! ## Frames that are started over -/

namespace Frame

theorem reset_eq (frame : Frame) : frame.reset = {} :=
  rfl

/-- However they were left, they are fresh. -/
theorem resetAll_eq (frames : Array Frame) : resetAll frames = Array.replicate frames.size {} := by
  have hreset : reset = fun _ => {} := funext reset_eq
  rw [resetAll, hreset, List.map_const', Array.length_toList, List.toArray_replicate]

end Frame

namespace Dispatch

/-! ## Where the scheduler stands -/

/-- What no step of a dispatch changes: its parts agree with its index space, its groups fit the arena,
and it has a frame and a mark for each work-item of a group. -/
structure Fits (dispatch : Dispatch) (arena : LocalArena) : Prop where
  space : dispatch.space.WellFormed
  perGroup : dispatch.perGroup = dispatch.space.localSizes.prod
  totalGroups : dispatch.totalGroups = dispatch.space.groupCounts.prod
  perGroup_lt : dispatch.perGroup < Size.limit
  totalGroups_lt : dispatch.totalGroups < Size.limit
  args : dispatch.kernel.staticLocal + (dispatch.params.map KernelArg.localSize).sum ≤ arena.capacity
  frames : dispatch.frames.size = dispatch.perGroup
  finished : dispatch.finished.size = dispatch.perGroup

/-- The moment of a work-item's next turn in the current group, when a pass has come to `turn`. -/
def nextMoment (dispatch : Dispatch) (turn : Turn) (index : Nat) : Moment :=
  ⟨dispatch.group, if index < turn.index then dispatch.pass + 1 else dispatch.pass, index⟩

/-- A pass over a group has come to `turn`. What links the scheduler's own records to the history
is `flags` and `frames`: a work-item is not marked as finished exactly if its next turn is due, and
the frame it keeps until then is at its place. -/
structure Passing (dispatch : Dispatch) (past : List (Call × Answer)) (turn : Turn) : Prop where
  group_lt : dispatch.group < dispatch.totalGroups
  index_le : turn.index ≤ dispatch.perGroup
  frontier : Frontier dispatch.perGroup dispatch.totalGroups past
    ⟨dispatch.group, dispatch.pass, turn.index⟩
  flags : ∀ index < dispatch.perGroup, dispatch.finished.getD index false = false ↔
    Due dispatch.perGroup dispatch.totalGroups past (dispatch.nextMoment turn index)
  frames : ∀ index < dispatch.perGroup, dispatch.finished.getD index false = false →
    Kept past (dispatch.nextMoment turn index) (dispatch.frames.getD index {})
  remaining : dispatch.remaining = dispatch.finished.count false
  start : dispatch.start = dispatch.space.place dispatch.group 0
  cursor : turn.index < dispatch.perGroup →
    turn.cursor = dispatch.space.place dispatch.group turn.index

/-- The scheduler stands at the frontier of the history. -/
def Tracks (dispatch : Dispatch) (past : List (Call × Answer)) : Prop :=
  match dispatch.stage with
  | .entering => Frontier dispatch.perGroup dispatch.totalGroups past ⟨dispatch.group, 0, 0⟩
  | .passing turn => dispatch.Passing past turn

section Steps
variable {dispatch : Dispatch} {arena : LocalArena} {past : List (Call × Answer)} {turn : Turn}

/-! ## Setting up a group -/

theorem carve_ok (params : List KernelArg) (args : List BoundArg) (arena : LocalArena)
    (h : arena.used + (params.map KernelArg.localSize).sum ≤ arena.capacity) :
    ∃ args' arena', carve params args arena = .ok (args', arena') ∧
      arena'.capacity = arena.capacity := by
  induction params generalizing args arena with
  | nil => exact ⟨args, arena, by simp [carve], rfl⟩
  | cons param params ih =>
    rw [List.map_cons, List.sum_cons] at h
    cases args with
    | nil => exact ⟨[], arena, by cases param <;> simp [carve], rfl⟩
    | cons arg args =>
      cases param with
      | localBytes size =>
        simp only [KernelArg.localSize] at h
        have halloc := @LocalArena.alloc_of_fits arena size (by omega)
        obtain ⟨rest, arena', hrest, hcap⟩ :=
          ih args { arena with used := arena.used + size } (by simp only; omega)
        exact ⟨.localRegion { start := arena.base.advance arena.used, size } :: rest, arena',
          by simp [carve, halloc, hrest, bind, Except.bind, pure, Except.pure], hcap⟩
      | object | value =>
        simp only [KernelArg.localSize] at h
        obtain ⟨rest, arena', hrest, hcap⟩ := ih args arena (by omega)
        exact ⟨arg :: rest, arena', by simp [carve, hrest, bind, Except.bind, pure, Except.pure], hcap⟩

theorem enterGroup_ok (hfits : dispatch.Fits arena) (hgroup : dispatch.group < dispatch.totalGroups) :
    ∃ args arena', dispatch.enterGroup arena = .ok ({ dispatch with
        args
        start := dispatch.space.place dispatch.group 0
        pass := 0
        frames := Frame.resetAll dispatch.frames
        finished := Array.replicate dispatch.finished.size false
        remaining := dispatch.perGroup
        stage := .passing { cursor := dispatch.space.place dispatch.group 0, index := 0 } }, arena') ∧
      arena'.capacity = arena.capacity := by
  have hstart := IndexSpace.groupStart_eq hfits.space (hfits.totalGroups ▸ hfits.totalGroups_lt)
    (hfits.totalGroups ▸ hgroup)
  have hstatic := @LocalArena.reset_of_fits arena dispatch.kernel.staticLocal (Nat.le_of_add_right_le hfits.args)
  obtain ⟨args, arena', hcarve, hcap⟩ := carve_ok dispatch.params dispatch.args
    { arena with used := dispatch.kernel.staticLocal } hfits.args
  refine ⟨args, arena', ?_, hcap⟩
  simp only [enterGroup, hstart, hstatic, bind, Except.bind, hcarve]
  rfl

/-! ## One step -/

theorem Tracks.enter (hfits : dispatch.Fits arena) (hstage : dispatch.stage = .entering)
    (h : dispatch.Tracks past) (hgroup : dispatch.group < dispatch.totalGroups) :
    ∃ next arena', dispatch.enterGroup arena = .ok (next, arena') ∧ next.Fits arena' ∧
      next.Tracks past ∧ next.space = dispatch.space := by
  simp only [Tracks, hstage] at h
  obtain ⟨args, arena', henter, hcap⟩ := enterGroup_ok hfits hgroup
  rw [Frame.resetAll_eq, hfits.frames, hfits.finished] at henter
  refine ⟨_, arena', henter, { hfits with
    args := hcap ▸ hfits.args
    frames := Array.size_replicate
    finished := Array.size_replicate }, ?_, rfl⟩
  refine ⟨hgroup, Nat.zero_le _, h, ?_, ?_, by simp, rfl, fun _ => rfl⟩
  · intro index hindex
    simpa [nextMoment, Due, hindex] using hgroup
  · intro index hindex _
    simp [nextMoment, Kept, hindex]

/-- Going on to the next work-item changes the next moment of the one passed only. -/
theorem nextMoment_next {next : Dispatch} (hgroup : next.group = dispatch.group)
    (hpass : next.pass = dispatch.pass) {index : Nat} (hne : index ≠ turn.index) :
    next.nextMoment turn.next index = dispatch.nextMoment turn index := by
  have hnext : index < turn.index + 1 ↔ index < turn.index := by omega
  simp [nextMoment, Turn.next, hnext, hgroup, hpass]

theorem Passing.cursor_next (hfits : dispatch.Fits arena) (h : dispatch.Passing past turn)
    (hnext : turn.index + 1 < dispatch.perGroup) :
    turn.next.cursor = dispatch.space.place dispatch.group (turn.index + 1) := by
  show turn.cursor.advance 1 = _
  rw [h.cursor (by omega), IndexSpace.advance_place hfits.space _ (hfits.perGroup ▸ hnext)
    (hfits.perGroup ▸ hfits.perGroup_lt)]

/-- A work-item has no turn in the next pass before it has had the one in this. -/
theorem Passing.not_due_next (h : dispatch.Passing past turn) :
    ¬ Due dispatch.perGroup dispatch.totalGroups past
      ⟨dispatch.group, dispatch.pass + 1, turn.index⟩ :=
  h.frontier.not_due_later (Nat.succ_pos _) (Moment.Before.irrefl _)

/-- Past a finished work-item: its next turn is not due, and neither is this one. -/
theorem Passing.skip (hfits : dispatch.Fits arena) (h : dispatch.Passing past turn)
    (hlt : turn.index < dispatch.perGroup) (hdone : dispatch.finished.getD turn.index false = true) :
    Passing { dispatch with stage := .passing turn.next } past turn.next := by
  have hnot : ¬ Due dispatch.perGroup dispatch.totalGroups past
      ⟨dispatch.group, dispatch.pass, turn.index⟩ := by
    have := h.flags turn.index hlt
    simpa [nextMoment, hdone] using this
  have hother : ∀ index, index ≠ turn.index →
      nextMoment { dispatch with stage := .passing turn.next } turn.next index =
        dispatch.nextMoment turn index := fun _ => nextMoment_next rfl rfl
  have hcursor := h.cursor_next hfits
  refine { h with index_le := hlt, frontier := ?_, flags := ?_, frames := ?_, cursor := hcursor }
  · refine h.frontier.skip (Moment.before_succ_iff.2 (.inr rfl)) fun m hm hm' => ?_
    rcases Moment.before_succ_iff.1 hm' with hb | rfl
    · exact absurd hb hm
    · exact hnot
  · intro index hindex
    by_cases heq : index = turn.index
    · subst heq
      simpa [nextMoment, hdone, Turn.next] using h.not_due_next
    · rw [hother index heq]
      exact h.flags index hindex
  · intro index hindex hopen
    have heq : index ≠ turn.index := by
      rintro rfl
      simp [hdone] at hopen
    rw [hother index heq]
    exact h.frames index hindex hopen

/-- From the end of a pass to the start of the next one. -/
theorem Passing.nextPass (h : dispatch.Passing past turn) (hend : ¬ turn.index < dispatch.perGroup) :
    Passing { dispatch with
        pass := dispatch.pass + 1, stage := .passing { cursor := dispatch.start, index := 0 } }
      past { cursor := dispatch.start, index := 0 } := by
  have hindex : turn.index = dispatch.perGroup := by have := h.index_le; omega
  refine { h with
    index_le := Nat.zero_le _, frontier := ?_, flags := ?_, frames := ?_, cursor := fun _ => h.start }
  · -- Between the two moments lie only places past the end of the group.
    refine h.frontier.skip (by simp [Moment.Before]) fun m hm hm' hdue => ?_
    have := (h.frontier.due_bounds hdue).2
    simp only [Moment.Before] at hm hm'
    omega
  · intro index hlt
    simpa [nextMoment, hindex, hlt] using h.flags index hlt
  · intro index hlt hopen
    simpa [nextMoment, hindex, hlt] using h.frames index hlt hopen

/-- From the end of the last pass over a group to the next group: nobody stands at a barrier, so
nothing more is due in this one. -/
theorem Passing.leave (hfits : dispatch.Fits arena) (h : dispatch.Passing past turn)
    (hend : ¬ turn.index < dispatch.perGroup)
    (hremaining : dispatch.remaining = 0) :
    Tracks { dispatch with group := dispatch.group + 1, stage := .entering } past := by
  have hindex : turn.index = dispatch.perGroup := by have := h.index_le; omega
  have hfinished : ∀ index < dispatch.perGroup, dispatch.finished.getD index false ≠ false := by
    intro index hlt
    have hcount : false ∉ dispatch.finished := Array.count_eq_zero.1 (h.remaining ▸ hremaining)
    rw [← hfits.finished] at hlt
    rw [Array.getD_eq_getD_getElem?, Array.getElem?_eq_getElem hlt, Option.getD_some]
    intro hf
    exact hcount (hf ▸ Array.getElem_mem hlt)
  refine h.frontier.skip (by simp [Moment.Before]) fun m hm hm' hdue => ?_
  have hlt := (h.frontier.due_bounds hdue).2
  obtain ⟨group, pass, index⟩ := m
  simp only [Moment.Before] at hm hm' hlt
  obtain rfl : group = dispatch.group := by omega
  -- The next pass is due only for those at a barrier, and the passes after it for nobody yet.
  by_cases hpass : pass = dispatch.pass + 1
  · subst hpass
    exact hfinished index hlt ((h.flags index hlt).2 (by simpa [nextMoment, hindex, hlt] using hdue))
  · refine h.frontier.not_due_later (by simp only; omega) ?_ hdue
    simp only [Moment.Before]
    omega

theorem Passing.shown (hfits : dispatch.Fits arena) (h : dispatch.Passing past turn)
    (hlt : turn.index < dispatch.perGroup) :
    turn.cursor.groupLinear = .ok dispatch.group ∧ turn.cursor.localLinear = .ok turn.index := by
  rw [h.cursor hlt]
  exact ⟨IndexSpace.groupLinear_place _ _ (hfits.totalGroups ▸ h.group_lt)
      (hfits.totalGroups ▸ hfits.totalGroups_lt),
    IndexSpace.localLinear_place _ _ (hfits.perGroup ▸ hlt) (hfits.perGroup ▸ hfits.perGroup_lt)⟩

/-- All that a step of the scheduler can come to. It stays at the frontier, invokes the kernel only
when the invocation is due, and finishes only when nothing more is. -/
theorem step_cases (hfits : dispatch.Fits arena) (h : dispatch.Tracks past) :
    (∃ next arena', dispatch.step arena = .ok (.moved next arena') ∧ next.Fits arena' ∧
      next.Tracks past ∧ next.space = dispatch.space) ∨
    (∃ turn item frame, dispatch.step arena = .ok (.invoke turn item frame) ∧
      dispatch.Passing past turn ∧ turn.index < dispatch.perGroup ∧ item.cursor = turn.cursor ∧
      Due dispatch.perGroup dispatch.totalGroups past ⟨dispatch.group, dispatch.pass, turn.index⟩ ∧
      Kept past ⟨dispatch.group, dispatch.pass, turn.index⟩ frame) ∨
    (dispatch.step arena = .ok .finished ∧
      Frontier dispatch.perGroup dispatch.totalGroups past ⟨dispatch.group, 0, 0⟩ ∧
      dispatch.totalGroups ≤ dispatch.group) := by
  cases hstage : dispatch.stage with
  | entering =>
    by_cases hgroup : dispatch.group < dispatch.totalGroups
    · obtain ⟨next, arena', henter, hnext⟩ := Tracks.enter hfits hstage h hgroup
      refine .inl ⟨next, arena', ?_, hnext⟩
      simp [step, hstage, hgroup, henter, bind, Except.bind, pure, Except.pure]
    · simp only [Tracks, hstage] at h
      exact .inr (.inr ⟨by simp [step, hstage, hgroup], h, Nat.not_lt.1 hgroup⟩)
  | passing turn =>
    simp only [Tracks, hstage] at h
    by_cases hlt : turn.index < dispatch.perGroup
    · cases hflag : dispatch.finished.getD turn.index false with
      | true =>
        refine .inl ⟨{ dispatch with stage := .passing turn.next }, arena, ?_, { hfits with },
          h.skip hfits hlt hflag, rfl⟩
        simp only [step, hstage, if_pos hlt, if_pos hflag]
      | false =>
        refine .inr (.inl ⟨turn, _, _, by simp only [step, hstage, if_pos hlt, hflag]; rfl, h, hlt, rfl,
          ?_, ?_⟩)
        · simpa [nextMoment] using (h.flags turn.index hlt).1 hflag
        · simpa [nextMoment] using h.frames turn.index hlt hflag
    · by_cases hrem : 0 < dispatch.remaining
      · let first : Turn := { cursor := dispatch.start, index := 0 }
        refine .inl ⟨{ dispatch with pass := dispatch.pass + 1, stage := .passing first }, arena, ?_,
          { hfits with }, h.nextPass hlt, rfl⟩
        simp only [step, hstage, if_neg hlt, if_pos hrem, first]
      · refine .inl ⟨{ dispatch with group := dispatch.group + 1, stage := .entering }, arena, ?_,
          { hfits with }, h.leave hfits hlt (by omega), rfl⟩
        simp only [step, hstage, if_neg hlt, if_neg hrem]

/-! ## Taking in an answer -/

/-- Where the scheduler stands after a turn, for the new records of what is finished. -/
theorem Passing.answered (hfits : dispatch.Fits arena) (h : dispatch.Passing past turn)
    (hlt : turn.index < dispatch.perGroup) {e : Call × Answer}
    (hdue : Due dispatch.perGroup dispatch.totalGroups past
      ⟨dispatch.group, dispatch.pass, turn.index⟩)
    (hm : e.1.moment = ⟨dispatch.group, dispatch.pass, turn.index⟩) (hgoing : e.2.GoesOn)
    {next : Dispatch} (hfixed : next.space = dispatch.space ∧ next.perGroup = dispatch.perGroup ∧
      next.totalGroups = dispatch.totalGroups ∧ next.group = dispatch.group ∧
      next.pass = dispatch.pass ∧ next.start = dispatch.start)
    (hremaining : next.remaining = next.finished.count false)
    (hself : next.finished.getD turn.index false = false ↔ e.2.IsBarrier)
    (hframe : e.2.IsBarrier → Kept (past ++ [e])
      ⟨dispatch.group, dispatch.pass + 1, turn.index⟩ (next.frames.getD turn.index {}))
    (hother : ∀ index, index ≠ turn.index →
      next.finished.getD index false = dispatch.finished.getD index false ∧
      next.frames.getD index {} = dispatch.frames.getD index {}) :
    next.Passing (past ++ [e]) turn.next := by
  obtain ⟨hspace, hper, htotal, hgroup, hpass, hstart⟩ := hfixed
  have hmoment : ∀ index, index ≠ turn.index →
      next.nextMoment turn.next index = dispatch.nextMoment turn index :=
    fun _ => nextMoment_next hgroup hpass
  have hmoment' : next.nextMoment turn.next turn.index =
      ⟨dispatch.group, dispatch.pass + 1, turn.index⟩ := by
    simp [nextMoment, Turn.next, hgroup, hpass]
  refine ⟨by rw [hgroup, htotal]; exact h.group_lt, by rw [hper]; exact hlt, ?_, ?_, ?_, hremaining,
    by rw [hstart, hspace, hgroup]; exact h.start, ?_⟩
  · rw [hper, htotal, hgroup, hpass]
    exact h.frontier.invoke hdue hm hgoing
  · intro index hindex
    rw [hper] at hindex
    rw [hper, htotal, due_append, hm]
    by_cases heq : index = turn.index
    · -- Its next turn is due now exactly if it has come to a barrier.
      subst heq
      simpa [hmoment', h.not_due_next] using hself
    · rw [(hother index heq).1, hmoment index heq]
      simpa [nextMoment, heq] using h.flags index hindex
  · intro index hindex hopen
    rw [hper] at hindex
    by_cases heq : index = turn.index
    · subst heq
      exact hmoment' ▸ hframe (hself.1 hopen)
    · obtain ⟨hfinished, hkept⟩ := hother index heq
      rw [hkept, hmoment index heq]
      exact (h.frames index hindex (hfinished ▸ hopen)).append [e]
  · intro hnext
    rw [hper] at hnext
    rw [hspace, hgroup]
    exact h.cursor_next hfits hnext

/-- While work-items are left, one of them is not marked as finished. -/
theorem Passing.exists_open (hfits : dispatch.Fits arena) (h : dispatch.Passing past turn)
    (hremaining : 0 < dispatch.remaining) :
    ∃ index < dispatch.perGroup, dispatch.finished.getD index false = false := by
  rw [h.remaining] at hremaining
  obtain ⟨index, hindex, hopen⟩ := Array.getElem_of_mem (Array.count_pos_iff.1 hremaining)
  exact ⟨index, hfits.finished ▸ hindex, by simp [hindex, hopen]⟩

/-- A work-item whose invocation is due is left, and not marked as finished. -/
theorem Passing.open_of_due (hfits : dispatch.Fits arena) (h : dispatch.Passing past turn)
    (hlt : turn.index < dispatch.perGroup)
    (hdue : Due dispatch.perGroup dispatch.totalGroups past
      ⟨dispatch.group, dispatch.pass, turn.index⟩) :
    dispatch.finished.getD turn.index false = false ∧ 0 < dispatch.remaining := by
  have hbound : turn.index < dispatch.finished.size := hfits.finished ▸ hlt
  have hopen := (h.flags turn.index hlt).2 (by simpa [nextMoment] using hdue)
  have hget : dispatch.finished[turn.index] = false := by simpa [hbound] using hopen
  refine ⟨hopen, ?_⟩
  rw [h.remaining]
  exact Array.count_pos_iff.2 (hget ▸ Array.getElem_mem hbound)

/-- A due invocation that ends with `done` or at a barrier moves the scheduler on. -/
theorem Passing.accept (hfits : dispatch.Fits arena) (h : dispatch.Passing past turn)
    (hlt : turn.index < dispatch.perGroup)
    (hdue : Due dispatch.perGroup dispatch.totalGroups past
      ⟨dispatch.group, dispatch.pass, turn.index⟩)
    {call : Call} (hm : call.moment = ⟨dispatch.group, dispatch.pass, turn.index⟩)
    (outcome : Outcome) (frame : Frame) (htrap : ∀ status, outcome ≠ .trap status) :
    ∃ next, dispatch.accept turn outcome frame = .ok (.goOn next) ∧ next.Fits arena ∧
      next.Tracks (past ++ [(call, .returned outcome frame)]) ∧ next.space = dispatch.space := by
  have hbound : turn.index < dispatch.finished.size := hfits.finished ▸ hlt
  obtain ⟨hopen, hpos⟩ := h.open_of_due hfits hlt hdue
  have hget : dispatch.finished[turn.index] = false := by simpa [hbound] using hopen
  cases outcome with
  | trap status => exact absurd rfl (htrap status)
  | barrier resumeAt =>
    have hplace : turn.index < dispatch.frames.size := hfits.frames ▸ hlt
    refine ⟨{ dispatch with
      frames := dispatch.frames.setIfInBounds turn.index { frame with resume := resumeAt }
      stage := .passing turn.next }, rfl,
      { hfits with frames := Array.size_setIfInBounds.trans hfits.frames }, ?_, rfl⟩
    refine h.answered (e := (call, .returned (.barrier resumeAt) frame)) hfits hlt hdue hm
      (.inr ⟨resumeAt, frame, rfl⟩) ⟨rfl, rfl, rfl, rfl, rfl, rfl⟩ h.remaining
      (by simp [hopen, Answer.IsBarrier]) ?_ ?_
    · intro _
      exact ⟨(call, .returned (.barrier resumeAt) frame), by simp, hm, resumeAt, frame, rfl,
        by simp [hplace]⟩
    · intro index hne
      simp [Array.getElem?_setIfInBounds_ne (Ne.symm hne)]
  | done =>
    have hcount : (dispatch.finished.setIfInBounds turn.index true).count false =
        dispatch.finished.count false - 1 := by
      rw [Array.setIfInBounds, dif_pos hbound, Array.count_set hbound]
      simp [hget]
    have hsub : 1 ≤ dispatch.remaining := hpos
    refine ⟨{ dispatch with
      remaining := dispatch.remaining - 1
      frames := dispatch.frames.setIfInBounds turn.index frame
      finished := dispatch.finished.setIfInBounds turn.index true
      stage := .passing turn.next }, ?_, { hfits with
        frames := Array.size_setIfInBounds.trans hfits.frames
        finished := Array.size_setIfInBounds.trans hfits.finished }, ?_, rfl⟩
    · simp [Dispatch.accept, Size.sub, hsub, bind, Except.bind, pure, Except.pure]
    · refine h.answered (e := (call, .returned .done frame)) hfits hlt hdue hm (.inl ⟨frame, rfl⟩)
        ⟨rfl, rfl, rfl, rfl, rfl, rfl⟩ (by simp only [hcount, h.remaining]) ?_
        (by simp [Answer.IsBarrier]) ?_
      · simp [hbound, Answer.IsBarrier]
      · intro index hne
        simp [Array.getElem?_setIfInBounds_ne (Ne.symm hne)]

/-- A dispatch that fits the arena can be created, and has nothing behind it. -/
theorem create_ok {range : NDRange} (h : range.Fits arena) (args : List BoundArg) :
    ∃ dispatch, Dispatch.create range args = .ok dispatch ∧ dispatch.Fits arena ∧
      dispatch.space = range.space ∧ dispatch.Tracks [] := by
  obtain ⟨globals, locals, offsets, hmake⟩ := h.accepted
  have hspace := IndexSpace.make_wellFormed hmake
  refine ⟨{
    space := range.space, kernel := range.kernel, params := range.args, args
    perGroup := range.space.localSizes.prod, totalGroups := range.space.groupCounts.prod
    start := range.space.first
    frames := Array.replicate range.space.localSizes.prod {}
    finished := Array.replicate range.space.localSizes.prod false }, ?_, ?_, rfl, Frontier.start⟩
  · simp [Dispatch.create, hspace.itemsPerGroup_eq h.items_fit, hspace.totalGroups_eq h.groups_fit,
      Size.fitsArray, h.frames_fit, bind, Except.bind, pure, Except.pure]
  · exact ⟨hspace, rfl, rfl, h.items_fit, h.groups_fit, h.args_fit, Array.size_replicate, Array.size_replicate⟩

end Steps

end Dispatch

end ComputeCore
