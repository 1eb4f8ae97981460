import Mathlib.Data.List.Sort
import Mathlib.Tactic.IntervalCases
import ComputeCore.Proofs.IndexSpace.Visits
import ComputeCore.Proofs.Scheduling.Endings
/-!
# The scheduler and the iterator

The scheduler does not iterate over its index space: it starts every pass over a group from the first
work-item of the group, and counts groups and work-items beside its cursor. `dispatch_covers_visit`
says that it comes to what an iteration visits all the same: a dispatch whose kernel finishes
completes each visited work-item exactly once and invokes no other, and without barriers the
invocations are the visit, item by item.
-/

namespace ComputeCore

/-- A dispatch over an accepted index space whose number of work-items is a size, whose frames make a
possible array, and whose local memory fits the arena. -/
structure NDRange.FitsWhole (range : NDRange) (arena : LocalArena) : Prop where
  accepted : ∃ globals locals offsets, IndexSpace.make globals locals offsets = .ok range.space
  count_fit : (range.space.axes.map Axis.globalSize).prod < Size.limit
  frames_fit : range.space.localSizes.prod * Dispatch.frameWidth ≤ Size.arrayLimit
  args_fit : range.localSize ≤ arena.capacity

instance : Std.Irrefl Moment.Before := ⟨Moment.Before.irrefl⟩

instance : Std.Antisymm Moment.Before :=
  ⟨fun a _ hab hba => absurd (hab.trans hba) (Moment.Before.irrefl a)⟩

instance : DecidablePred Answer.IsDone
  | .returned .done frame => isTrue ⟨frame, rfl⟩
  | .returned (.barrier _) _ => isFalse (by simp [Answer.IsDone])
  | .returned (.trap _) _ => isFalse (by simp [Answer.IsDone])
  | .panicked => isFalse (by simp [Answer.IsDone])

/-- The work-item a call is made for, as the kernel sees it. -/
def Call.itemId (call : Call) : ItemId :=
  call.item.cursor.item

/-- The work-items that are done, in the order in which they came to it. -/
def Trace.completed (trace : Trace) : List ItemId :=
  (trace.ended.filter fun e => e.2.IsDone).map fun e => e.1.itemId

/-- What a dispatch that is over has done about these work-items. -/
structure Trace.Covers (trace : Trace) (items : List ItemId) : Prop where
  /-- Each of them is done, as often as it is there. -/
  completed : trace.completed.Perm items
  invoked : ∀ call ∈ trace.calls, call.itemId ∈ items
  in_order : (∀ answer ∈ trace.answers, ¬ answer.IsBarrier) → trace.calls.map Call.itemId = items

namespace NDRange.FitsWhole

variable {range : NDRange} {arena : LocalArena}

theorem wellFormed (h : range.FitsWhole arena) : range.space.WellFormed := by
  obtain ⟨globals, locals, offsets, hmake⟩ := h.accepted
  exact IndexSpace.make_wellFormed hmake

theorem count_lt (h : range.FitsWhole arena) : range.space.count < Size.limit :=
  h.wellFormed.globalSizes_prod ▸ h.count_fit

theorem fits (h : range.FitsWhole arena) : range.Fits arena where
  accepted := h.accepted
  items_fit := Nat.lt_of_le_of_lt h.wellFormed.localSizes_le_count h.count_lt
  groups_fit := Nat.lt_of_le_of_lt h.wellFormed.groupCounts_le_count h.count_lt
  frames_fit := h.frames_fit
  args_fit := h.args_fit

end NDRange.FitsWhole

/-! ## Where the invocations are -/

/-- The kernel is shown the place of the work-item it is invoked for. -/
def Trace.Located (trace : Trace) (space : IndexSpace) : Prop :=
  ∀ call ∈ trace.calls, call.item.cursor = space.place call.moment.group call.moment.index

theorem Trace.Located.itemId_eq {trace : Trace} {space : IndexSpace} (h : trace.Located space) {call : Call}
    (hcall : call ∈ trace.calls) :
    call.itemId = (space.place call.moment.group call.moment.index).item :=
  congrArg Cursor.item (h call hcall)

theorem JobRun.located {command : Command} {arena : LocalArena} {range : NDRange} {stage : JobStage}
    {trace : Trace} (hkind : command.kind = .ndrange range) (hfits : range.Fits arena)
    (hrun : JobRun Resolving command arena stage trace) : trace.Located range.space := by
  induction hrun with
  | begun => simp [Trace.Located]
  | step hbefore shared hresolves hstep ih =>
    rename_i arena' job trace stage
    have hsound := hbefore.sound hkind hfits
    cases job with
    | fresh | native | binding => exact ih
    | invoking dispatch turn body => cases body <;> exact ih
    | scheduling dispatch =>
      obtain ⟨past, hserves, htracks, rfl⟩ := hsound
      rcases Dispatch.step_cases hserves.fits htracks with
        ⟨next, arena'', hnext, -⟩ | ⟨turn, item, frame, hinvoke, hpassing, hlt, hcursor, -⟩ |
        ⟨hfinished, -⟩
      · simpa [Trace.record, hnext] using ih
      · simp only [Trace.record, hinvoke]
        intro call hcall
        rcases List.mem_append.1 hcall with hcall | hcall
        · exact ih call hcall
        · obtain rfl := List.mem_singleton.1 hcall
          rw [hcursor, hpassing.cursor hlt, hserves.space]
      · simpa [Trace.record, hfinished] using ih

namespace Trace

section Done
variable {trace : Trace} {space : IndexSpace}

/-! ## What is done in the end -/

theorem EndsAs.ended_fst (h : trace.EndsAs space .done) : trace.ended.map Prod.fst = trace.calls :=
  List.map_fst_zip (Nat.le_of_eq h.1.symm)

theorem EndsAs.answered (h : trace.EndsAs space .done) {call : Call} (hcall : call ∈ trace.calls) :
    ∃ answer, (call, answer) ∈ trace.ended ∧ answer.GoesOn := by
  rw [← h.ended_fst] at hcall
  obtain ⟨⟨call, answer⟩, he, rfl⟩ := List.mem_map.1 hcall
  exact ⟨answer, he, h.2.1 answer (List.of_mem_zip he).2⟩

/-- Every work-item is done in the end: otherwise it would have come to a barrier in every pass. -/
theorem EndsAs.item_done (h : trace.EndsAs space .done) {group index : Nat}
    (hgroup : group < space.groupCounts.prod) (hindex : index < space.localSizes.prod) :
    ∃ e ∈ trace.ended, e.1.moment.group = group ∧ e.1.moment.index = index ∧ e.2.IsDone := by
  by_contra hopen
  have hinvoked : ∀ pass, trace.DueIn space ⟨group, pass, index⟩ →
      ∃ e ∈ trace.ended, e.1.moment = ⟨group, pass, index⟩ ∧ e.2.IsBarrier := by
    intro pass hdue
    obtain ⟨call, hcall, hm⟩ := h.2.2 _ hdue
    obtain ⟨answer, he, hdone | hbar⟩ := h.answered hcall
    · exact absurd ⟨_, he, by simp [hm], by simp [hm], hdone⟩ hopen
    · exact ⟨_, he, hm, hbar⟩
  have hdue : ∀ pass, trace.DueIn space ⟨group, pass, index⟩ := by
    intro pass
    induction pass with
    | zero => exact ⟨hgroup, hindex⟩
    | succ pass ih => exact hinvoked pass ih
  obtain ⟨bound, hbound⟩ := exists_pass_bound trace.ended
  obtain ⟨e, he, hm, -⟩ := hinvoked bound (hdue bound)
  have := hbound e he
  simp [hm] at this

/-- No work-item is done twice. -/
theorem FollowsBarriers.done_once (hlaw : trace.FollowsBarriers space)
    (h : trace.EndsAs space .done) : (trace.ended.filter fun e => e.2.IsDone).Pairwise fun a b =>
      ¬ (a.1.moment.group = b.1.moment.group ∧ a.1.moment.index = b.1.moment.index) := by
  have hordered := hlaw.ordered
  rw [← h.ended_fst, List.pairwise_map] at hordered
  refine (hordered.sublist List.filter_sublist).imp_of_mem fun {a b} ha hb hbefore hsame => ?_
  obtain ⟨hin, hdone⟩ := List.mem_filter.1 ha
  have hcall : b.1 ∈ trace.calls := (List.of_mem_zip (List.mem_filter.1 hb).1).1
  have hpass := hlaw.done_for_good a hin (of_decide_eq_true hdone) b.1 hcall hsame.1.symm hsame.2.symm
  unfold Moment.Before at hbefore
  omega

/-- Without barriers the invocations are one turn for each work-item, in linear order. -/
theorem FollowsBarriers.moments_eq (hlaw : trace.FollowsBarriers space)
    (h : trace.EndsAs space .done) (hpos : 0 < space.localSizes.prod)
    (hno : ∀ answer ∈ trace.answers, ¬ answer.IsBarrier) :
    trace.calls.map Call.moment = (List.range space.count).map fun n =>
      ⟨n / space.localSizes.prod, 0, n % space.localSizes.prod⟩ := by
  have hfirst : ∀ m : Moment, trace.DueIn space m → m.pass = 0 := by
    rintro ⟨group, pass, index⟩ hdue
    cases pass with
    | zero => rfl
    | succ pass =>
      obtain ⟨e, he, -, hbar⟩ := hdue
      exact absurd hbar (hno e.2 (List.of_mem_zip he).2)
  have hordered : (trace.calls.map Call.moment).Pairwise Moment.Before :=
    List.pairwise_map.2 hlaw.ordered
  have hlinear : ((List.range space.count).map fun n =>
      (⟨n / space.localSizes.prod, 0, n % space.localSizes.prod⟩ : Moment)).Pairwise
        Moment.Before := by
    refine List.pairwise_map.2 (List.pairwise_lt_range.imp fun {a b} hab => ?_)
    rcases Nat.lt_or_eq_of_le (Nat.div_le_div_right (c := space.localSizes.prod) hab.le) with
      hlt | heq
    · exact .inl hlt
    · have ha := Nat.div_add_mod a space.localSizes.prod
      have hb := Nat.div_add_mod b space.localSizes.prod
      rw [heq] at ha
      exact .inr ⟨heq, .inr ⟨rfl, by simp only; omega⟩⟩
  -- Both are in the order of moments, so they are equal once they have the same members.
  refine List.Pairwise.eq_of_mem_iff hordered hlinear fun m => ⟨fun hm => ?_, fun hm => ?_⟩
  · obtain ⟨call, hcall, rfl⟩ := List.mem_map.1 hm
    obtain ⟨hgroup, hindex⟩ := hlaw.bounds hcall
    refine List.mem_map.2 ⟨call.moment.group * space.localSizes.prod + call.moment.index,
      List.mem_range.2 (IndexSpace.linear_lt_count hgroup hindex), ?_⟩
    rw [linear_div hindex, Nat.mul_add_mod_of_lt hindex, ← hfirst _ (hlaw.due call hcall)]
  · obtain ⟨n, hn, rfl⟩ := List.mem_map.1 hm
    have hdue : trace.DueIn space ⟨n / space.localSizes.prod, 0, n % space.localSizes.prod⟩ :=
      ⟨Nat.div_lt_of_lt_mul (Nat.mul_comm _ _ ▸ List.mem_range.1 hn), Nat.mod_lt _ hpos⟩
    obtain ⟨call, hcall, hm⟩ := h.2.2 _ hdue
    exact List.mem_map.2 ⟨call, hcall, hm⟩

/-- A dispatch that is done, and has shown its kernel the right places, covers the items of its
space. -/
theorem FollowsBarriers.covers (hlaw : trace.FollowsBarriers space) (h : trace.EndsAs space .done)
    (hspace : space.WellFormed) (hlocated : trace.Located space) : trace.Covers space.items := by
  have hinvoked : ∀ call ∈ trace.calls, call.itemId ∈ space.items := by
    intro call hcall
    obtain ⟨hgroup, hindex⟩ := hlaw.bounds hcall
    exact IndexSpace.mem_items.2 ⟨_, hgroup, _, hindex, (hlocated.itemId_eq hcall).symm⟩
  have hcalled : ∀ e ∈ trace.ended.filter fun e => e.2.IsDone, e.1 ∈ trace.calls :=
    fun e he => (List.of_mem_zip (List.mem_filter.1 he).1).1
  refine ⟨?_, hinvoked, fun hno => ?_⟩
  · have hnodup : trace.completed.Nodup := by
      refine List.pairwise_map.2 ((hlaw.done_once h).imp_of_mem fun {a b} ha hb hother hsame => ?_)
      obtain ⟨hgroup, hindex⟩ := hlaw.bounds (hcalled a ha)
      obtain ⟨hgroup', hindex'⟩ := hlaw.bounds (hcalled b hb)
      rw [hlocated.itemId_eq (hcalled a ha), hlocated.itemId_eq (hcalled b hb)] at hsame
      exact hother (IndexSpace.item_place_inj hgroup hindex hgroup' hindex' hsame)
    -- Neither list has anything twice, so they are permutations once they have the same members.
    refine (List.perm_ext_iff_of_nodup hnodup (IndexSpace.items_nodup space)).2
      fun item => ⟨fun hin => ?_, fun hin => ?_⟩
    · obtain ⟨e, he, rfl⟩ := List.mem_map.1 hin
      exact hinvoked _ (hcalled e he)
    · obtain ⟨group, hgroup, index, hindex, rfl⟩ := IndexSpace.mem_items.1 hin
      obtain ⟨e, he, rfl, rfl, hdone⟩ := h.item_done hgroup hindex
      exact List.mem_map.2 ⟨e, List.mem_filter.2 ⟨he, decide_eq_true hdone⟩,
        hlocated.itemId_eq (List.of_mem_zip he).1⟩
  · have hitems : trace.calls.map Call.itemId =
        (trace.calls.map Call.moment).map fun m => (space.place m.group m.index).item := by
      rw [List.map_map]
      exact List.map_congr_left fun call => hlocated.itemId_eq
    rw [hitems, hlaw.moments_eq h hspace.localSizes_prod_pos hno, List.map_map]
    rfl

end Done

end Trace

/-! ## A whole dispatch -/

/-- A dispatch whose kernel finishes every work-item is carried out to its end, and does there what an
iteration over its index space visits: each visited work-item is done exactly once, no other one is
invoked, and without barriers the invocations are the visit itself. -/
theorem dispatch_covers_visit {life : JobLife} {range : NDRange}
    (hkind : life.command.kind = .ndrange range) (hfits : range.FitsWhole life.arena)
    (hserved : life.Served) (hfinishes : life.Finishes) :
    ∃ n items, life.stage n = .ended .done ∧ range.space.first.Visits items ∧ items.Nodup ∧
      (life.trace n).Covers items := by
  obtain ⟨n, hend⟩ := hfinishes.ends hserved hkind hfits.fits
  have hrun := life.run hserved.resolving n
  have hsound := hrun.sound hkind hfits.fits
  rw [hend] at hsound
  obtain ⟨hlaw, hends⟩ := hsound
  exact ⟨n, range.space.items, hend, IndexSpace.first_visits hfits.wellFormed hfits.count_lt,
    IndexSpace.items_nodup range.space,
    hlaw.covers hends hfits.wellFormed (hrun.located hkind hfits.fits)⟩

/-- `pairCommand` on a worker nobody disturbs. -/
def pairLife : JobLife where
  command := pairCommand
  arena := default
  world _ := default

/-- It is over after fifteen turns. -/
theorem pairLife_over (n : Nat) : pairLife.state (15 + n) = pairLife.state 15 := by
  induction n with
  | zero => rfl
  | succ n ih =>
    rw [← Nat.add_assoc, JobLife.state, ih]
    rfl

theorem pairLife_forall {P : JobStage × Trace → Prop} (h : ∀ n ≤ 15, P (pairLife.state n)) (n : Nat) :
    P (pairLife.state n) := by
  by_cases hn : n ≤ 15
  · exact h n hn
  · obtain ⟨more, rfl⟩ := Nat.exists_eq_add_of_le (Nat.le_of_not_le hn)
    exact pairLife_over more ▸ h 15 (Nat.le_refl 15)

theorem dispatch_covers_visit_pair : ∃ n items, pairLife.stage n = .ended .done ∧
    pairRange.space.first.Visits items ∧ items.Nodup ∧ (pairLife.trace n).Covers items := by
  have hresolving : ∀ n, ∀ arena job, pairLife.stage n = .going arena job →
      Resolving job default := by
    refine pairLife_forall (P := fun state => ∀ arena job, state.1 = .going arena job →
      Resolving job default) fun n hn => ?_
    interval_cases n <;> rintro _ _ ⟨⟩ <;> trivial
  have hgoing : ∀ n, ∀ answer ∈ (pairLife.trace n).answers, answer.GoesOn := by
    simp only [Answer.goesOn_iff]
    refine pairLife_forall (P := fun state => ∀ answer ∈ state.2.answers, answer.status? = none)
      fun n hn => ?_
    interval_cases n <;> decide
  have hfinite : ∀ n, ∀ call ∈ (pairLife.trace n).calls, call.moment.pass < 2 := by
    refine pairLife_forall (P := fun state => ∀ call ∈ state.2.calls, call.moment.pass < 2)
      fun n hn => ?_
    interval_cases n <;> decide
  have hover : ∀ n, ¬ pairLife.Waits (15 + n) := by
    rintro n ⟨arena, job, hstage, -⟩
    have hend : pairLife.stage (15 + n) = .ended .done := congrArg Prod.fst (pairLife_over n)
    simp [hend] at hstage
  exact dispatch_covers_visit rfl
    ⟨⟨[2], [2], [0], rfl⟩, by decide, by decide, Nat.zero_le _⟩
    ⟨hresolving, fun n => ⟨15 + n, by omega, hover n⟩⟩
    ⟨hgoing, fun _ _ => ⟨2, fun n call hcall _ _ => hfinite n call hcall⟩⟩

end ComputeCore
