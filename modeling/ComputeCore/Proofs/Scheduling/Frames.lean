import ComputeCore.Proofs.Scheduling.Coverage
import ComputeCore.Proofs.Scheduling.Opening
/-!
# The frames of work-items

All groups and passes of a dispatch share one array of frames. `frames_isolated` says that no work-item
can tell: its first invocation is handed a fresh frame, and every later one what the same work-item left
at the barrier before, so that the frames of a work-item depend on its own answers only.

The invocations of a dispatch are told apart by the work-item the kernel is shown. The `n`-th one of a
work-item is the one in pass `n` (`Trace.FollowsBarriers.pass_eq`), which is where its frame comes from by
the law of barriers.
-/

namespace ComputeCore

namespace Trace

/-- The invocations of one work-item, in order. -/
def callsOf (trace : Trace) (item : ItemId) : List Call :=
  trace.calls.filter fun call => call.itemId = item

/-- How they ended. -/
def answersOf (trace : Trace) (item : ItemId) : List Answer :=
  (trace.ended.filter fun e => e.1.itemId = item).map Prod.snd

/-- The frame that a work-item with these answers comes to its `n`-th invocation with. -/
def HandedOn (answers : List Answer) : Nat → Frame → Prop
  | 0, frame => frame = {}
  | n + 1, frame => ∃ resumeAt left, answers[n]? = some (.returned (.barrier resumeAt) left) ∧
      frame = { left with resume := resumeAt }

/-- What a dispatch of some kernel over some accepted index space has come to, on some worker. -/
def OfDispatch (trace : Trace) : Prop :=
  ∃ (range : NDRange) (command : Command) (arena : LocalArena) (stage : JobStage),
    (∃ globals locals offsets, IndexSpace.make globals locals offsets = .ok range.space) ∧
      command.kind = .ndrange range ∧ JobRun (fun _ _ => True) command arena stage trace

/-- A list of numbers that grows and leaves out none below a member counts its places. By strong induction
on the place. -/
theorem eq_place_of_growing {passes : List Nat} (hgrowing : passes.Pairwise (· < ·))
    (hclosed : ∀ pass, pass + 1 ∈ passes → pass ∈ passes) {n pass : Nat}
    (hn : passes[n]? = some pass) : pass = n := by
  have hmono : ∀ {i j p q : Nat}, passes[i]? = some p → passes[j]? = some q → i < j → p < q := by
    intro i j p q hi hj hij
    obtain ⟨hlt, rfl⟩ := List.getElem?_eq_some_iff.1 hi
    obtain ⟨hlt', rfl⟩ := List.getElem?_eq_some_iff.1 hj
    exact List.pairwise_iff_getElem.1 hgrowing i j hlt hlt' hij
  induction n using Nat.strong_induction_on generalizing pass with
  | _ n ih =>
    have hin : n < passes.length := (List.getElem?_eq_some_iff.1 hn).1
    cases pass with
    | zero =>
      by_contra hne
      exact absurd (hmono (List.getElem?_eq_getElem (i := 0) (by omega)) hn (by omega)) (Nat.not_lt_zero _)
    | succ pass =>
      -- The number before is at its own place, and no place is between the two.
      obtain ⟨j, hj⟩ := List.mem_iff_getElem?.1 (hclosed pass (List.mem_of_getElem? hn))
      have hlt : j < n := by
        rcases Nat.lt_trichotomy j n with hlt | rfl | hgt
        · exact hlt
        · rw [hj] at hn
          simp at hn
        · have := hmono hn hj hgt
          omega
      obtain rfl := ih j hlt hj
      by_contra hne
      have hnext := List.getElem?_eq_getElem (l := passes) (i := pass + 1) (by omega)
      have := hmono hj hnext (Nat.lt_succ_self _)
      have := hmono hnext hn (by omega)
      omega

section Law
variable {trace : Trace} {space : IndexSpace} {item : ItemId}

/-- Invocations of one work-item are at one place of the space. -/
theorem Located.same_place (h : trace.Located space) (hlaw : trace.FollowsBarriers space) {a b : Call}
    (ha : a ∈ trace.callsOf item) (hb : b ∈ trace.callsOf item) :
    a.moment.group = b.moment.group ∧ a.moment.index = b.moment.index := by
  obtain ⟨ha, hitem⟩ := List.mem_filter.1 ha
  obtain ⟨hb, hitem'⟩ := List.mem_filter.1 hb
  obtain ⟨hgroup, hindex⟩ := hlaw.bounds ha
  obtain ⟨hgroup', hindex'⟩ := hlaw.bounds hb
  refine IndexSpace.item_place_inj hgroup hindex hgroup' hindex' ?_
  rw [← h.itemId_eq ha, ← h.itemId_eq hb, of_decide_eq_true hitem, of_decide_eq_true hitem']

/-- An invocation at the place of a work-item is one of its own. -/
theorem Located.mem_callsOf (h : trace.Located space) {a b : Call} (ha : a ∈ trace.callsOf item)
    (hb : b ∈ trace.calls) (hgroup : b.moment.group = a.moment.group)
    (hindex : b.moment.index = a.moment.index) : b ∈ trace.callsOf item := by
  obtain ⟨ha, hitem⟩ := List.mem_filter.1 ha
  refine List.mem_filter.2 ⟨hb, decide_eq_true ?_⟩
  rw [h.itemId_eq hb, hgroup, hindex, ← h.itemId_eq ha, of_decide_eq_true hitem]

/-- The `n`-th invocation of a work-item is in pass `n`: it has one in every pass until it is done. -/
theorem FollowsBarriers.pass_eq (hlaw : trace.FollowsBarriers space) (h : trace.Located space) {n : Nat}
    {call : Call} (hn : (trace.callsOf item)[n]? = some call) : call.moment.pass = n := by
  have hplaces : ((trace.callsOf item).map fun call => call.moment.pass)[n]? = some call.moment.pass := by
    rw [List.getElem?_map, hn, Option.map_some]
  refine eq_place_of_growing ?_ ?_ hplaces
  · refine List.pairwise_map.2 ((hlaw.ordered.sublist List.filter_sublist).imp_of_mem
      fun {a b} ha hb hbefore => ?_)
    have hplace := h.same_place hlaw ha hb
    unfold Moment.Before at hbefore
    omega
  · intro pass hpass
    obtain ⟨later, hlater, hm⟩ := List.mem_map.1 hpass
    have hdue := hlaw.due later (List.mem_filter.1 hlater).1
    rcases hmoment : later.moment with ⟨group, pass', index⟩
    obtain rfl : pass' = pass + 1 := by simpa [hmoment] using hm
    rw [hmoment] at hdue
    obtain ⟨e, he, hbefore, -⟩ := hdue
    refine List.mem_map.2 ⟨e.1, h.mem_callsOf hlater (List.of_mem_zip he).1 ?_ ?_, ?_⟩ <;>
      simp [hbefore, hmoment]

/-- The answers to the invocations of a work-item stand at their places. -/
theorem exists_callsOf_of_answersOf {e : Call × Answer} (he : e ∈ trace.ended)
    (hitem : e.1.itemId = item) :
    ∃ n : Nat, (trace.callsOf item)[n]? = some e.1 ∧ (trace.answersOf item)[n]? = some e.2 := by
  have hown : e ∈ trace.ended.filter fun e => e.1.itemId = item :=
    List.mem_filter.2 ⟨he, decide_eq_true hitem⟩
  obtain ⟨n, hn⟩ := List.mem_iff_getElem?.1 hown
  refine ⟨n, ?_, by rw [answersOf, List.getElem?_map, hn, Option.map_some]⟩
  -- What has ended are the first invocations, so their own ones are the first of those.
  have hfirst : trace.ended.map Prod.fst <+: trace.calls := by
    refine List.prefix_iff_getElem?.2 fun i hi => ?_
    have hi' : i < trace.calls.length := by simp [ended] at hi; omega
    simp [ended, hi']
  have hcalls : (trace.ended.filter fun e => e.1.itemId = item).map Prod.fst <+: trace.callsOf item := by
    have := hfirst.filter fun call => decide (call.itemId = item)
    rwa [List.filter_map] at this
  obtain ⟨hlt, hget⟩ := List.getElem?_eq_some_iff.1 hn
  have hplace := List.prefix_iff_getElem?.1 hcalls n (by simpa using hlt)
  rw [List.getElem_map] at hplace
  exact hplace.trans (congrArg (fun e => some e.1) hget)

/-- The frames of a work-item come from its own answers. -/
theorem FollowsBarriers.own_frame (hlaw : trace.FollowsBarriers space) (h : trace.Located space)
    {n : Nat} {call : Call} (hn : (trace.callsOf item)[n]? = some call) :
    HandedOn (trace.answersOf item) n call.frame := by
  have hmem := List.mem_of_getElem? hn
  have hkept := (hlaw.shown call (List.mem_filter.1 hmem).1).frame
  have hpass := hlaw.pass_eq h hn
  rcases hmoment : call.moment with ⟨group, pass, index⟩
  obtain rfl : pass = n := by simpa [hmoment] using hpass
  rw [hmoment] at hkept
  cases pass with
  | zero => exact hkept
  | succ pass =>
    obtain ⟨e, he, hbefore, resumeAt, left, hanswer, hframe⟩ := hkept
    have hown : e.1 ∈ trace.callsOf item := by
      refine h.mem_callsOf hmem (List.of_mem_zip he).1 ?_ ?_ <;> simp [hbefore, hmoment]
    obtain ⟨m, hcall, hm⟩ := exists_callsOf_of_answersOf he (of_decide_eq_true (List.mem_filter.1 hown).2)
    obtain rfl : pass = m := by simpa [hbefore] using hlaw.pass_eq h hcall
    exact ⟨resumeAt, left, by rw [hm, hanswer], hframe⟩

end Law

/-- The law holds for every dispatch there is: one that does not fit its worker, or has an argument that
is not mapped, has no invocations. -/
theorem OfDispatch.own_frame {trace : Trace} (h : trace.OfDispatch) {item : ItemId} {n : Nat} {call : Call}
    (hn : (trace.callsOf item)[n]? = some call) :
    HandedOn (trace.answersOf item) n call.frame := by
  obtain ⟨range, command, arena, stage, haccepted, hkind, hrun⟩ := h
  have hcalls : trace.calls ≠ [] :=
    List.ne_nil_of_mem (List.mem_filter.1 (List.mem_of_getElem? hn)).1
  obtain ⟨hfits, hresolved⟩ := hrun.of_call hkind haccepted hcalls
  exact (hresolved.sound hkind hfits).followsBarriers.own_frame (hresolved.located hkind hfits) hn

/-- A work-item finds a fresh frame at its first invocation, and at every later one the frame it left
itself at the barrier before, with the point at which to resume. Two work-items, be it in different
dispatches of different kernels, that have answered alike so far are handed equal frames: whatever other
work-items, groups or commands stored in theirs makes no difference. -/
theorem frames_isolated {trace : Trace} (h : trace.OfDispatch) (item : ItemId) :
    (∀ call, (trace.callsOf item)[0]? = some call →
      call.frame = ({} : Frame) ∧ call.frame.resume = 0 ∧ ∀ slot, call.frame.get slot = 0) ∧
    (∀ n call, (trace.callsOf item)[n + 1]? = some call → ∃ resumeAt left,
      (trace.answersOf item)[n]? = some (.returned (.barrier resumeAt) left) ∧
        call.frame = { left with resume := resumeAt }) ∧
    ∀ (other : Trace), other.OfDispatch → ∀ (item' : ItemId) (n : Nat) (call call' : Call),
      (trace.callsOf item)[n]? = some call → (other.callsOf item')[n]? = some call' →
      (trace.answersOf item).take n = (other.answersOf item').take n → call.frame = call'.frame := by
  refine ⟨fun call hcall => ?_, fun n call hcall => h.own_frame hcall, ?_⟩
  · have hfresh : call.frame = ({} : Frame) := h.own_frame hcall
    exact ⟨hfresh, by rw [hfresh], fun slot => by simp [hfresh, Frame.get]⟩
  · intro other hother item' n call call' hcall hcall' hanswers
    have hframe := h.own_frame hcall
    have hframe' := hother.own_frame hcall'
    cases n with
    | zero => exact hframe.trans hframe'.symm
    | succ n =>
      obtain ⟨resumeAt, left, hanswer, hframe⟩ := hframe
      obtain ⟨resumeAt', left', hanswer', hframe'⟩ := hframe'
      have hsame := congrArg (fun answers => answers[n]?) hanswers
      simp only [List.getElem?_take, Nat.lt_succ_self, if_true, hanswer, hanswer', Option.some.injEq,
        Answer.returned.injEq, Outcome.barrier.injEq] at hsame
      obtain ⟨rfl, rfl⟩ := hsame
      exact hframe.trans hframe'.symm

end Trace

/-- A kernel that leaves a mark in its frame at every turn, and comes to one barrier. -/
def marking : Kernel where
  name := "marking"
  invoke _ frame :=
    if frame.resume = 0 then .done (.barrier 1, { frame with slots := frame.slots.push 7 })
    else .done (.done, { frame with slots := frame.slots.push 9 })

/-- Two groups of two work-items, one of which comes to a place that the other group has used. -/
def markingCommand : Command where
  id := ⟨0⟩
  kind := .ndrange
    { space := { axes := [{ globalSize := 4, localSize := 2, offset := 0 }] }, kernel := marking, args := [] }

theorem Trace.frames_isolated_marking :
    let trace := (JobLife.alone markingCommand default default).trace 27
    trace.OfDispatch ∧ trace.calls.map Call.frame =
      [{}, {}, ⟨1, #[7]⟩, ⟨1, #[7]⟩, {}, {}, ⟨1, #[7]⟩, ⟨1, #[7]⟩] ∧
    ∀ (n : Nat) (call call' : Call), (trace.callsOf ⟨[1], [0]⟩)[n]? = some call →
      (trace.callsOf ⟨[1], [1]⟩)[n]? = some call' → call.frame = call'.frame := by
  intro trace
  have htrace : trace.OfDispatch := ⟨_, markingCommand, default, _, ⟨[4], [2], [0], rfl⟩, rfl,
    (JobLife.alone markingCommand default default).run (fun _ _ _ _ => trivial) 27⟩
  obtain ⟨-, -, hsame⟩ := frames_isolated htrace ⟨[1], [0]⟩
  have hanswers : trace.answersOf ⟨[1], [0]⟩ = trace.answersOf ⟨[1], [1]⟩ := rfl
  exact ⟨htrace, rfl, fun n call call' hcall hcall' =>
    hsame trace htrace ⟨[1], [1]⟩ n call call' hcall hcall' (by rw [hanswers])⟩

end ComputeCore
