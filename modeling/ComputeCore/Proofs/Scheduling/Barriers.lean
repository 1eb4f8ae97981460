import ComputeCore.Proofs.Scheduling.Scheduler
/-!
# Barriers

`Trace.FollowsBarriers` is the law the invocations of a dispatch obey, and `barriers_scheduled` says
that every run of a dispatch that fits its worker obeys it at every moment, whatever its kernel does
and whatever other threads do meanwhile: invocations come in the order of moments and exactly when
they are due, a trap or a panic is the last one, and a dispatch that ends with `done` has invoked
everything that was due.

A run is followed stage by stage: `JobStage.Sound` says how far the trace has come at each stage of
the job, and there is one lemma for the steps from each stage.
-/

namespace ComputeCore

/-! ## The law -/

/-- The cursor a call shows tells the group and the work-item it is made for, and the frame is the
one this work-item has kept. -/
structure Call.Shown (call : Call) (past : List (Call × Answer)) : Prop where
  group : call.item.cursor.groupLinear = .ok call.moment.group
  index : call.item.cursor.localLinear = .ok call.moment.index
  frame : Kept past call.moment call.frame

theorem Call.Shown.append {call : Call} {past : List (Call × Answer)} (h : call.Shown past)
    (more : List (Call × Answer)) : call.Shown (past ++ more) :=
  { h with frame := h.frame.append more }

namespace Trace

/-- The moments at which a dispatch over `space` has to invoke the kernel, after this trace. -/
def DueIn (trace : Trace) (space : IndexSpace) : Moment → Prop :=
  Due space.localSizes.prod space.groupCounts.prod trace.ended

/-- The invocations of a dispatch come as its barriers demand. The last three facts follow from the
others, and are what the author of a kernel relies on. -/
structure FollowsBarriers (trace : Trace) (space : IndexSpace) : Prop where
  /-- Invocations come group by group, pass by pass, and work-item by work-item. -/
  ordered : trace.calls.Pairwise fun a b => a.moment.Before b.moment
  /-- Only what is due is invoked. -/
  due : ∀ call ∈ trace.calls, trace.DueIn space call.moment
  /-- Nothing that is due is passed over. -/
  unskipped : ∀ call ∈ trace.calls, ∀ m : Moment, m.Before call.moment → trace.DueIn space m →
    ∃ earlier ∈ trace.calls, earlier.moment = m
  answered : trace.answers.length ≤ trace.calls.length
  /-- Only the last invocation may be under way, or may have trapped or panicked. -/
  going : ∀ n, n + 1 < trace.calls.length → ∃ answer, trace.answers[n]? = some answer ∧ answer.GoesOn
  shown : ∀ call ∈ trace.calls, call.Shown trace.ended
  /-- Nobody goes on past a barrier before everybody else of the group has come to theirs, or has
  finished. -/
  barrier_met : ∀ call ∈ trace.calls, ∀ pass < call.moment.pass, ∀ index < space.localSizes.prod,
    (∃ e ∈ trace.ended, e.1.moment = ⟨call.moment.group, pass, index⟩ ∧ e.2.IsBarrier) ∨
      ∃ e ∈ trace.ended, e.1.moment.group = call.moment.group ∧ e.1.moment.pass ≤ pass ∧
        e.1.moment.index = index ∧ e.2.IsDone
  /-- Nobody is invoked again once it is done. -/
  done_for_good : ∀ e ∈ trace.ended, e.2.IsDone → ∀ call ∈ trace.calls,
    call.moment.group = e.1.moment.group → call.moment.index = e.1.moment.index →
      call.moment.pass ≤ e.1.moment.pass
  /-- No group starts before everybody of the groups before it is done. -/
  groups_in_turn : ∀ call ∈ trace.calls, ∀ group < call.moment.group,
    ∀ index < space.localSizes.prod,
      ∃ e ∈ trace.ended, e.1.moment.group = group ∧ e.1.moment.index = index ∧ e.2.IsDone

/-- What a dispatch has done when it ends: with `done`, all that is due; with a status, everything
up to the invocation that trapped or panicked with that status. -/
def EndsAs (trace : Trace) (space : IndexSpace) : Ending → Prop
  | .done => trace.answers.length = trace.calls.length ∧ (∀ answer ∈ trace.answers, answer.GoesOn) ∧
      ∀ m, trace.DueIn space m → ∃ call ∈ trace.calls, call.moment = m
  | .exit status => trace.answers.length = trace.calls.length ∧
      ∃ answer, trace.answers.getLast? = some answer ∧ answer.status? = some status

/-- The trace of what has ended, of a last invocation and of an answer that gives the dispatch up. -/
def of (past : List (Call × Answer)) (last : Option Call) (givenUp : Option Answer) : Trace :=
  { calls := past.map Prod.fst ++ last.toList, answers := past.map Prod.snd ++ givenUp.toList }

theorem zip_fst_snd (past : List (Call × Answer)) :
    (past.map Prod.fst).zip (past.map Prod.snd) = past := by
  simpa [List.unzip_eq_map] using List.zip_unzip past

theorem ended_of (past : List (Call × Answer)) (last : Option Call) (givenUp : Option Answer) :
    (of past last givenUp).ended = past ++ last.toList.zip givenUp.toList := by
  rw [ended, of, List.zip_append (by simp), zip_fst_snd]

/-- As long as nothing is given up, what has ended is what the trace is made of. -/
theorem ended_of_none (past : List (Call × Answer)) (last : Option Call) :
    (of past last none).ended = past := by
  simp [ended_of]

section Law
variable {space : IndexSpace} {past : List (Call × Answer)} {front : Moment} {last : Option Call}
  {givenUp : Option Answer}

/-- What is due does not depend on an answer that gives the dispatch up. -/
theorem dueIn_of (hgivenUp : ∀ answer ∈ givenUp, ¬ answer.GoesOn) {m : Moment} :
    (of past last givenUp).DueIn space m ↔
      Due space.localSizes.prod space.groupCounts.prod past m := by
  rw [DueIn, ended_of]
  cases last with
  | none => simp
  | some call =>
    cases givenUp with
    | none => simp
    | some answer =>
      exact due_append_of_not_barrier fun hbar => hgivenUp answer rfl (.inr hbar)

theorem mem_calls_of {call : Call} (h : call ∈ (of past last givenUp).calls) :
    (∃ e ∈ past, e.1 = call) ∨ call ∈ last := by
  rcases List.mem_append.1 h with h | h
  · exact .inl (List.mem_map.1 h)
  · exact .inr (Option.mem_toList.1 h)

theorem fst_mem_calls_of {e : Call × Answer} (he : e ∈ past) : e.1 ∈ (of past last givenUp).calls :=
  List.mem_append_left _ (List.mem_map.2 ⟨e, he, rfl⟩)

theorem mem_ended_of {e : Call × Answer} (he : e ∈ past) : e ∈ (of past last givenUp).ended := by
  rw [ended_of]
  exact List.mem_append_left _ he

/-- What is done has ended before, as the last invocation is under way or was given up. -/
theorem mem_past_of_done (hgivenUp : ∀ answer ∈ givenUp, ¬ answer.GoesOn) {e : Call × Answer}
    (he : e ∈ (of past last givenUp).ended) (hdone : e.2.IsDone) : e ∈ past := by
  rw [ended_of] at he
  rcases List.mem_append.1 he with he | he
  · exact he
  · obtain ⟨-, ha⟩ := List.of_mem_zip he
    exact absurd (.inl hdone) (hgivenUp e.2 (Option.mem_toList.1 ha))

/-- An invocation is due, and whatever comes before it comes before the frontier. -/
theorem due_and_before (h : Frontier space.localSizes.prod space.groupCounts.prod past front)
    (hlast : ∀ call ∈ last, call.moment = front ∧
      Due space.localSizes.prod space.groupCounts.prod past front)
    {call : Call} (hcall : call ∈ (of past last givenUp).calls) :
    Due space.localSizes.prod space.groupCounts.prod past call.moment ∧
      ∀ m : Moment, m.Before call.moment → m.Before front := by
  rcases mem_calls_of hcall with ⟨e, he, rfl⟩ | hcall
  · exact ⟨h.due e he, fun m hm => hm.trans (h.behind e he)⟩
  · obtain ⟨hm, hd⟩ := hlast call hcall
    exact ⟨hm ▸ hd, fun m hb => hm ▸ hb⟩

/-- A history up to a frontier, with at most one more invocation there, is as its barriers demand. -/
theorem followsBarriers_of (h : Frontier space.localSizes.prod space.groupCounts.prod past front)
    (hlast : ∀ call ∈ last, call.moment = front ∧
      Due space.localSizes.prod space.groupCounts.prod past front)
    (hgivenUp : ∀ answer ∈ givenUp, last.isSome ∧ ¬ answer.GoesOn)
    (hshown : ∀ call ∈ (of past last givenUp).calls, call.Shown past) :
    (of past last givenUp).FollowsBarriers space := by
  have hstops : ∀ answer ∈ givenUp, ¬ answer.GoesOn := fun answer ha => (hgivenUp answer ha).2
  have hdue : ∀ {m : Moment}, (of past last givenUp).DueIn space m ↔
      Due space.localSizes.prod space.groupCounts.prod past m := dueIn_of hstops
  refine ⟨?_, fun call hc => hdue.2 (due_and_before h hlast hc).1, ?_, ?_, ?_,
    fun call hc => ended_of past last givenUp ▸ (hshown call hc).append _, ?_, ?_, ?_⟩
  · refine List.pairwise_append.2 ⟨List.pairwise_map.2 h.ordered, ?_, fun a ha b hb => ?_⟩
    · cases last <;> simp
    · obtain ⟨e, he, rfl⟩ := List.mem_map.1 ha
      exact (hlast b (Option.mem_toList.1 hb)).1 ▸ h.behind e he
  · intro call hc m hm hd
    obtain ⟨e, he, rfl⟩ := h.complete m ((due_and_before h hlast hc).2 m hm) (hdue.1 hd)
    exact ⟨e.1, fst_mem_calls_of he, rfl⟩
  · cases givenUp with
    | none => simp [of]
    | some answer =>
      obtain ⟨call, rfl⟩ := Option.isSome_iff_exists.1 (hgivenUp answer rfl).1
      simp [of]
  · intro n hn
    -- An invocation with another one after it is not the last one.
    have hlt : n < past.length := by
      cases last <;> simp [of] at hn <;> omega
    refine ⟨(past[n]).2, ?_, h.going _ (List.getElem_mem hlt)⟩
    simp [of, List.getElem?_append_left, hlt]
  · intro call hc pass hpass index hindex
    obtain ⟨hd, hbefore⟩ := due_and_before h hlast hc
    rcases h.barrier_or_done (h.due_bounds hd).1 hindex
        (hbefore ⟨call.moment.group, pass, index⟩ (.inr ⟨rfl, .inl hpass⟩)) with
      ⟨e, he, hm, hbar⟩ | ⟨e, he, hg, hp, hi, hdone⟩
    · exact .inl ⟨e, mem_ended_of he, hm, hbar⟩
    · exact .inr ⟨e, mem_ended_of he, hg, hp, hi, hdone⟩
  · intro e he hdone call hc hg hi
    have hin := mem_past_of_done hstops he hdone
    by_contra hlater
    refine h.not_due_after_done hin hdone (Nat.lt_of_not_le hlater) ?_
    rw [← hg, ← hi]
    exact (due_and_before h hlast hc).1
  · intro call hc group hgroup index hindex
    obtain ⟨hd, hbefore⟩ := due_and_before h hlast hc
    have htotal : group < space.groupCounts.prod := Nat.lt_trans hgroup (h.due_bounds hd).1
    obtain ⟨e, he, hg, hi, hdone⟩ :=
      h.group_done htotal hindex fun pass => hbefore _ (.inl hgroup)
    exact ⟨e, mem_ended_of he, hg, hi, hdone⟩

end Law

end Trace

/-! ## Stages of a job -/

/-- A scheduler that is carrying out `range`, with what has ended so far. -/
structure Dispatch.Serves (dispatch : Dispatch) (range : NDRange) (arena : LocalArena)
    (past : List (Call × Answer)) : Prop where
  fits : dispatch.Fits arena
  space : dispatch.space = range.space
  shown : ∀ e ∈ past, e.1.Shown past

/-- How far the trace of a dispatch has come at each stage of the job. -/
def JobStage.Sound (range : NDRange) (trace : Trace) : JobStage → Prop
  | .going arena .fresh => range.Fits arena ∧ trace = {}
  | .going arena (.binding bound _ _) => bound = range ∧ range.Fits arena ∧ trace = {}
  | .going arena (.scheduling dispatch) => ∃ past, dispatch.Serves range arena past ∧
      dispatch.Tracks past ∧ trace = .of past none none
  | .going arena (.invoking dispatch turn _) => ∃ past call, dispatch.Serves range arena past ∧
      dispatch.Passing past turn ∧ turn.index < dispatch.perGroup ∧
      call.moment = ⟨dispatch.group, dispatch.pass, turn.index⟩ ∧
      Due dispatch.perGroup dispatch.totalGroups past call.moment ∧ call.Shown past ∧
      trace = .of past (some call) none
  | .going _ (.native _) => False
  | .ended ending => trace.FollowsBarriers range.space ∧ trace.EndsAs range.space ending
  | .broken => False

section Stages
variable {range : NDRange} {arena : LocalArena} {shared : Shared} {command : Command}
  {trace : Trace} {stage : JobStage} {dispatch : Dispatch} {turn : Turn}
  {past : List (Call × Answer)}

theorem Dispatch.Tracks.frontier (h : dispatch.Tracks past) :
    ∃ front, Frontier dispatch.perGroup dispatch.totalGroups past front := by
  unfold Dispatch.Tracks at h
  cases hstage : dispatch.stage with
  | entering => exact ⟨_, by simpa [hstage] using h⟩
  | passing turn =>
    rw [hstage] at h
    exact ⟨_, h.frontier⟩

/-- `Trace.followsBarriers_of` for a scheduler and an invocation it has made at the frontier. -/
theorem Dispatch.Serves.followsBarriers {front : Moment} {last : Option Call}
    {givenUp : Option Answer} (h : dispatch.Serves range arena past)
    (hfront : Frontier dispatch.perGroup dispatch.totalGroups past front)
    (hlast : ∀ call ∈ last, call.moment = front ∧
      Due dispatch.perGroup dispatch.totalGroups past call.moment ∧ call.Shown past)
    (hgivenUp : ∀ answer ∈ givenUp, last.isSome ∧ ¬ answer.GoesOn) :
    (Trace.of past last givenUp).FollowsBarriers range.space := by
  rw [h.fits.perGroup, h.fits.totalGroups, h.space] at hfront hlast
  refine Trace.followsBarriers_of hfront (fun call hc => ?_) hgivenUp fun call hc => ?_
  · obtain ⟨hm, hdue, -⟩ := hlast call hc
    exact ⟨hm, hm ▸ hdue⟩
  · rcases List.mem_append.1 hc with hc | hc
    · obtain ⟨e, he, rfl⟩ := List.mem_map.1 hc
      exact h.shown e he
    · exact (hlast call (Option.mem_toList.1 hc)).2.2

namespace JobStage

/-! ### Before the first invocation -/

theorem Sound.begin (hkind : command.kind = .ndrange range)
    (h : Sound range trace (.going arena .fresh))
    (hstep : after (Worker.stepJob shared arena command .fresh) = some stage) :
    Sound range trace stage := by
  simp only [Worker.stepJob, hkind, Worker.begin, after, Option.some.injEq] at hstep
  subst hstep
  exact ⟨rfl, h⟩

theorem Sound.bind {bound : NDRange} {params : List KernelArg} {args : List BoundArg}
    (h : Sound range trace (.going arena (.binding bound params args)))
    (hresolves : Resolving (.binding bound params args) shared)
    (hstep : after (Worker.stepJob shared arena command (.binding bound params args)) = some stage) :
    Sound range trace stage := by
  obtain ⟨rfl, hfits, rfl⟩ := h
  cases params with
  | nil =>
    obtain ⟨dispatch, hcreate, hserves, hspace, htracks⟩ := Dispatch.create_ok hfits args
    simp only [Worker.stepJob, hcreate, after, Option.some.injEq] at hstep
    subst hstep
    exact ⟨[], ⟨hserves, hspace, by simp⟩, htracks, rfl⟩
  | cons param params =>
    obtain ⟨arg, harg⟩ := Option.isSome_iff_exists.1 hresolves
    simp only [Worker.stepJob, harg, after, Option.some.injEq] at hstep
    subst hstep
    exact ⟨rfl, hfits, rfl⟩

/-! ### Between two invocations -/

theorem Sound.schedule (h : Sound range trace (.going arena (.scheduling dispatch)))
    (hstep : after (Worker.stepJob shared arena command (.scheduling dispatch)) = some stage) :
    Sound range (trace.record arena (.scheduling dispatch)) stage := by
  obtain ⟨past, hserves, htracks, rfl⟩ := h
  rcases Dispatch.step_cases hserves.fits htracks with
    ⟨next, arena', hnext, hfits, htracks, hspace⟩ |
    ⟨turn, item, frame, hinvoke, hpassing, hlt, hcursor, hdue, hkept⟩ | ⟨hfinished, hfront, hgroup⟩
  · simp only [Worker.stepJob, hnext, after, Option.some.injEq] at hstep
    subst hstep
    exact ⟨past, ⟨hfits, hspace.trans hserves.space, hserves.shown⟩, htracks, by simp [Trace.record, hnext]⟩
  · simp only [Worker.stepJob, hinvoke, after, Option.some.injEq] at hstep
    subst hstep
    let call : Call := { moment := ⟨dispatch.group, dispatch.pass, turn.index⟩, item, frame }
    refine ⟨past, call, hserves, hpassing, hlt, rfl, hdue, ?_, ?_⟩
    · obtain ⟨hgroup, hindex⟩ := hpassing.shown hserves.fits hlt
      exact ⟨hcursor ▸ hgroup, hcursor ▸ hindex, hkept⟩
    · simp [Trace.record, hinvoke, Trace.of, call]
  · simp only [Worker.stepJob, hfinished, after, Option.some.injEq] at hstep
    subst hstep
    have htrace : (Trace.of past none none).record arena (.scheduling dispatch) =
        Trace.of past none none := by simp [Trace.record, hfinished]
    rw [htrace]
    refine ⟨hserves.followsBarriers hfront (by simp) (by simp), by simp [Trace.of], ?_, ?_⟩
    · rintro answer hanswer
      obtain ⟨call, he⟩ : ∃ call, (call, answer) ∈ past := by simpa [Trace.of] using hanswer
      exact hfront.going _ he
    · -- What is due lies in the index space, and the frontier has left all its groups behind.
      intro m hm
      rw [Trace.dueIn_of (by simp), ← hserves.space, ← hserves.fits.perGroup,
        ← hserves.fits.totalGroups] at hm
      have hbefore : m.Before ⟨dispatch.group, 0, 0⟩ :=
        .inl (Nat.lt_of_lt_of_le (hfront.due_bounds hm).1 hgroup)
      obtain ⟨e, he, rfl⟩ := hfront.complete m hbefore hm
      exact ⟨e.1, by simpa [Trace.of] using ⟨e.2, he⟩, rfl⟩

/-! ### In an invocation -/

/-- An invocation that traps or panics is the last one. -/
theorem sound_givenUp {call : Call} {answer : Answer} {status : Status}
    (hserves : dispatch.Serves range arena past) (hpassing : dispatch.Passing past turn)
    (hmoment : call.moment = ⟨dispatch.group, dispatch.pass, turn.index⟩)
    (hdue : Due dispatch.perGroup dispatch.totalGroups past call.moment) (hshown : call.Shown past)
    (hstatus : answer.status? = some status) :
    Sound range (.of past (some call) (some answer)) (.ended (.exit status)) := by
  have hstops : ¬ answer.GoesOn := by
    rintro (⟨frame, rfl⟩ | ⟨resumeAt, frame, rfl⟩) <;> simp [Answer.status?] at hstatus
  refine ⟨hserves.followsBarriers hpassing.frontier ?_ ?_, by simp [Trace.of], answer, ?_, hstatus⟩
  · intro last hlast
    obtain rfl : call = last := by simpa using hlast
    exact ⟨hmoment, hdue, hshown⟩
  · simpa using hstops
  · simp [Trace.of]

theorem Sound.invoke {body : Process (Outcome × Frame)}
    (h : Sound range trace (.going arena (.invoking dispatch turn body)))
    (hstep : after (Worker.stepJob shared arena command (.invoking dispatch turn body)) = some stage) :
    Sound range (trace.record arena (.invoking dispatch turn body)) stage := by
  obtain ⟨past, call, hserves, hpassing, hlt, hmoment, hdue, hshown, rfl⟩ := h
  cases body with
  | ask request next =>
    -- The invocation goes on, whatever the answer to its request.
    simp only [Worker.stepJob, Worker.stepProcess] at hstep
    cases hreply : shared.perform command.id request with
    | none => simp [hreply, after] at hstep
    | some reply =>
      rcases reply with fault | ⟨reply, shared'⟩ <;>
      · simp only [hreply, after, Option.some.injEq] at hstep
        subst hstep
        exact ⟨past, call, hserves, hpassing, hlt, hmoment, hdue, hshown, rfl⟩
  | fault fault =>
    simp only [Worker.stepJob, Worker.stepProcess, after, Option.some.injEq] at hstep
    subst hstep
    have hrecord : (Trace.of past (some call) none).record arena
        (.invoking dispatch turn (.fault fault)) = .of past (some call) (some .panicked) := by
      simp [Trace.record, Trace.of]
    rw [hrecord]
    exact sound_givenUp hserves hpassing hmoment hdue hshown rfl
  | done result =>
    obtain ⟨outcome, frame⟩ := result
    have hrecord : (Trace.of past (some call) none).record arena
        (.invoking dispatch turn (.done (outcome, frame))) =
        .of past (some call) (some (.returned outcome frame)) := by simp [Trace.record, Trace.of]
    rw [hrecord]
    by_cases htrap : ∃ status, outcome = .trap status
    · obtain ⟨status, rfl⟩ := htrap
      simp only [Worker.stepJob, Worker.stepProcess, Dispatch.accept, after,
        Option.some.injEq] at hstep
      subst hstep
      exact sound_givenUp hserves hpassing hmoment hdue hshown rfl
    · obtain ⟨next, haccept, hfits, htracks, hspace⟩ := hpassing.accept hserves.fits hlt (hmoment ▸ hdue)
        hmoment outcome frame fun status heq => htrap ⟨status, heq⟩
      simp only [Worker.stepJob, Worker.stepProcess, haccept, after, Option.some.injEq] at hstep
      subst hstep
      refine ⟨past ++ [(call, .returned outcome frame)],
        ⟨hfits, hspace.trans hserves.space, ?_⟩, htracks, ?_⟩
      · intro e he
        rcases List.mem_append.1 he with he | he
        · exact (hserves.shown e he).append _
        · obtain rfl := List.mem_singleton.1 he
          exact hshown.append _
      · simp [Trace.of]

/-! ### Every step -/

theorem Sound.step {job : Job} (hkind : command.kind = .ndrange range)
    (h : Sound range trace (.going arena job)) (hresolves : Resolving job shared)
    (hstep : after (Worker.stepJob shared arena command job) = some stage) :
    Sound range (trace.record arena job) stage := by
  cases job with
  | fresh => exact h.begin hkind hstep
  | native body => exact h.elim
  | binding bound params args => exact h.bind hresolves hstep
  | scheduling dispatch => exact h.schedule hstep
  | invoking dispatch turn body => exact h.invoke hstep

theorem Sound.followsBarriers (h : Sound range trace stage) :
    trace.FollowsBarriers range.space := by
  cases stage with
  | broken => exact h.elim
  | ended ending => exact h.1
  | going arena job =>
    have hempty : (Trace.of [] none none).FollowsBarriers range.space :=
      Trace.followsBarriers_of Frontier.start (by simp) (by simp) (by simp [Trace.of])
    cases job with
    | native body => exact h.elim
    | fresh => exact h.2 ▸ hempty
    | binding bound params args => exact h.2.2 ▸ hempty
    | scheduling dispatch =>
      obtain ⟨past, hserves, htracks, rfl⟩ := h
      obtain ⟨front, hfront⟩ := htracks.frontier
      exact hserves.followsBarriers hfront (by simp) (by simp)
    | invoking dispatch turn body =>
      obtain ⟨past, call, hserves, hpassing, -, hmoment, hdue, hshown, rfl⟩ := h
      refine hserves.followsBarriers hpassing.frontier (fun last hlast => ?_) (by simp)
      obtain rfl : call = last := by simpa using hlast
      exact ⟨hmoment, hdue, hshown⟩

end JobStage

end Stages

/-! ## Every run -/

section Runs
variable {command : Command} {arena : LocalArena} {range : NDRange} {stage : JobStage}
  {trace : Trace}

/-- Every run of a dispatch is sound at every stage. By induction on the run. -/
theorem JobRun.sound (hkind : command.kind = .ndrange range) (hfits : range.Fits arena)
    (hrun : JobRun Resolving command arena stage trace) : stage.Sound range trace := by
  induction hrun with
  | begun => exact ⟨hfits, rfl⟩
  | step _ shared hresolves hstep ih => exact ih.step hkind hresolves hstep

/-- The invocations of a dispatch that fits its worker obey the law of barriers at every moment of
every run, no fault ever escapes the dispatch, and it ends either with everything done or with the
first trap or panic. -/
theorem barriers_scheduled (hkind : command.kind = .ndrange range) (hfits : range.Fits arena)
    (hrun : JobRun Resolving command arena stage trace) :
    trace.FollowsBarriers range.space ∧ stage ≠ .broken ∧
      ∀ ending, stage = .ended ending → trace.EndsAs range.space ending := by
  have hsound := hrun.sound hkind hfits
  refine ⟨hsound.followsBarriers, ?_, ?_⟩
  · rintro rfl
    exact hsound
  · rintro ending rfl
    exact hsound.2

end Runs

/-! ### A dispatch of two passes -/

/-- A kernel that comes to one barrier and then is done. -/
def oneBarrier : Kernel where
  name := "one_barrier"
  invoke _ frame := .done (if frame.resume = 0 then .barrier 1 else .done, frame)

/-- One group of two work-items. -/
def pairRange : NDRange where
  space := { axes := [{ globalSize := 2, localSize := 2, offset := 0 }] }
  kernel := oneBarrier
  args := [.value #[]]

def pairCommand : Command where
  id := ⟨0⟩
  kind := .ndrange pairRange

theorem barriers_scheduled_pair :
    ∃ trace, JobRun Resolving pairCommand default (.ended .done) trace ∧
      trace.calls.map Call.moment = [⟨0, 0, 0⟩, ⟨0, 0, 1⟩, ⟨0, 1, 0⟩, ⟨0, 1, 1⟩] ∧
      trace.FollowsBarriers pairRange.space ∧ trace.EndsAs pairRange.space .done := by
  have hfits : pairRange.Fits default :=
    ⟨⟨[2], [2], [0], rfl⟩, by decide, by decide, by decide, Nat.zero_le _⟩
  have hbegun : JobRun Resolving pairCommand default (.going default .fresh) {} := .begun
  have hset := hbegun.step default trivial rfl |>.step default rfl rfl |>.step default trivial rfl
    |>.step default trivial rfl
  have hfirst := hset.step default trivial rfl |>.step default trivial rfl
    |>.step default trivial rfl |>.step default trivial rfl |>.step default trivial rfl
  have hsecond := hfirst.step default trivial rfl |>.step default trivial rfl
    |>.step default trivial rfl |>.step default trivial rfl |>.step default trivial rfl
  have hrun := hsecond.step default trivial rfl
  obtain ⟨hlaw, -, hends⟩ := barriers_scheduled rfl hfits hrun
  exact ⟨_, hrun, rfl, hlaw, hends .done rfl⟩

end ComputeCore
