import ComputeCore.Proofs.IndexSpace.Steps
import ComputeCore.Proofs.Scheduling.Lives
import ComputeCore.Proofs.Scheduling.Moves
/-!
# The opening of a dispatch

Before its first invocation a dispatch looks up its arguments, one in each step, makes its scheduler,
and sets its first group up. Whatever can be wrong with its sizes comes out here: a dispatch that does
not fit its worker never gets as far as an invocation (`JobRun.unopened`), and one with an argument that
is not mapped ends before it has a scheduler (`JobRun.resolves`).

The turns of a life up to there are counted: argument `i` is looked up in turn `i + 1`
(`JobLife.looksUp`).
-/

namespace ComputeCore

/-- A dispatch over an accepted index space whose group size and number of groups are sizes, and whose
frames make a possible array. -/
structure NDRange.Sized (range : NDRange) : Prop where
  accepted : ∃ globals locals offsets, IndexSpace.make globals locals offsets = .ok range.space
  items_fit : range.space.localSizes.prod < Size.limit
  groups_fit : range.space.groupCounts.prod < Size.limit
  frames_fit : range.space.localSizes.prod * Dispatch.frameWidth ≤ Size.arrayLimit

theorem NDRange.Sized.fits {range : NDRange} {arena : LocalArena} (h : range.Sized)
    (hargs : range.localSize ≤ arena.capacity) : range.Fits arena :=
  { h with args_fit := hargs }

namespace Dispatch

/-! ## Dispatches that do not fit -/

/-- Arguments that want more than the arena has left are a fault. By induction on the arguments: one of
them finds too little left. -/
theorem carve_overflow (params : List KernelArg) :
    ∀ (args : List BoundArg) (arena : LocalArena), args.length = params.length →
      arena.used ≤ arena.capacity →
      arena.capacity < arena.used + (params.map KernelArg.localSize).sum →
      ∃ fault, carve params args arena = .error fault := by
  induction params with
  | nil =>
    intro args arena _ hused hover
    simp at hover
    omega
  | cons param params ih =>
    intro args arena hlength hused hover
    obtain ⟨arg, args, rfl⟩ := List.exists_cons_of_length_eq_add_one hlength
    rw [List.map_cons, List.sum_cons] at hover
    cases param with
    | localBytes size =>
      simp only [KernelArg.localSize] at hover
      rcases Nat.lt_or_ge arena.capacity (arena.used + size) with hexceeds | hfits
      · exact ⟨_, by simp only [carve, LocalArena.alloc_of_exceeds hused hexceeds]; rfl⟩
      · obtain ⟨fault, hfault⟩ := ih args { arena with used := arena.used + size } (by simpa using hlength)
          hfits (by simp only; omega)
        exact ⟨fault, by simp [carve, LocalArena.alloc_of_fits hfits, hfault, bind, Except.bind]⟩
    | object | value =>
      simp only [KernelArg.localSize] at hover
      obtain ⟨fault, hfault⟩ := ih args arena (by simpa using hlength) hused (by omega)
      exact ⟨fault, by simp [carve, hfault, bind, Except.bind]⟩

theorem enterGroup_overflow {dispatch : Dispatch} {arena : LocalArena}
    (hlength : dispatch.args.length = dispatch.params.length)
    (hover : arena.capacity <
      dispatch.kernel.staticLocal + (dispatch.params.map KernelArg.localSize).sum) :
    ∃ fault, dispatch.enterGroup arena = .error fault := by
  cases hentered : dispatch.enterGroup arena with
  | error fault => exact ⟨fault, rfl⟩
  | ok entered =>
    obtain ⟨next, arena'⟩ := entered
    obtain ⟨hcarve, -⟩ := enterGroup_args hentered
    by_cases hstatic : arena.capacity < dispatch.kernel.staticLocal
    · cases hstart : dispatch.space.groupStart dispatch.group <;>
        simp [enterGroup, hstart, LocalArena.reset, hstatic, bind, Except.bind] at hentered
    · obtain ⟨fault, hfault⟩ := carve_overflow dispatch.params dispatch.args
        { arena with used := dispatch.kernel.staticLocal } hlength (Nat.le_of_not_lt hstatic) hover
      rw [hfault] at hcarve
      cases hcarve

/-- A scheduler is made only if the sizes are as they should be. -/
theorem create_sizes {range : NDRange} {args : List BoundArg} {dispatch : Dispatch}
    (hspace : range.space.WellFormed) (h : create range args = .ok dispatch) :
    range.space.localSizes.prod < Size.limit ∧ range.space.groupCounts.prod < Size.limit ∧
      range.space.localSizes.prod * frameWidth ≤ Size.arrayLimit ∧
      dispatch.totalGroups = range.space.groupCounts.prod := by
  simp only [create, IndexSpace.itemsPerGroup, IndexSpace.totalGroups,
    Size.product_eq hspace.localSizes_pos, Size.product_eq hspace.groups_pos, Size.fitsArray] at h
  by_cases hitems : range.space.localSizes.prod < Size.limit
  · by_cases hframes : range.space.localSizes.prod * frameWidth ≤ Size.arrayLimit
    · by_cases hgroups : range.space.groupCounts.prod < Size.limit
      · simp only [if_pos hitems, if_pos hframes, if_pos hgroups, bind, Except.bind, pure, Except.pure,
          Except.ok.injEq] at h
        subst h
        exact ⟨hitems, hgroups, hframes, rfl⟩
      · simp [hitems, hframes, hgroups, bind, Except.bind] at h
    · simp [hitems, hframes, bind, Except.bind] at h
  · simp [hitems, bind, Except.bind] at h

/-- A dispatch that does not fit gets no scheduler, or fails to set up its first group. -/
theorem step_overflow {range : NDRange} {args : List BoundArg} {dispatch : Dispatch} {arena : LocalArena}
    (haccepted : ∃ globals locals offsets, IndexSpace.make globals locals offsets = .ok range.space)
    (hnot : ¬ range.Fits arena) (hcreate : create range args = .ok dispatch)
    (hlength : args.length = range.args.length) : ∃ fault, dispatch.step arena = .error fault := by
  obtain ⟨globals, locals, offsets, hmake⟩ := haccepted
  have hspace := IndexSpace.make_wellFormed hmake
  obtain ⟨hitems, hgroups, hframes, htotal⟩ := create_sizes hspace hcreate
  obtain ⟨hkernel, hparams, rfl, hgroup, hstage⟩ := create_args hcreate
  have hover : arena.capacity < range.localSize := by
    by_contra hfit
    exact hnot ⟨⟨globals, locals, offsets, hmake⟩, hitems, hgroups, hframes, Nat.le_of_not_lt hfit⟩
  have hpos : dispatch.group < dispatch.totalGroups := by
    rw [hgroup, htotal]
    exact hspace.groupCounts_prod_pos
  obtain ⟨fault, hfault⟩ : ∃ fault, dispatch.enterGroup arena = .error fault :=
    enterGroup_overflow (by rw [hlength, hparams]) (by rw [hkernel, hparams]; exact hover)
  exact ⟨fault, by simp [step, hstage, hpos, hfault, bind, Except.bind]⟩

end Dispatch

/-! ## Every run -/

namespace JobStage

/-- How far a dispatch has come at the stages before it has a scheduler. -/
def Opening (range : NDRange) (arena₀ : LocalArena) (trace : Trace) : JobStage → Prop
  | .going arena .fresh => arena = arena₀ ∧ trace = {}
  | .going arena (.binding bound params args) => bound = range ∧ arena = arena₀ ∧ trace = {} ∧
      args.length ≤ range.args.length ∧ params = range.args.drop args.length
  | .going _ (.native _) => False
  | _ => True

/-- How far a dispatch comes that does not fit its worker. -/
def Unopened (range : NDRange) (arena₀ : LocalArena) : JobStage → Prop
  | .going arena (.scheduling dispatch) => arena = arena₀ ∧
      Dispatch.create range dispatch.args = .ok dispatch ∧ dispatch.args.length = range.args.length
  | .going _ (.invoking ..) | .ended .done => False
  | _ => True

end JobStage

section Runs
variable {world : Job → Shared → Prop} {command : Command} {arena₀ : LocalArena} {range : NDRange}
  {stage : JobStage} {trace : Trace}

/-- The arguments of every dispatch are bound one after the other, before anything else. By induction on
the run. -/
theorem JobRun.opening (hkind : command.kind = .ndrange range)
    (hrun : JobRun world command arena₀ stage trace) : stage.Opening range arena₀ trace := by
  induction hrun with
  | begun => exact ⟨rfl, rfl⟩
  | step hbefore shared hworld hstep ih =>
    rename_i arena job trace stage
    have hnext := JobStage.next_of_after trace hstep
    generalize trace.record arena job = trace' at hnext ⊢
    cases hnext with
    | begin kind =>
      obtain ⟨rfl, rfl⟩ := ih
      obtain rfl := CommandKind.ndrange.inj (hkind.symm.trans kind)
      exact ⟨rfl, rfl, rfl, Nat.zero_le _, rfl⟩
    | load kind => simp [hkind] at kind
    | serve kind => exact absurd hkind (kind range)
    | proceed | exit => exact ih.elim
    | @bind bound param params args arg =>
      obtain ⟨rfl, rfl, rfl, hle, hparams⟩ := ih
      have hlt : args.length < bound.args.length := by
        by_contra hge
        simp [List.drop_eq_nil_of_le (Nat.le_of_not_lt hge)] at hparams
      refine ⟨rfl, rfl, rfl, by rwa [List.length_append], ?_⟩
      rw [List.length_append, List.length_singleton, ← List.tail_drop, ← hparams, List.tail_cons]
    | _ => trivial

/-- A dispatch whose arguments are not all mapped has no invocations. By induction on the run: the first
argument that is not mapped ends it. -/
theorem JobRun.resolves (hkind : command.kind = .ndrange range)
    (hrun : JobRun world command arena₀ stage trace) :
    JobRun Resolving command arena₀ stage trace ∨
      (stage = .ended (.exit .invalidValue) ∧ trace = {}) := by
  induction hrun with
  | begun => exact .inl .begun
  | step hbefore shared hworld hstep ih =>
    rename_i arena job trace stage
    rcases ih with hresolved | ⟨hended, -⟩
    · by_cases hresolves : Resolving job shared
      · exact .inl (hresolved.step shared hresolves hstep)
      · -- Only an argument to be looked up can fail to be mapped.
        have hnext := JobStage.next_of_after trace hstep
        generalize trace.record arena job = trace' at hnext ⊢
        cases hnext with
        | bind bound => exact absurd (by simp [Resolving, bound]) hresolves
        | unmapped =>
          obtain ⟨-, -, rfl, -⟩ := hbefore.opening hkind
          exact .inr ⟨rfl, rfl⟩
        | _ => exact absurd trivial hresolves
    · cases hended

/-- A dispatch that does not fit its worker has no invocations either. -/
theorem JobRun.unopened (hkind : command.kind = .ndrange range)
    (haccepted : ∃ globals locals offsets, IndexSpace.make globals locals offsets = .ok range.space)
    (hnot : ¬ range.Fits arena₀) (hrun : JobRun world command arena₀ stage trace) :
    stage.Unopened range arena₀ ∧ trace = {} := by
  induction hrun with
  | begun => exact ⟨trivial, rfl⟩
  | step hbefore shared hworld hstep ih =>
    rename_i arena job trace stage
    have hopening := hbefore.opening hkind
    have hnext := JobStage.next_of_after trace hstep
    generalize trace.record arena job = trace' at hnext ⊢
    cases hnext with
    | begin => exact ⟨trivial, ih.2⟩
    | load kind => simp [hkind] at kind
    | serve kind => exact absurd hkind (kind range)
    | proceed | exit => exact hopening.elim
    | bind | unmapped | oversize => exact ⟨trivial, ih.2⟩
    | create created =>
      obtain ⟨rfl, rfl, rfl, hle, hparams⟩ := hopening
      obtain ⟨-, -, rfl, -⟩ := Dispatch.create_args created
      exact ⟨⟨rfl, created, Nat.le_antisymm hle (List.drop_eq_nil_iff.1 hparams.symm)⟩, rfl⟩
    | move step | invoke step | finish step =>
      obtain ⟨⟨rfl, hcreate, hlength⟩, -⟩ := ih
      obtain ⟨fault, hfault⟩ := Dispatch.step_overflow haccepted hnot hcreate hlength
      simp [hfault] at step
    | fail => exact ⟨trivial, ih.2⟩
    | ask | goOn | trap | reject | panic => exact ih.1.elim

/-- A dispatch with an invocation fits its worker, and its arguments were mapped. -/
theorem JobRun.of_call (hkind : command.kind = .ndrange range)
    (haccepted : ∃ globals locals offsets, IndexSpace.make globals locals offsets = .ok range.space)
    (hrun : JobRun world command arena₀ stage trace) (hcalls : trace.calls ≠ []) :
    range.Fits arena₀ ∧ JobRun Resolving command arena₀ stage trace := by
  constructor
  · by_contra hnot
    simp [(hrun.unopened hkind haccepted hnot).2] at hcalls
  · exact (hrun.resolves hkind).resolve_right fun ⟨_, hempty⟩ => by simp [hempty] at hcalls

end Runs

namespace JobLife

section Turns
variable {life : JobLife} {range : NDRange}

/-! ## Turn by turn -/

theorem opening (life : JobLife) (hkind : life.command.kind = .ndrange range) (n : Nat) :
    (life.stage n).Opening range life.arena (life.trace n) := by
  have hrun : JobRun (fun _ _ => True) life.command life.arena (life.stage n) (life.trace n) :=
    life.run (fun _ _ _ _ => trivial) n
  exact hrun.opening hkind

/-- In turn `i + 1` argument `i` is looked up, if those before it were mapped. By induction on the
arguments. -/
theorem looksUp (hkind : life.command.kind = .ndrange range) {i : Nat} (hi : i ≤ range.args.length)
    (hmapped : ∀ j < i, ∀ param, range.args[j]? = some param →
      (Dispatch.bindArg (life.world (j + 1)).memory param).isSome) :
    ∃ args, args.length = i ∧
      life.stage (i + 1) = .going life.arena (.binding range (range.args.drop i) args) := by
  induction i with
  | zero =>
    have hafter : JobStage.after (Worker.stepJob (life.world 0) life.arena life.command .fresh) =
        some (.going life.arena (.binding range range.args [])) := by
      simp [Worker.stepJob, hkind, Worker.begin, JobStage.after]
    exact ⟨[], rfl, (next_of_step (n := 0) rfl hafter).1⟩
  | succ i ih =>
    obtain ⟨args, hlength, hstage⟩ := ih (by omega) fun j hj => hmapped j (by omega)
    have hlt : i < range.args.length := hi
    obtain ⟨arg, harg⟩ := Option.isSome_iff_exists.1
      (hmapped i (Nat.lt_succ_self i) _ (List.getElem?_eq_getElem hlt))
    rw [List.drop_eq_getElem_cons hlt] at hstage
    have hafter : JobStage.after (Worker.stepJob (life.world (i + 1)) life.arena life.command
        (.binding range (range.args[i] :: range.args.drop (i + 1)) args)) =
        some (.going life.arena (.binding range (range.args.drop (i + 1)) (args ++ [arg]))) := by
      simp [Worker.stepJob, harg, JobStage.after]
    exact ⟨args ++ [arg], by simp [hlength], (next_of_step hstage hafter).1⟩

/-- If arguments are mapped whenever they are looked up, all of them have been after as many turns. -/
theorem bindsAll (hkind : life.command.kind = .ndrange range)
    (hresolving : ∀ n arena job, life.stage n = .going arena job → Resolving job (life.world n)) :
    ∃ args, args.length = range.args.length ∧
      life.stage (range.args.length + 1) = .going life.arena (.binding range [] args) := by
  have hmapped : ∀ i ≤ range.args.length, ∀ j < i, ∀ param, range.args[j]? = some param →
      (Dispatch.bindArg (life.world (j + 1)).memory param).isSome := by
    intro i
    induction i with
    | zero => exact fun _ j hj => absurd hj (Nat.not_lt_zero j)
    | succ i ih =>
      intro hi j hj param hparam
      obtain hlt | rfl := Nat.lt_succ_iff_lt_or_eq.1 hj
      · exact ih (by omega) j hlt param hparam
      · obtain ⟨args, -, hstage⟩ := looksUp hkind (i := j) (by omega) (ih (by omega))
        obtain ⟨hin, rfl⟩ := List.getElem?_eq_some_iff.1 hparam
        rw [List.drop_eq_getElem_cons hin] at hstage
        exact hresolving _ _ _ hstage
  obtain ⟨args, hlength, hstage⟩ := looksUp hkind (Nat.le_refl _) (hmapped _ (Nat.le_refl _))
  rw [List.drop_length] at hstage
  exact ⟨args, hlength, hstage⟩

/-- A dispatch that is too large for its worker breaks when its first group is set up. -/
theorem breaks_of_overflow (hkind : life.command.kind = .ndrange range) (hsized : range.Sized)
    (hresolving : ∀ n arena job, life.stage n = .going arena job → Resolving job (life.world n))
    (hover : life.arena.capacity < range.localSize) :
    ∃ dispatch fault, dispatch.step life.arena = .error fault ∧
      life.stage (range.args.length + 2) = .going life.arena (.scheduling dispatch) ∧
      life.stage (range.args.length + 3) = .broken := by
  obtain ⟨args, hlength, hbound⟩ := bindsAll hkind hresolving
  have hnot : ¬ range.Fits life.arena := fun hfits => by
    have := hfits.args_fit
    omega
  -- With an arena that is large enough there would be a scheduler, and it does not depend on the arena.
  have hroom : range.Fits { life.arena with capacity := range.localSize } := hsized.fits (Nat.le_refl _)
  obtain ⟨dispatch, hcreate, -⟩ := Dispatch.create_ok hroom args
  have hmade : JobStage.after (Worker.stepJob (life.world (range.args.length + 1)) life.arena life.command
      (.binding range [] args)) = some (.going life.arena (.scheduling dispatch)) := by
    simp [Worker.stepJob, hcreate, JobStage.after]
  have hstage := (next_of_step hbound hmade).1
  obtain ⟨fault, hfault⟩ := Dispatch.step_overflow hsized.accepted hnot hcreate hlength
  refine ⟨dispatch, fault, hfault, hstage, (next_of_step hstage ?_).1⟩
  simp [Worker.stepJob, hfault, JobStage.after]

/-- A dispatch that nobody disturbs finds its arguments mapped if they are when it begins. -/
theorem alone_resolving {command : Command} {arena : LocalArena} {shared : Shared}
    (hkind : command.kind = .ndrange range)
    (hmapped : ∀ param ∈ range.args, (Dispatch.bindArg shared.memory param).isSome) :
    ∀ n arena' job, (alone command arena shared).stage n = .going arena' job →
      Resolving job ((alone command arena shared).world n) := by
  intro n arena' job hstage
  match job, hstage with
  | .fresh, _ | .native _, _ | .scheduling _, _ | .invoking .., _ | .binding _ [] _, _ => trivial
  | .binding bound (param :: params) args, hstage =>
    have hopening := (alone command arena shared).opening hkind n
    rw [hstage] at hopening
    obtain ⟨-, -, -, -, hparams⟩ := hopening
    have hparam : param ∈ range.args :=
      List.mem_of_mem_drop (i := args.length) (hparams ▸ List.mem_cons_self)
    have hbound := hmapped param hparam
    cases param with
    | localBytes | value => rfl
    | object id =>
      have hmappings := alone_mappings command arena shared hkind n
      simpa only [Resolving, Dispatch.bindArg, GlobalMemory.regionOf?, hmappings] using hbound

end Turns

end JobLife

end ComputeCore
