import ComputeCore.Proofs.Memory.Arena
import ComputeCore.Proofs.Scheduling.JobRun
/-!
# The scheduler's steps

What one step of a dispatch can come to, by the stage it is taken in: `Dispatch.Move` has one case for
each way on to the next invocation. A group gets its local arguments one after the other, each of them
the bytes after those of the arguments before it (`Dispatch.carve_args`).
-/

namespace ComputeCore

/-! ## The arguments of a group -/

/-- The bytes of local memory set aside before argument `n`. -/
def NDRange.localOffset (range : NDRange) (n : Nat) : Nat :=
  range.kernel.staticLocal + ((range.args.take n).map KernelArg.localSize).sum

theorem NDRange.localOffset_le {range : NDRange} {n size : Nat}
    (h : range.args[n]? = some (.localBytes size)) : range.localOffset n + size ≤ range.localSize := by
  obtain ⟨hn, hget⟩ := List.getElem?_eq_some_iff.1 h
  have hsplit := List.take_append_drop n range.args
  rw [List.drop_eq_getElem_cons hn, hget] at hsplit
  have hsum := congrArg (fun args => (args.map KernelArg.localSize).sum) hsplit
  simp only [List.map_append, List.sum_append, List.map_cons, List.sum_cons,
    KernelArg.localSize] at hsum
  simp only [localOffset, localSize]
  omega

namespace Dispatch

/-- Carving takes the bytes of the first argument off the arena, and goes on with the others. -/
theorem carve_cons {param : KernelArg} {params : List KernelArg} {arg : BoundArg}
    {args args' : List BoundArg} {arena arena' : LocalArena}
    (h : carve (param :: params) (arg :: args) arena = .ok (args', arena')) :
    ∃ first rest arena₁, args' = first :: rest ∧ carve params args arena₁ = .ok (rest, arena') ∧
      arena₁.region = arena.region ∧ arena₁.used = arena.used + param.localSize ∧
      (∀ size, param = .localBytes size →
        first = .localRegion { start := arena.base.advance arena.used, size }) ∧
      ∀ id, param = .object id → first = arg := by
  cases param with
  | localBytes size =>
    simp only [carve] at h
    cases halloc : arena.alloc size with
    | error fault => simp [halloc, bind, Except.bind] at h
    | ok carved =>
      obtain ⟨start, arena₁⟩ := carved
      obtain ⟨rfl, rfl⟩ := LocalArena.alloc_eq_ok halloc
      cases hrest : carve params args { arena with used := arena.used + size } with
      | error fault => simp [halloc, hrest, bind, Except.bind] at h
      | ok rest =>
        simp only [halloc, hrest, bind, Except.bind, pure, Except.pure, Except.ok.injEq, Prod.mk.injEq] at h
        obtain ⟨rfl, rfl⟩ := h
        exact ⟨_, _, _, rfl, hrest, rfl, rfl, by simp, by simp⟩
  | object | value =>
    simp only [carve] at h
    cases hrest : carve params args arena with
    | error fault => simp [hrest, bind, Except.bind] at h
    | ok rest =>
      simp only [hrest, bind, Except.bind, pure, Except.pure, Except.ok.injEq, Prod.mk.injEq] at h
      obtain ⟨rfl, rfl⟩ := h
      exact ⟨_, _, _, rfl, hrest, rfl, rfl, by simp, by simp⟩

/-- Carving gives each local argument the bytes after those of the arguments before it, and leaves
objects as they are. By induction on the arguments. -/
theorem carve_args (params : List KernelArg) :
    ∀ (args args' : List BoundArg) (arena arena' : LocalArena),
      carve params args arena = .ok (args', arena') → args.length = params.length →
      args'.length = params.length ∧ arena'.region = arena.region ∧
      (∀ n size : Nat, params[n]? = some (.localBytes size) → args'[n]? = some (.localRegion
        { start := arena.base.advance (arena.used + ((params.take n).map KernelArg.localSize).sum), size })) ∧
      ∀ (n : Nat) (id : ObjectId), params[n]? = some (.object id) → args'[n]? = args[n]? := by
  induction params with
  | nil =>
    intro args args' arena arena' h hlen
    obtain rfl : args = [] := List.length_eq_zero_iff.1 hlen
    cases h
    simp
  | cons param params ih =>
    intro args args' arena arena' h hlen
    obtain ⟨arg, args, rfl⟩ := List.exists_cons_of_length_eq_add_one hlen
    obtain ⟨first, rest, arena₁, rfl, hrest, hregion, hused, hfirst, hkept⟩ := carve_cons h
    obtain ⟨hlength, hregion', hlocal, hobject⟩ := ih args rest arena₁ arena' hrest (by simpa using hlen)
    have hbase : arena₁.base = arena.base := congrArg Region.start hregion
    refine ⟨by simp [hlength], hregion'.trans hregion, fun n size hn => ?_, fun n id hn => ?_⟩
    · cases n with
      | zero => simpa using hfirst size (by simpa using hn)
      | succ n =>
        have := hlocal n size (by simpa using hn)
        rw [hbase, hused] at this
        simpa [Nat.add_assoc] using this
    · cases n with
      | zero => simpa using hkept id (by simpa using hn)
      | succ n => simpa using hobject n id (by simpa using hn)

theorem enterGroup_args {dispatch next : Dispatch} {arena arena' : LocalArena}
    (h : dispatch.enterGroup arena = .ok (next, arena')) :
    carve dispatch.params dispatch.args { arena with used := dispatch.kernel.staticLocal } =
      .ok (next.args, arena') ∧ next.kernel = dispatch.kernel ∧ next.params = dispatch.params ∧
      next.group = dispatch.group := by
  cases hstart : dispatch.space.groupStart dispatch.group with
  | error fault => simp [enterGroup, hstart, bind, Except.bind] at h
  | ok start =>
    cases hreset : arena.reset dispatch.kernel.staticLocal with
    | error fault => simp [enterGroup, hstart, hreset, bind, Except.bind] at h
    | ok arena₁ =>
      obtain rfl := LocalArena.reset_eq_ok hreset
      cases hcarve : carve dispatch.params dispatch.args
          { arena with used := dispatch.kernel.staticLocal } with
      | error fault => simp [enterGroup, hstart, hreset, hcarve, bind, Except.bind] at h
      | ok carved =>
        simp only [enterGroup, hstart, hreset, hcarve, bind, Except.bind, pure, Except.pure, Except.ok.injEq,
          Prod.mk.injEq] at h
        obtain ⟨rfl, rfl⟩ := h
        exact ⟨rfl, rfl, rfl, rfl⟩

theorem create_args {range : NDRange} {args : List BoundArg} {dispatch : Dispatch}
    (h : create range args = .ok dispatch) : dispatch.kernel = range.kernel ∧
      dispatch.params = range.args ∧ dispatch.args = args ∧ dispatch.group = 0 ∧
      dispatch.stage = .entering := by
  cases hper : range.space.itemsPerGroup with
  | error fault => simp [create, hper, bind, Except.bind] at h
  | ok perGroup =>
    cases hfits : Size.fitsArray perGroup frameWidth with
    | error fault => simp [create, hper, hfits, bind, Except.bind] at h
    | ok fits =>
      cases htotal : range.space.totalGroups with
      | error fault => simp [create, hper, hfits, htotal, bind, Except.bind] at h
      | ok totalGroups =>
        simp only [create, hper, hfits, htotal, bind, Except.bind, pure, Except.pure,
          Except.ok.injEq] at h
        subst h
        exact ⟨rfl, rfl, rfl, rfl, rfl⟩

section Steps
variable {dispatch next : Dispatch} {arena arena' : LocalArena} {turn : Turn}

/-! ## Steps -/

/-- The steps of the scheduler between two invocations. -/
inductive Move (dispatch : Dispatch) (arena : LocalArena) : Dispatch → LocalArena → Prop
  | enter {next : Dispatch} {arena' : LocalArena} : dispatch.stage = .entering →
      dispatch.group < dispatch.totalGroups → dispatch.enterGroup arena = .ok (next, arena') →
      dispatch.Move arena next arena'
  | skip {turn : Turn} : dispatch.stage = .passing turn → turn.index < dispatch.perGroup →
      dispatch.finished.getD turn.index false = true →
      dispatch.Move arena { dispatch with stage := .passing turn.next } arena
  | nextPass {turn : Turn} : dispatch.stage = .passing turn → ¬ turn.index < dispatch.perGroup →
      0 < dispatch.remaining → dispatch.Move arena { dispatch with
        pass := dispatch.pass + 1, stage := .passing { cursor := dispatch.start, index := 0 } } arena
  | leave {turn : Turn} : dispatch.stage = .passing turn → ¬ turn.index < dispatch.perGroup →
      ¬ 0 < dispatch.remaining →
      dispatch.Move arena { dispatch with group := dispatch.group + 1, stage := .entering } arena

theorem move_of_step (hstep : dispatch.step arena = .ok (.moved next arena')) :
    dispatch.Move arena next arena' := by
  cases hstage : dispatch.stage with
  | entering =>
    by_cases hgroup : dispatch.group < dispatch.totalGroups
    · cases henter : dispatch.enterGroup arena with
      | error fault => simp [step, hstage, hgroup, henter, bind, Except.bind] at hstep
      | ok entered =>
        simp only [step, hstage, if_pos hgroup, henter, bind, Except.bind, pure, Except.pure,
          Except.ok.injEq, DispatchStep.moved.injEq] at hstep
        obtain ⟨rfl, rfl⟩ := hstep
        exact .enter hstage hgroup henter
    · simp [step, hstage, hgroup] at hstep
  | passing turn =>
    simp only [step, hstage] at hstep
    by_cases hlt : turn.index < dispatch.perGroup
    · cases hflag : dispatch.finished.getD turn.index false with
      | true =>
        rw [if_pos hlt, if_pos hflag] at hstep
        cases hstep
        exact .skip hstage hlt hflag
      | false => simp [hlt, hflag] at hstep
    · by_cases hremaining : 0 < dispatch.remaining
      · rw [if_neg hlt, if_pos hremaining] at hstep
        cases hstep
        exact .nextPass hstage hlt hremaining
      · rw [if_neg hlt, if_neg hremaining] at hstep
        cases hstep
        exact .leave hstage hlt hremaining

theorem invoke_of_step {item : WorkItem} {frame : Frame}
    (hstep : dispatch.step arena = .ok (.invoke turn item frame)) :
    dispatch.stage = .passing turn ∧ item.args = dispatch.args ∧ item.localMemory = arena.region := by
  cases hstage : dispatch.stage with
  | entering =>
    by_cases hgroup : dispatch.group < dispatch.totalGroups
    · cases henter : dispatch.enterGroup arena <;>
        simp [step, hstage, hgroup, henter, bind, Except.bind, pure, Except.pure] at hstep
    · simp [step, hstage, hgroup] at hstep
  | passing turn' =>
    simp only [step, hstage] at hstep
    split at hstep
    · split at hstep
      · cases hstep
      · cases hstep
        exact ⟨rfl, rfl, rfl⟩
    · split at hstep <;> cases hstep

theorem goOn_of_accept {outcome : Outcome} {frame : Frame}
    (haccept : dispatch.accept turn outcome frame = .ok (.goOn next)) :
    ∃ remaining frames finished, next =
      { dispatch with remaining, frames, finished, stage := .passing turn.next } := by
  cases outcome with
  | trap status => simp [accept] at haccept
  | barrier resumeAt =>
    cases haccept
    exact ⟨_, _, _, rfl⟩
  | done =>
    cases hsub : Size.sub dispatch.remaining 1 with
    | error fault => simp [accept, hsub, bind, Except.bind] at haccept
    | ok remaining =>
      simp only [accept, hsub, bind, Except.bind, pure, Except.pure, Except.ok.injEq,
        Verdict.goOn.injEq] at haccept
      exact ⟨_, _, _, haccept.symm⟩

theorem Move.kernel_eq (hmove : dispatch.Move arena next arena') : next.kernel = dispatch.kernel := by
  cases hmove with
  | enter hstage hgroup henter => exact (enterGroup_args henter).2.1
  | skip | nextPass | leave => rfl

end Steps

end Dispatch

end ComputeCore
