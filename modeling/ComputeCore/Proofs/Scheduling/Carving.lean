import ComputeCore.Proofs.Scheduling.Opening
/-!
# Carving local memory

Every group of a dispatch finds its local arguments at the same places of the arena: each of them at the
bytes after the kernel's static storage and after the local arguments before it. The scheduler resets the
arena whenever it sets up a group, so it does not matter what the arena was used for before.

`Dispatch.Carves` is what the scheduler keeps of this at every step (`Carves.move`), and
`JobRun.carves` what its invocations are shown.
-/

namespace ComputeCore

namespace NDRange

/-! ## The layout -/

/-- The static storage of the kernel, at the bottom of the arena. -/
def staticRegion (range : NDRange) (arena : LocalArena) : Region :=
  { start := arena.base, size := range.kernel.staticLocal }

/-- Where the local argument at place `n` lies: after the static storage and the local arguments before
it. -/
def localRegion (range : NDRange) (arena : LocalArena) (n size : Nat) : Region :=
  { start := arena.base.advance (range.localOffset n), size }

/-- The static storage and the local arguments are apart from each other, and inside the arena. -/
structure LaidOut (range : NDRange) (arena : LocalArena) : Prop where
  static_inside : arena.region.covers 0 range.kernel.staticLocal = true
  inside : ∀ n size : Nat, range.args[n]? = some (.localBytes size) →
    arena.region.covers (range.localOffset n) size = true
  static_apart : ∀ n size : Nat, range.args[n]? = some (.localBytes size) →
    (range.staticRegion arena).overlaps (range.localRegion arena n size) = false
  apart : ∀ m n size size' : Nat, m ≠ n → range.args[m]? = some (.localBytes size) →
    range.args[n]? = some (.localBytes size') →
    (range.localRegion arena m size).overlaps (range.localRegion arena n size') = false

variable {range : NDRange} {arena : LocalArena}

theorem static_le_localOffset (n : Nat) : range.kernel.staticLocal ≤ range.localOffset n :=
  Nat.le_add_right _ _

/-- A local argument ends before every later one. -/
theorem localOffset_add_le {m n size : Nat} (hlt : m < n)
    (hm : range.args[m]? = some (.localBytes size)) :
    range.localOffset m + size ≤ range.localOffset n := by
  obtain ⟨more, rfl⟩ := Nat.exists_eq_add_of_lt hlt
  obtain ⟨hin, hget⟩ := List.getElem?_eq_some_iff.1 hm
  have htake : range.args.take (m + more + 1) =
      range.args.take m ++ .localBytes size :: (range.args.drop (m + 1)).take more := by
    rw [Nat.add_assoc, List.take_add, List.drop_eq_getElem_cons hin, hget, List.take_succ_cons]
  simp only [localOffset, htake, List.map_append, List.map_cons, List.sum_append, List.sum_cons,
    KernelArg.localSize]
  omega

theorem laidOut (hfits : range.localSize ≤ arena.capacity) : range.LaidOut arena where
  static_inside := by
    refine decide_eq_true ?_
    show 0 + range.kernel.staticLocal ≤ arena.capacity
    simp only [localSize] at hfits
    omega
  inside n size hn :=
    decide_eq_true ((localOffset_le hn).trans hfits)
  static_apart n size hn := by
    have : range.kernel.staticLocal ≤ range.localOffset n := static_le_localOffset n
    simp only [Region.overlaps, staticRegion, localRegion, Address.advance, decide_eq_false_iff_not]
    omega
  apart m n size size' hne hm hn := by
    simp only [Region.overlaps, localRegion, Address.advance, decide_eq_false_iff_not]
    rcases Nat.lt_or_gt_of_ne hne with hlt | hgt
    · have := localOffset_add_le hlt hm
      omega
    · have := localOffset_add_le hgt hn
      omega

end NDRange

/-! ## The scheduler -/

/-- The parts of a scheduler that no step changes, and where the local arguments of a group that is set up
are. -/
structure Dispatch.Carves (dispatch : Dispatch) (range : NDRange) (arena₀ arena : LocalArena) : Prop where
  kernel : dispatch.kernel = range.kernel
  params : dispatch.params = range.args
  length : dispatch.args.length = range.args.length
  region : arena.region = arena₀.region
  locals : dispatch.stage ≠ .entering → ∀ n size : Nat, range.args[n]? = some (.localBytes size) →
    dispatch.args[n]? = some (.localRegion (range.localRegion arena₀ n size))

/-- What the kernel is shown of the local memory of its group. -/
structure Call.Carved (call : Call) (range : NDRange) (arena : LocalArena) : Prop where
  localMemory : call.item.localMemory = arena.region
  locals : ∀ n size : Nat, range.args[n]? = some (.localBytes size) →
    call.item.localArg? n = some (range.localRegion arena n size)

namespace Dispatch

variable {range : NDRange} {dispatch next : Dispatch} {arena₀ arena arena' : LocalArena} {turn : Turn}

theorem carves_create {args : List BoundArg} (hcreate : create range args = .ok dispatch)
    (hlength : args.length = range.args.length) : dispatch.Carves range arena₀ arena₀ := by
  obtain ⟨hkernel, hparams, rfl, -, hstage⟩ := create_args hcreate
  exact ⟨hkernel, hparams, hlength, rfl, fun hne => absurd hstage hne⟩

/-- A group that is set up has its local arguments where every other group has them. -/
theorem Carves.enter (h : dispatch.Carves range arena₀ arena)
    (henter : dispatch.enterGroup arena = .ok (next, arena')) : next.Carves range arena₀ arena' := by
  obtain ⟨hcarve, hkernel, hparams, -⟩ := enterGroup_args henter
  obtain ⟨hlength, hregion, hlocal, -⟩ := carve_args _ _ _ _ _ hcarve (by rw [h.length, h.params])
  refine ⟨hkernel.trans h.kernel, hparams.trans h.params, by rw [hlength, h.params],
    hregion.trans h.region, fun _ n size hn => ?_⟩
  have hbase : arena.base = arena₀.base := congrArg Region.start h.region
  rw [hlocal n size (h.params ▸ hn), h.kernel, h.params, hbase]
  rfl

theorem Carves.move (h : dispatch.Carves range arena₀ arena) (hmove : dispatch.Move arena next arena') :
    next.Carves range arena₀ arena' := by
  cases hmove with
  | enter hstage hgroup henter => exact h.enter henter
  | skip hstage | nextPass hstage => exact { h with locals := fun _ => h.locals (by simp [hstage]) }
  | leave hstage => exact { h with locals := fun hne => absurd rfl hne }

theorem Carves.accept {outcome : Outcome} {frame : Frame} (h : dispatch.Carves range arena₀ arena)
    (hstage : dispatch.stage ≠ .entering)
    (haccept : dispatch.accept turn outcome frame = .ok (.goOn next)) : next.Carves range arena₀ arena := by
  obtain ⟨remaining, frames, finished, rfl⟩ := goOn_of_accept haccept
  exact { h with locals := fun _ => h.locals hstage }

/-- The kernel is shown the arguments of its group, and the arena for its static storage. -/
theorem Carves.carved {item : WorkItem} {frame : Frame} {moment : Moment}
    (h : dispatch.Carves range arena₀ arena) (hstep : dispatch.step arena = .ok (.invoke turn item frame)) :
    Call.Carved { moment, item, frame } range arena₀ := by
  obtain ⟨hstage, hargs, hmemory⟩ := invoke_of_step hstep
  refine ⟨hmemory.trans h.region, fun n size hn => ?_⟩
  simp [WorkItem.localArg?, hargs, h.locals (by simp [hstage]) n size hn]

end Dispatch

/-! ## Every run -/

/-- What the scheduler keeps at the stages of a job. -/
def JobStage.Carves (range : NDRange) (arena₀ : LocalArena) : JobStage → Prop
  | .going arena (.scheduling dispatch) => dispatch.Carves range arena₀ arena
  | .going arena (.invoking dispatch _ _) =>
    dispatch.Carves range arena₀ arena ∧ dispatch.stage ≠ .entering
  | _ => True

section Runs
variable {world : Job → Shared → Prop} {command : Command} {range : NDRange} {arena₀ : LocalArena}
  {stage : JobStage} {trace : Trace}

/-- Every invocation of a dispatch, in whatever group, is shown its local arguments at their places. By
induction on the run. -/
theorem JobRun.carves (hkind : command.kind = .ndrange range)
    (hrun : JobRun world command arena₀ stage trace) :
    stage.Carves range arena₀ ∧ ∀ call ∈ trace.calls, call.Carved range arena₀ := by
  induction hrun with
  | begun => exact ⟨trivial, by simp⟩
  | step hbefore shared hworld hstep ih =>
    rename_i arena job trace stage
    obtain ⟨hcarves, hcalls⟩ := ih
    have hopening := hbefore.opening hkind
    have hnext := JobStage.next_of_after trace hstep
    generalize trace.record arena job = trace' at hnext ⊢
    cases hnext with
    | serve kind => exact absurd hkind (kind range)
    | create created =>
      obtain ⟨rfl, rfl, rfl, hle, hparams⟩ := hopening
      exact ⟨Dispatch.carves_create created (Nat.le_antisymm hle (List.drop_eq_nil_iff.1 hparams.symm)), hcalls⟩
    | move step => exact ⟨hcarves.move (Dispatch.move_of_step step), hcalls⟩
    | invoke step =>
      refine ⟨⟨hcarves, by simp [(Dispatch.invoke_of_step step).1]⟩, fun call hcall => ?_⟩
      rcases List.mem_append.1 hcall with hcall | hcall
      · exact hcalls call hcall
      · exact List.mem_singleton.1 hcall ▸ hcarves.carved step
    | ask => exact ⟨hcarves, hcalls⟩
    | goOn accepted => exact ⟨hcarves.1.accept hcarves.2 accepted, hcalls⟩
    | _ => exact ⟨trivial, hcalls⟩

end Runs

end ComputeCore
