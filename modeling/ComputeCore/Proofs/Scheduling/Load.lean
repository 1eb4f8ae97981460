import Mathlib.Data.List.Perm.Subperm
import Mathlib.Logic.Relation
import ComputeCore.Proofs.Scheduling.Pool
/-!
# The load of a worker

Four places change the load of a worker, none of them under the lock of its queue. The load counts
exactly the commands that are in the queue, the one that was taken out and is not taken off yet, and
those that calls of `submit` have announced and neither pushed nor taken back (`Site.counted`). Each of
them is counted once, so there are never more than a size can hold, and counting down never wraps round.

`Site.load_exact` says this of everything that a new worker can come to.
-/

namespace ComputeCore

theorem Size.pred_of_pos {n : Nat} (hpos : 0 < n) (hlt : n < limit) : pred n + 1 = n := by
  obtain ⟨m, rfl⟩ : ∃ m, n = m + 1 := ⟨n - 1, by omega⟩
  have hpred := pred_mod m
  rw [Nat.mod_eq_of_lt hlt, Nat.mod_eq_of_lt (by omega)] at hpred
  rw [hpred]

/-- A counter that has handed the identity out has not come round. -/
def CommandId.Countable (id : CommandId) : Prop :=
  id.raw + 1 < Size.limit

/-- The command a worker has taken out of its queue and not taken off its load. -/
def Phase.uncounted : Phase → Option Command
  | .running command _ | .failing command | .uncounting command _ _ => some command
  | _ => none

theorem Phase.length_uncounted (phase : Phase) : phase.uncounted.toList.length = phase.counted := by
  cases phase <;> rfl

/-- What a worker has in hand is either about to be reported or still on its load. -/
theorem Worker.inHand_eq (worker : Worker) : worker.phase.inHand.toList =
    worker.reporting?.toList ++ worker.phase.uncounted.toList := by
  cases hphase : worker.phase <;> simp [reporting?, hphase, Phase.inHand, Phase.uncounted]

namespace Site

/-- The commands that calls have announced and neither pushed nor taken back. -/
def underWay (site : Site) : List Command :=
  (site.calls.filter (·.stage.announced = 1)).map SubmitCall.command

/-- The commands that the load counts. -/
def counted (site : Site) : List Command :=
  site.worker.phase.uncounted.toList ++ site.worker.queue.pending ++ site.underWay

/-- The next step of some thread may be to count a command off. -/
def CountsOff (site : Site) : Prop :=
  (∃ call ∈ site.calls, call.stage = .withdrawing) ∨
    ∃ command ending healthy, site.worker.phase = .uncounting command ending healthy

/-- The load of a worker is what it has to be. -/
structure LoadExact (site : Site) : Prop where
  load : site.worker.load = site.counted.length
  /-- The commands in the queue, the one that was taken out and not taken off, and those of the calls
  between their announcement and the end of their push. -/
  parts : site.worker.load =
    site.worker.queue.pending.length + site.worker.phase.counted + announced site.calls
  /-- Counting a command off does not wrap round. -/
  countsOff : site.CountsOff → Size.pred site.worker.load + 1 = site.worker.load
  /-- Nothing is left on it when no call is under way and all that was accepted is reported. -/
  idle : (∀ call ∈ site.calls, call.stage = .accepted ∨ call.stage = .refused) →
    site.reported = site.accepted → site.worker.load = 0
  /-- A command whose end is reported, or about to be, is not counted. -/
  uncounted : ∀ command, command ∈ site.reported ∨ site.worker.reporting? = some command →
    command.id ∉ site.counted.map Command.id

section Counting
variable {site site' : Site}

theorem length_underWay (site : Site) : site.underWay.length = announced site.calls := by
  unfold underWay announced
  rw [List.length_map]
  induction site.calls with
  | nil => rfl
  | cons call calls ih =>
    have hstage : call.stage.announced = 0 ∨ call.stage.announced = 1 := by
      cases call.stage <;> simp [SubmitStage.announced]
    rcases hstage with hstage | hstage <;> simp [hstage, ih, Nat.add_comm]

theorem length_counted (site : Site) : site.counted.length = site.burden := by
  simp only [counted, burden, List.length_append, length_underWay, Phase.length_uncounted]
  omega

theorem Sound.counted_eq (h : Sound site) :
    site.reported ++ site.worker.reporting?.toList ++ site.counted = site.accepted ++ site.underWay := by
  simp only [h.order, Worker.outstanding, Worker.inHand_eq, counted, List.append_assoc]

/-- What is reported, about to be reported or counted are different commands. -/
theorem Sound.counted_once (h : Sound site) :
    ((site.reported ++ site.worker.reporting?.toList ++ site.counted).map Command.id).Nodup := by
  have hcalls : (site.underWay.map Command.id).Nodup := by
    refine h.distinct.sublist ?_
    simpa [underWay, Function.comp_def] using
      (List.filter_sublist (l := site.calls)).map fun call => call.command.id
  rw [h.counted_eq, List.map_append]
  refine List.nodup_append.2 ⟨h.unique, hcalls, fun id haccepted other hother => ?_⟩
  obtain ⟨command, hcommand, rfl⟩ := List.mem_map.1 hother
  obtain ⟨call, hcall, rfl⟩ := List.mem_map.1 hcommand
  obtain ⟨hcall, hstage⟩ := List.mem_filter.1 hcall
  rintro rfl
  refine h.id_notMem hcall (fun hdone => ?_) haccepted
  simp [hdone, SubmitStage.announced] at hstage

theorem Sound.mem_calls_of_counted (h : Sound site) {command : Command} (hcounted : command ∈ site.counted) :
    ∃ call ∈ site.calls, call.command = command := by
  have hmem : command ∈ site.accepted ++ site.underWay :=
    h.counted_eq ▸ List.mem_append_right _ hcounted
  rcases List.mem_append.1 hmem with haccepted | hunderWay
  · exact ⟨_, (h.agreed command).1 haccepted, rfl⟩
  · obtain ⟨call, hcall, rfl⟩ := List.mem_map.1 hunderWay
    exact ⟨call, (List.mem_filter.1 hcall).1, rfl⟩

/-- There are not more commands than numbers for them. -/
theorem Sound.counted_lt (h : Sound site) (hids : ∀ call ∈ site.calls, call.command.id.Countable) :
    site.counted.length < Size.limit := by
  have hnodup : (site.counted.map (·.id.raw)).Nodup := by
    have honce := h.counted_once
    rw [List.map_append] at honce
    have hraw : Function.Injective CommandId.raw := by
      rintro ⟨raw⟩ ⟨other⟩ rfl
      rfl
    simpa [Function.comp_def] using (List.nodup_append.1 honce).2.1.map hraw
  have hrange : site.counted.map (·.id.raw) ⊆ List.range (Size.limit - 1) := by
    intro raw hraw
    obtain ⟨command, hcommand, rfl⟩ := List.mem_map.1 hraw
    obtain ⟨call, hcall, rfl⟩ := h.mem_calls_of_counted hcommand
    have hcountable : call.command.id.raw + 1 < Size.limit := hids call hcall
    exact List.mem_range.2 (by omega)
  have hlength := (List.subperm_of_subset hnodup hrange).length_le
  rw [List.length_map, List.length_range] at hlength
  have hlimit : 0 < Size.limit := by decide
  omega

theorem Counted.exact (h : Counted site) (hlt : site.counted.length < Size.limit) :
    site.worker.load = site.counted.length := by
  rw [h, ← length_counted, Nat.mod_eq_of_lt hlt]

theorem announced_pos {call : SubmitCall} (hcall : call ∈ site.calls) (hstage : call.stage.announced = 1) :
    0 < site.counted.length := by
  have hmem : call.command ∈ site.counted :=
    List.mem_append_right _ (List.mem_map_of_mem (List.mem_filter.2 ⟨hcall, by simpa using hstage⟩))
  exact List.length_pos_of_mem hmem

theorem CountsOff.counted_pos (h : site.CountsOff) : 0 < site.counted.length := by
  rcases h with ⟨call, hcall, hstage⟩ | ⟨command, ending, healthy, hphase⟩
  · exact announced_pos hcall (by rw [hstage]; rfl)
  · simp [counted, hphase, Phase.uncounted]

/-- Everything a new worker can come to is sound, and its load counts what it has to. -/
theorem sound_counted_of_fresh {shared : Shared} {worker : Worker} (fresh : worker.Fresh)
    (run : Relation.ReflTransGen Step { shared, worker } site) : Sound site ∧ Counted site := by
  induction run with
  | refl =>
    refine ⟨(Reachable.start shared worker fresh.phase fresh.queue).sound, ?_⟩
    simp [Counted, burden, announced, fresh.phase, fresh.queue, fresh.load, Phase.counted]
  | tail _ step ih => exact ⟨ih.1.step step, ih.2.step step⟩

/-- Whatever the threads that submit to a new worker and close its queue do, and in whatever order they
and the worker take their steps, the load of the worker is exact. -/
theorem load_exact {shared : Shared} {worker : Worker} (fresh : worker.Fresh)
    (run : Relation.ReflTransGen Step { shared, worker } site)
    (ids : ∀ call ∈ site.calls, call.command.id.Countable) : site.LoadExact := by
  obtain ⟨hsound, hcounted⟩ := sound_counted_of_fresh fresh run
  have hlt := hsound.counted_lt ids
  have hload := hcounted.exact hlt
  refine ⟨hload, ?_, fun hoff => ?_, fun hcalls hreported => ?_, fun command hover => ?_⟩
  · rw [hload, length_counted, burden]
    omega
  · exact Size.pred_of_pos (hload ▸ hoff.counted_pos) (hload ▸ hlt)
  · -- All that was accepted is reported, so nothing is outstanding, and no call has announced more.
    have hunderWay : site.underWay = [] := by
      simp only [underWay, List.map_eq_nil_iff, List.filter_eq_nil_iff]
      intro call hcall
      rcases hcalls call hcall with hstage | hstage <;> simp [hstage, SubmitStage.announced]
    have heq := hsound.counted_eq
    rw [hunderWay, List.append_nil, hreported, List.append_assoc, List.append_right_eq_self,
      List.append_eq_nil_iff] at heq
    rw [hload, heq.2, List.length_nil]
  · have honce := hsound.counted_once
    rw [List.map_append] at honce
    refine fun hmem => (List.nodup_append.1 honce).2.2 command.id ?_ command.id hmem rfl
    refine List.mem_map_of_mem (List.mem_append.2 (hover.imp_right fun hreporting => ?_))
    rw [hreporting]
    exact List.mem_singleton_self command

end Counting

/-- A worker with one command in hand, one in its queue and one that is being submitted. -/
theorem load_exact_three : ∃ site : Site,
    Relation.ReflTransGen Step { shared := default, worker := { id := 0, core := 0, arena := default } } site ∧
      site.LoadExact ∧ site.worker.load = 3 ∧
      site.calls.map SubmitCall.stage = [.accepted, .accepted, .pushing] := by
  have hrun := Relation.ReflTransGen.refl (r := Step)
    (a := { shared := default, worker := { id := 0, core := 0, arena := default } })
    |>.tail (.call { id := ⟨0⟩, kind := .service .marker } (by simp))
    |>.tail (.announce (n := 0) rfl) |>.tail (.push (n := 0) rfl rfl) |>.tail (.work rfl rfl)
    |>.tail (.call { id := ⟨1⟩, kind := .service .marker } (by simp))
    |>.tail (.announce (n := 1) rfl) |>.tail (.push (n := 1) rfl rfl)
    |>.tail (.call { id := ⟨2⟩, kind := .service .marker } (by simp))
    |>.tail (.announce (n := 2) rfl)
  have hexact := load_exact ⟨rfl, rfl, rfl⟩ hrun (by simp [CommandId.Countable, Size.limit])
  exact ⟨_, hrun, hexact, rfl, rfl⟩

end Site

end ComputeCore
