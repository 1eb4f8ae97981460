import Mathlib.Data.List.Nodup
import ComputeCore.Proofs.Scheduling.Thread
/-!
# Completion

One worker, any number of threads that submit commands to it, and any number that close its queue.
`Site.Step` interleaves them freely: a submit announces its command, pushes it, and takes the
announcement back if the queue was closed; a close marks the queue as closed and then wakes the
worker; and whatever else goes on may change what workers share.

`Site.Reachable.completions` is what holds at every moment: commands are reported in the order in
which they were accepted, each one once, and a worker that has stopped has reported all of them. What
the sink is told in a run is what a recorder that listens takes down (`Site.Undisturbed.notes`).
-/

namespace ComputeCore

/-! ## The threads round a worker -/

/-- How far a call of `submit` is. -/
inductive SubmitStage where
  | announcing
  | pushing
  /-- The queue was closed, and the announcement is about to be taken back. -/
  | withdrawing
  | accepted
  | refused

/-- A call of `submit`. -/
structure SubmitCall where
  command : Command
  stage : SubmitStage := .announcing

/-- A worker, the threads that submit to it and close it, and what has happened so far. -/
structure Site where
  shared : Shared
  worker : Worker
  /-- The worker's thread is asleep in `pop`. -/
  parked : Bool := false
  /-- How many calls of `close` have marked the queue and are about to wake the worker. -/
  wakeUps : Nat := 0
  calls : List SubmitCall := []
  /-- The commands that were pushed, in order. -/
  accepted : List Command := []
  /-- The commands that were begun, in order. -/
  executed : List Command := []
  /-- The commands whose end the sink was told, in order. -/
  reported : List Command := []

/-- What a recorder took down about some commands. -/
def Shared.notes (shared : Shared) (own : CommandId → Bool) : List Report :=
  shared.reports.toList.filter fun report => own report.command

namespace Site

/-- One step of one thread. -/
inductive Step : Site → Site → Prop
  /-- Somebody submits a command. Commands are not copied, so each one is submitted once. -/
  | call {site} (command : Command) (fresh : ∀ call ∈ site.calls, call.command.id ≠ command.id) :
      Step site { site with calls := site.calls ++ [{ command }] }
  | announce {site n command} (call : site.calls[n]? = some ⟨command, .announcing⟩) :
      Step site { site with
        worker := site.worker.announce
        calls := site.calls.set n ⟨command, .pushing⟩ }
  /-- A push wakes the worker before it lets go of the queue. -/
  | push {site n command queue} (call : site.calls[n]? = some ⟨command, .pushing⟩)
      (pushed : site.worker.queue.push? command = some queue) :
      Step site { site with
        worker := { site.worker with queue }
        parked := false
        calls := site.calls.set n ⟨command, .accepted⟩
        accepted := site.accepted ++ [command] }
  | turnDown {site n command} (call : site.calls[n]? = some ⟨command, .pushing⟩)
      (closed : site.worker.queue.push? command = none) :
      Step site { site with calls := site.calls.set n ⟨command, .withdrawing⟩ }
  | withdraw {site n command} (call : site.calls[n]? = some ⟨command, .withdrawing⟩) :
      Step site { site with
        worker := site.worker.withdraw
        calls := site.calls.set n ⟨command, .refused⟩ }
  | close {site} :
      Step site { site with worker := site.worker.close, wakeUps := site.wakeUps + 1 }
  | wake {site n} (due : site.wakeUps = n + 1) :
      Step site { site with parked := false, wakeUps := n }
  | work {site shared worker} (awake : site.parked = false)
      (step : site.worker.step? site.shared = some (shared, worker)) :
      Step site { site with
        shared
        worker
        executed := site.executed ++ site.worker.starting?.toList
        reported := site.reported ++ site.worker.reporting?.toList }
  /-- With nothing to take out of an open queue the worker falls asleep. -/
  | park {site} (pops : site.worker.phase.Pops) (blocked : site.worker.step? site.shared = none) :
      Step site { site with parked := true }
  /-- Other threads change what workers share. -/
  | meanwhile {site} (shared : Shared) : Step site { site with shared }

/-- What a worker that has just been started can come to. -/
inductive Reachable : Site → Prop
  | start (shared : Shared) (worker : Worker) : worker.phase = .fetching → worker.queue = {} →
      Reachable { shared, worker }
  | step {site site' : Site} : Reachable site → Step site site' → Reachable site'

/-- The worker sleeps in `pop`, and nobody who has already closed the queue is about to wake it. -/
def Asleep (site : Site) : Prop :=
  site.parked = true ∧ site.wakeUps = 0

/-! ## The invariant -/

/-- What is true of a site at every moment. -/
structure Sound (site : Site) : Prop where
  /-- No command is lost, and none overtakes another. -/
  order : site.accepted = site.reported ++ site.worker.outstanding
  /-- A worker that trusts itself has begun all it has taken out of the queue. -/
  begun : ∃ failed, site.accepted = site.executed ++ failed ++ site.worker.queue.pending ∧
    (site.worker.phase.trusted = true → failed = [])
  closed : site.worker.phase.trusted = false → site.worker.queue.closed = true
  stopped : site.worker.phase = .stopped → site.worker.outstanding = []
  parked : site.parked = true → site.worker.queue.pending = [] ∧
    (site.worker.queue.closed = true → 0 < site.wakeUps)
  distinct : (site.calls.map fun call => call.command.id).Nodup
  unique : (site.accepted.map Command.id).Nodup
  /-- A command is accepted exactly if its call says so. -/
  agreed : ∀ command, command ∈ site.accepted ↔ ⟨command, .accepted⟩ ∈ site.calls

section Steps
variable {site site' : Site}

/-! ### Calls of submit -/

/-- A call that goes on to another stage is found accepted only if it was, or is so now. -/
theorem mem_accepted_set {calls : List SubmitCall} {n : Nat} {old new : SubmitCall}
    (hold : calls[n]? = some old) (hstage : old.stage ≠ .accepted) {command : Command} :
    ⟨command, .accepted⟩ ∈ calls.set n new ↔ ⟨command, .accepted⟩ ∈ calls ∨ new = ⟨command, .accepted⟩ := by
  obtain ⟨hlt, hget⟩ := List.getElem?_eq_some_iff.1 hold
  simp only [List.mem_iff_getElem?]
  constructor
  · rintro ⟨m, hm⟩
    by_cases heq : n = m
    · subst heq
      exact .inr (by simpa [hlt] using hm)
    · exact .inl ⟨m, by simpa [List.getElem?_set_ne heq] using hm⟩
  · rintro (⟨m, hm⟩ | rfl)
    · have hne : n ≠ m := by
        rintro rfl
        rw [hold, Option.some.injEq] at hm
        exact hstage (hm ▸ rfl)
      exact ⟨m, by rwa [List.getElem?_set_ne hne]⟩
    · exact ⟨n, by simp [hlt]⟩

theorem ids_set {calls : List SubmitCall} {n : Nat} {command : Command} {stage stage' : SubmitStage}
    (hold : calls[n]? = some ⟨command, stage⟩) :
    (calls.set n ⟨command, stage'⟩).map (fun call => call.command.id) =
      calls.map fun call => call.command.id := by
  obtain ⟨hlt, hget⟩ := List.getElem?_eq_some_iff.1 hold
  rw [List.map_set]
  refine List.ext_getElem (by simp) fun m hm hm' => ?_
  by_cases heq : n = m
  · subst heq
    simp [hget]
  · simp [heq]

/-- A command whose call is still under way or was refused is not among the accepted ones. -/
theorem Sound.id_notMem (h : Sound site) {call : SubmitCall} (hcall : call ∈ site.calls)
    (hstage : call.stage ≠ .accepted) : call.command.id ∉ site.accepted.map Command.id := by
  intro hmem
  obtain ⟨command, hcommand, hid⟩ := List.mem_map.1 hmem
  have heq := List.inj_on_of_nodup_map h.distinct ((h.agreed command).1 hcommand) hcall hid
  exact hstage (heq ▸ rfl)

/-! ### Every step -/

theorem Sound.moveOn (h : Sound site) {n : Nat} {command : Command} {stage stage' : SubmitStage}
    (hcall : site.calls[n]? = some ⟨command, stage⟩) (hstage : stage ≠ .accepted)
    (hstage' : stage' ≠ .accepted) :
    Sound { site with calls := site.calls.set n ⟨command, stage'⟩ } :=
  { h with
    distinct := by simpa only [ids_set hcall] using h.distinct
    agreed := fun other => by
      rw [h.agreed other, mem_accepted_set hcall hstage]
      simp [hstage'] }

/-- The load of the worker plays no part. -/
theorem Sound.count (h : Sound site) {worker : Worker} (hqueue : worker.queue = site.worker.queue)
    (hphase : worker.phase = site.worker.phase) : Sound { site with worker } := by
  have houtstanding : worker.outstanding = site.worker.outstanding := by
    simp only [Worker.outstanding, hqueue, hphase]
  refine { h with order := ?_, begun := ?_, closed := ?_, stopped := ?_, parked := ?_ }
  · simpa only [houtstanding] using h.order
  · simpa only [hqueue, hphase] using h.begun
  · simpa only [hqueue, hphase] using h.closed
  · simpa only [houtstanding, hphase] using h.stopped
  · simpa only [hqueue] using h.parked

theorem Sound.push (h : Sound site) {n : Nat} {command : Command} {queue : CommandQueue}
    (hcall : site.calls[n]? = some ⟨command, .pushing⟩)
    (hpush : site.worker.queue.push? command = some queue) :
    Sound { site with
      worker := { site.worker with queue }
      parked := false
      calls := site.calls.set n ⟨command, .accepted⟩
      accepted := site.accepted ++ [command] } := by
  obtain ⟨hopen, rfl⟩ := Worker.push?_eq_some hpush
  -- The queue is open, so the worker has not given up and has not stopped.
  have htrusted : site.worker.phase.trusted ≠ false := fun hf => by simp [h.closed hf] at hopen
  have hfresh := h.id_notMem (List.mem_of_getElem? hcall) (by simp)
  refine ⟨?_, ?_, fun hf => absurd hf htrusted, ?_, by simp, ?_, ?_, fun other => ?_⟩
  · simp [h.order, Worker.outstanding]
  · obtain ⟨failed, hbegun, hnone⟩ := h.begun
    exact ⟨failed, by simp [hbegun], hnone⟩
  · intro hstopped
    exact absurd (by rw [hstopped]; rfl) htrusted
  · simpa only [ids_set hcall] using h.distinct
  · simp only [List.map_append, List.map_cons, List.map_nil]
    refine List.nodup_append.2 ⟨h.unique, by simp, fun a ha b hb heq => hfresh ?_⟩
    rwa [← List.mem_singleton.1 hb, ← heq]
  · rw [mem_accepted_set hcall (by simp), List.mem_append, h.agreed other]
    simp [eq_comm]

theorem Sound.work (h : Sound site) {shared : Shared} {worker : Worker}
    (hawake : site.parked = false) (hstep : site.worker.step? site.shared = some (shared, worker)) :
    Sound { site with
      shared
      worker
      executed := site.executed ++ site.worker.starting?.toList
      reported := site.reported ++ site.worker.reporting?.toList } := by
  refine { h with order := ?_, begun := ?_, closed := ?_, stopped := ?_, parked := ?_ }
  · simp [h.order, Worker.outstanding_step hstep]
  · obtain ⟨failed, hbegun, hnone⟩ := h.begun
    rcases Worker.pending_step hstep with
      ⟨htrusted, hpending⟩ | ⟨-, hdistrust, hstarting, skipped, hpending⟩
    · refine ⟨[], ?_, fun _ => rfl⟩
      simp [hbegun, hnone htrusted, hpending]
    · -- What it takes out now joins the commands that were failed without being begun.
      refine ⟨failed ++ skipped, ?_, fun htrusted => by simp [hdistrust] at htrusted⟩
      simp [hbegun, hstarting, ← hpending]
  · exact Worker.closed_of_distrust hstep h.closed
  · exact Worker.outstanding_of_stopped hstep
  · simp [hawake]

/-- Every step of every thread keeps the invariant. -/
theorem Sound.step (h : Sound site) (hstep : Step site site') : Sound site' := by
  cases hstep with
  | call command fresh =>
    refine { h with distinct := ?_, agreed := fun other => by simp [h.agreed other] }
    simp only [List.map_append, List.map_cons, List.map_nil]
    refine List.nodup_append.2 ⟨h.distinct, by simp, fun a ha b hb heq => ?_⟩
    obtain ⟨call, hcall, rfl⟩ := List.mem_map.1 ha
    exact fresh call hcall (by simpa using heq.trans (List.mem_singleton.1 hb))
  | announce call =>
    exact (h.moveOn call (by simp) (by simp)).count (by simp) (by simp)
  | push call pushed => exact h.push call pushed
  | turnDown call closed => exact h.moveOn call (by simp) (by simp)
  | withdraw call =>
    exact (h.moveOn call (by simp) (by simp)).count (by simp) (by simp)
  | close =>
    refine { h with closed := fun _ => rfl, parked := fun hparked => ⟨(h.parked hparked).1, ?_⟩ }
    intro _
    exact Nat.succ_pos _
  | wake due => exact { h with parked := by simp }
  | work awake step => exact h.work awake step
  | park pops blocked =>
    obtain ⟨hpending, hopen⟩ := Worker.pop_blocked pops blocked
    exact { h with parked := fun _ => ⟨hpending, by simp [hopen]⟩ }
  | meanwhile shared => exact { h with }

theorem Reachable.sound (h : Reachable site) : Sound site := by
  induction h with
  | start shared worker hphase hqueue =>
    have houtstanding : worker.outstanding = [] := by
      simp [Worker.outstanding, hphase, hqueue, Phase.inHand]
    refine ⟨by simp [houtstanding], ⟨[], by simp [hqueue], fun _ => rfl⟩, ?_, fun _ => houtstanding,
      by simp, by simp, by simp, by simp⟩
    simp [hphase, Phase.trusted]
  | step _ hstep ih => exact ih.step hstep

end Steps

/-! ## What the sink is told -/

/-- What the sink is told in a step from one site to another. -/
def told? (site site' : Site) : Option Report :=
  if site.reported.length < site'.reported.length then site.worker.report? else none

/-- A run of the threads round a worker, with what the sink is told on the way. -/
inductive Run (start : Site) : List Report → Site → Prop
  | here : Run start [] start
  | step {told : List Report} {site site' : Site} (run : Run start told site) (step : Step site site') :
      Run start (told ++ (site.told? site').toList) site'

section Runs
variable {site site' later : Site} {told : List Report}

theorem told?_of_eq (h : site'.reported = site.reported) : site.told? site' = none := by
  simp [told?, h]

theorem told?_work {shared : Shared} {worker : Worker} : site.told? { site with
      shared
      worker
      executed := site.executed ++ site.worker.starting?.toList
      reported := site.reported ++ site.worker.reporting?.toList } = site.worker.report? := by
  cases hphase : site.worker.phase <;> simp [told?, Worker.reporting?, Worker.report?, hphase]

theorem Run.sound (hrun : site.Run told later) (h : site.Sound) : later.Sound := by
  induction hrun with
  | here => exact h
  | step _ hstep ih => exact ih.step hstep

theorem Run.reachable (hrun : site.Run told later) (hreachable : Reachable site) : Reachable later := by
  induction hrun with
  | here => exact hreachable
  | step _ hstep ih => exact ih.step hstep

theorem Step.reported (hstep : Step site site') : ∃ gone, site'.reported = site.reported ++ gone ∧
    (site.told? site').toList.map Report.command = gone.map Command.id := by
  cases hstep with
  | work awake step =>
    refine ⟨site.worker.reporting?.toList, rfl, ?_⟩
    rw [told?_work, ← Option.toList_map, ← Option.toList_map, Worker.command_report?]
  | _ => exact ⟨[], (List.append_nil _).symm, by simp [told?]⟩

/-- The sink is told of the commands that are reported, in order. -/
theorem Run.reported (hrun : site.Run told later) : ∃ gone, later.reported = site.reported ++ gone ∧
    told.map Report.command = gone.map Command.id := by
  induction hrun with
  | here => exact ⟨[], (List.append_nil _).symm, rfl⟩
  | step _ hstep ih =>
    obtain ⟨gone, hreported, htold⟩ := ih
    obtain ⟨more, hmore, htold'⟩ := hstep.reported
    exact ⟨gone ++ more, by rw [hmore, hreported, List.append_assoc], by simp [htold, htold']⟩

/-- The sink is told of nothing but commands that were submitted. -/
theorem Run.submitted (hrun : site.Run told later) (h : site.Sound) {report : Report} (hmem : report ∈ told) :
    ∃ call ∈ later.calls, call.command.id = report.command := by
  obtain ⟨gone, hreported, htold⟩ := hrun.reported
  have hcommand := List.mem_map_of_mem (f := Report.command) hmem
  rw [htold] at hcommand
  obtain ⟨command, hgone, hid⟩ := List.mem_map.1 hcommand
  have hlater := hrun.sound h
  have haccepted : command ∈ later.accepted := by simp [hlater.order, hreported, hgone]
  exact ⟨_, (hlater.agreed command).1 haccepted, hid⟩

end Runs

/-! ### A recorder -/

/-- A run in which nobody but this worker changes the sink, or has it take notes about `own` commands. -/
inductive Undisturbed (own : CommandId → Bool) (start : Site) : List Report → Site → Prop
  | here : Undisturbed own start [] start
  | step {told : List Report} {site site' : Site} (run : Undisturbed own start told site)
      (step : Step site site')
      (others : site'.worker = site.worker → site'.shared.sink = site.shared.sink ∧
        site'.shared.notes own = site.shared.notes own) :
      Undisturbed own start (told ++ (site.told? site').toList) site'

section Recorders
variable {own : CommandId → Bool} {site site' later : Site} {told : List Report}

theorem Undisturbed.run (h : site.Undisturbed own told later) : site.Run told later := by
  induction h with
  | here => exact .here
  | step _ step _ ih => exact ih.step step

/-- A step that leaves what workers share as it is disturbs nobody. -/
theorem Undisturbed.quiet {start : Site} (h : start.Undisturbed own told site) (hstep : Step site site')
    (hshared : site'.shared = site.shared := by rfl) :
    start.Undisturbed own (told ++ (site.told? site').toList) site' :=
  h.step hstep fun _ => ⟨by rw [hshared], by rw [hshared]⟩

/-- Nor does one in which the worker goes on to another phase, whatever it tells the sink. -/
theorem Undisturbed.turn {start : Site} (h : start.Undisturbed own told site) (hstep : Step site site')
    (hphase : site'.worker.phase ≠ site.worker.phase) :
    start.Undisturbed own (told ++ (site.told? site').toList) site' :=
  h.step hstep fun hsame => absurd (congrArg Worker.phase hsame) hphase

/-- What a recorder takes down in a step is what it is told in it. -/
theorem Step.notes (hstep : Step site site') (hsink : site.shared.sink = .recorder)
    (hothers : site'.worker = site.worker → site'.shared.sink = site.shared.sink ∧
      site'.shared.notes own = site.shared.notes own)
    (hown : ∀ report ∈ site.told? site', own report.command = true) :
    site'.shared.sink = .recorder ∧
      site'.shared.notes own = site.shared.notes own ++ (site.told? site').toList := by
  cases hstep with
  | work awake step =>
    obtain ⟨hsink', hreports⟩ := Worker.reports_step step hsink
    rw [told?_work] at hown ⊢
    refine ⟨hsink', ?_⟩
    rw [Shared.notes, hreports, List.filter_append, ← Shared.notes, List.append_cancel_left_eq,
      List.filter_eq_self]
    simpa using hown
  | meanwhile shared =>
    obtain ⟨hsink', hnotes⟩ := hothers rfl
    exact ⟨hsink'.trans hsink, by simpa [told?] using hnotes⟩
  | _ => exact ⟨hsink, by simp [told?]⟩

/-- A recorder takes down all it is told about the commands submitted to this worker, in order. -/
theorem Undisturbed.notes (h : site.Undisturbed own told later) (hsound : site.Sound)
    (hsink : site.shared.sink = .recorder) (hown : ∀ call ∈ later.calls, own call.command.id = true) :
    later.shared.notes own = site.shared.notes own ++ told := by
  have htold : ∀ report ∈ told, own report.command = true := fun report hmem => by
    obtain ⟨call, hcall, hid⟩ := h.run.submitted hsound hmem
    exact hid ▸ hown call hcall
  suffices later.shared.sink = .recorder ∧ later.shared.notes own = site.shared.notes own ++ told from this.2
  clear hown
  induction h with
  | here => exact ⟨hsink, (List.append_nil _).symm⟩
  | step _ hstep hothers ih =>
    obtain ⟨hsink', hnotes⟩ := ih fun report hmem => htold report (List.mem_append_left _ hmem)
    obtain ⟨hsink'', hmore⟩ := hstep.notes hsink' hothers fun report hmem =>
      htold report (List.mem_append_right _ (Option.mem_toList.2 hmem))
    exact ⟨hsink'', by rw [hmore, hnotes, List.append_assoc]⟩

end Recorders

/-! ## Completions -/

/-- At every moment the commands reported so far are the first ones of those accepted, in the order
of acceptance and none of them twice; a command whose submit answered false is neither begun nor
reported; the worker sleeps only while its queue is empty and open; and once it has stopped, every
accepted command is reported. In whatever follows, a recorder takes down just one report for each command
that is reported, in the same order. -/
theorem Reachable.completions {site : Site} (h : Reachable site) :
    (site.reported <+: site.accepted ∧ site.executed <+: site.accepted ∧
      (site.accepted.map Command.id).Nodup) ∧
    (∀ command, command ∈ site.accepted ↔ ⟨command, .accepted⟩ ∈ site.calls) ∧
    (∀ call ∈ site.calls, call.stage = .refused →
      call.command.id ∉ site.executed.map Command.id ∧
        call.command.id ∉ site.reported.map Command.id) ∧
    (site.Asleep → site.worker.queue.pending = [] ∧ site.worker.queue.closed = false) ∧
    (site.worker.phase = .stopped → site.reported = site.accepted) ∧
    (site.shared.sink = .recorder → ∀ own told later, site.Undisturbed own told later →
      (∀ call ∈ later.calls, own call.command.id = true) →
      later.shared.notes own = site.shared.notes own ++ told ∧
        ∃ gone, later.reported = site.reported ++ gone ∧
          told.map Report.command = gone.map Command.id) := by
  have hsound := h.sound
  have hreported : site.reported <+: site.accepted := ⟨_, hsound.order.symm⟩
  have hexecuted : site.executed <+: site.accepted := by
    obtain ⟨failed, hbegun, -⟩ := hsound.begun
    exact ⟨failed ++ site.worker.queue.pending, by rw [hbegun, List.append_assoc]⟩
  refine ⟨⟨hreported, hexecuted, hsound.unique⟩, hsound.agreed, ?_, ?_, ?_, ?_⟩
  · intro call hcall hstage
    have hout := hsound.id_notMem hcall (by simp [hstage])
    exact ⟨fun hin => hout ((hexecuted.map Command.id).subset hin),
      fun hin => hout ((hreported.map Command.id).subset hin)⟩
  · rintro ⟨hparked, hwakeUps⟩
    obtain ⟨hpending, hclosed⟩ := hsound.parked hparked
    refine ⟨hpending, ?_⟩
    by_contra hc
    have := hclosed (by simpa using hc)
    omega
  · intro hstopped
    rw [hsound.order, hsound.stopped hstopped, List.append_nil]
  · intro hsink own told later hrun hown
    exact ⟨hrun.notes hsound hsink hown, hrun.run.reported⟩

/-- A worker that is given one command, closed, refused another one, and stops. -/
theorem completions_one_of_two : ∃ site : Site, Reachable site ∧ site.worker.phase = .stopped ∧
    site.calls.map SubmitCall.stage = [.accepted, .refused] ∧ site.reported = site.accepted ∧
    site.shared.notes (fun _ => true) = [{ command := ⟨0⟩, ending := .done }] := by
  have hidle := Reachable.start { (default : Shared) with sink := .recorder }
    { id := 0, core := 0, arena := default } rfl rfl
  have hpushed := (fun {site} (_ : Reachable site) => @Undisturbed.here (fun _ => true) site) hidle
    |>.quiet (.call { id := ⟨0⟩, kind := .service .marker } (by simp)) |>.quiet (.announce (n := 0) rfl)
    |>.quiet (.push (n := 0) rfl rfl)
  have hclosed := hpushed.quiet .close |>.quiet (.wake rfl)
  have hrefused := hclosed.quiet (.call { id := ⟨1⟩, kind := .service .marker } (by simp))
    |>.quiet (.announce (n := 1) rfl) |>.quiet (.turnDown (n := 1) rfl rfl)
    |>.quiet (.withdraw (n := 1) rfl)
  have hreporting := hrefused.quiet (.work rfl rfl) |>.quiet (.work rfl rfl) |>.quiet (.work rfl rfl)
  have hstopped := hreporting.turn (.work rfl rfl) (by rintro ⟨⟩) |>.quiet (.work rfl rfl)
  have hreachable := hstopped.run.reachable hidle
  obtain ⟨-, -, -, -, hall, -⟩ := hreachable.completions
  obtain ⟨-, -, -, -, -, hrecorder⟩ := hidle.completions
  exact ⟨_, hreachable, rfl, rfl, hall rfl, (hrecorder rfl _ _ _ hstopped (by simp)).1⟩

end Site

end ComputeCore
