import Mathlib.Algebra.GroupWithZero.Nat
import ComputeCore.Proofs.Scheduling.Completion
import ComputeCore.Proofs.Scheduling.Workers
import ComputeCore.Proofs.Sums
/-!
# A pool of workers

`Pool.Step` lets all workers of a multiprocessor run, with any number of threads that submit commands
to them. The load of a worker is then the number of commands it still has, announced, waiting or being
carried out (`Pool.Reachable.load_eq`), and says nothing about whether its queue is open: a worker that
has given up soon has none.

`Pool.Reachable.dispatch_accepted_iff` says exactly when a dispatch is accepted: when the first of the
workers with the fewest commands has an open queue. `Pool.dead_worker_chosen` is a pool in which a
worker that has given up is that first one, and turns away what the other worker would take.
-/

namespace ComputeCore

/-! ## The worker with the lowest load -/

/-- Position `n` has the least number of a list, and is the first one that has it. -/
def FirstLeast (loads : List Nat) (n : Nat) : Prop :=
  ∃ least, loads[n]? = some least ∧ ∀ m load, loads[m]? = some load →
    least ≤ load ∧ (m < n → least < load)

theorem FirstLeast.unique {loads : List Nat} {n m : Nat} (hn : FirstLeast loads n)
    (hm : FirstLeast loads m) : n = m := by
  obtain ⟨a, ha, hleast⟩ := hn
  obtain ⟨b, hb, hleast'⟩ := hm
  rcases Nat.lt_trichotomy n m with hlt | heq | hgt
  · have := (hleast m b hb).1
    have := (hleast' n a ha).2 hlt
    omega
  · exact heq
  · have := (hleast' n a ha).1
    have := (hleast m b hb).2 hgt
    omega

namespace Multiprocessor

/-- The search keeps the first least one of what it has seen. By induction on what is left. -/
theorem firstLeast_leastFrom (rest : List Nat) : ∀ (seen : List Nat) (best found : Nat),
    seen[found]? = some best →
    (∀ m load, seen[m]? = some load → best ≤ load ∧ (m < found → best < load)) →
    FirstLeast (seen ++ rest) (leastFrom best found seen.length rest) := by
  induction rest with
  | nil =>
    intro seen best found hfound hleast
    rw [List.append_nil]
    exact ⟨best, hfound, hleast⟩
  | cons load rest ih =>
    intro seen best found hfound hleast
    have hnext := ih (seen ++ [load])
    rw [List.append_assoc, List.singleton_append, List.length_append, List.length_singleton] at hnext
    have hseen : ∀ m other, (seen ++ [load])[m]? = some other →
        seen[m]? = some other ∨ (m = seen.length ∧ other = load) := by
      intro m other hm
      rcases Nat.lt_or_ge m seen.length with hlt | hge
      · exact .inl (by rwa [List.getElem?_append_left hlt] at hm)
      · rw [List.getElem?_append_right hge] at hm
        simp only [List.getElem?_singleton, Option.ite_none_right_eq_some, Option.some.injEq] at hm
        exact .inr ⟨by omega, hm.2.symm⟩
    have hfound_lt : found < seen.length := (List.getElem?_eq_some_iff.1 hfound).1
    rw [leastFrom]
    by_cases hless : load < best
    · rw [if_pos hless]
      refine hnext load seen.length (by simp) fun m other hm => ?_
      rcases hseen m other hm with hm | ⟨rfl, rfl⟩
      · have := (hleast m other hm).1
        exact ⟨by omega, fun _ => by omega⟩
      · exact ⟨Nat.le_refl _, fun hlt => absurd hlt (Nat.lt_irrefl _)⟩
    · rw [if_neg hless]
      refine hnext best found (by rwa [List.getElem?_append_left hfound_lt]) fun m other hm => ?_
      rcases hseen m other hm with hm | ⟨rfl, rfl⟩
      · exact hleast m other hm
      · exact ⟨by omega, fun hlt => by omega⟩

theorem firstLeast_leastLoaded {multiprocessor : Multiprocessor}
    (hworkers : multiprocessor.workers.size ≠ 0) :
    FirstLeast multiprocessor.loads multiprocessor.leastLoaded := by
  unfold leastLoaded
  cases hloads : multiprocessor.loads with
  | nil =>
    obtain hnone : multiprocessor.workers = #[] := by simpa [loads] using hloads
    simp [hnone] at hworkers
  | cons load rest =>
    refine firstLeast_leastFrom rest [load] load 0 rfl fun m other hm => ?_
    simp only [List.getElem?_singleton, Option.ite_none_right_eq_some, Option.some.injEq] at hm
    obtain ⟨rfl, rfl⟩ := hm
    exact ⟨Nat.le_refl _, fun hlt => absurd hlt (Nat.lt_irrefl _)⟩

theorem submit_worker (worker : Worker) (command : Command) :
    (worker.submit command).1 = true ↔ worker.queue.closed = false := by
  simp only [Worker.submit, CommandQueue.push?, Worker.queue_announce]
  cases worker.queue.closed <;> simp

/-- A dispatch is accepted exactly if the first worker with the lowest load has an open queue. -/
theorem submit_dispatch {multiprocessor : Multiprocessor} {command : Command}
    (hworkers : multiprocessor.workers.size ≠ 0) (hcommand : command.isNDRange = true) :
    (multiprocessor.submit command).1 = true ↔ ∃ n worker, multiprocessor.workers[n]? = some worker ∧
      worker.queue.closed = false ∧ FirstLeast multiprocessor.loads n := by
  have hleast := firstLeast_leastLoaded hworkers
  have ⟨load, hload, _⟩ := hleast
  obtain ⟨worker, hworker, -⟩ : ∃ worker, multiprocessor.workers[multiprocessor.leastLoaded]? =
      some worker ∧ worker.load = load := by simpa [loads] using hload
  simp only [submit, route, hcommand, if_true, hworker]
  rw [submit_worker]
  constructor
  · exact fun hopen => ⟨_, worker, hworker, hopen, hleast⟩
  · rintro ⟨n, other, hother, hopen, hfirst⟩
    obtain rfl := hfirst.unique hleast
    rw [hworker] at hother
    cases hother
    exact hopen

end Multiprocessor

/-! ## What the load counts -/

/-- How many commands a worker has taken out of its queue and not taken off its load. -/
def Phase.counted : Phase → Nat
  | .running .. | .failing _ | .uncounting .. => 1
  | _ => 0

theorem Worker.counted_afterReport (healthy : Bool) : (afterReport healthy).counted = 0 := by
  cases healthy <;> rfl

/-- A step of the thread takes one command off the load, or has as many as before. -/
theorem Worker.load_step {shared shared' : Shared} {worker worker' : Worker}
    (h : worker.step? shared = some (shared', worker')) :
    (worker'.load = worker.load ∧ worker'.phase.counted + worker'.queue.pending.length =
      worker.phase.counted + worker.queue.pending.length) ∨
    (worker'.load = Size.pred worker.load ∧ worker'.phase.counted + worker'.queue.pending.length + 1 =
      worker.phase.counted + worker.queue.pending.length) := by
  cases turn h with
  | start phase pending | fail phase pending =>
    exact .inl ⟨rfl, by simp [phase, pending, Phase.counted, Nat.add_comm]⟩
  | stop phase pending closed =>
    cases hphase : worker.phase <;> simp [hphase, Phase.Pops] at phase <;>
      exact .inl ⟨rfl, by simp [Phase.counted]⟩
  | go phase step | finish phase step | breakDown phase step | giveUp phase =>
    exact .inl ⟨rfl, by rw [phase]; rfl⟩
  | uncount phase => exact .inr ⟨rfl, by simp [phase, Phase.counted, Nat.add_comm]⟩
  | report phase =>
    rename_i command ending healthy
    refine .inl ⟨rfl, ?_⟩
    rw [phase]
    cases (shared.report command.id ending).1 with
    | true => rfl
    | false => exact congrArg (· + worker.queue.pending.length) (counted_afterReport healthy)
  | complete phase =>
    rename_i command healthy
    refine .inl ⟨rfl, ?_⟩
    rw [phase]
    exact congrArg (· + worker.queue.pending.length) (counted_afterReport healthy)

/-- A counter that wraps round counts up as the number it stands for does. -/
theorem Size.succ_mod (n : Nat) : succ (n % limit) = (n + 1) % limit := by
  unfold succ
  exact Nat.mod_add_mod n limit 1

/-- It counts down with the number it stands for, even when it has wrapped round. -/
theorem Size.pred_mod (n : Nat) : pred ((n + 1) % limit) = n % limit := by
  have hlimit : n + 1 + (limit - 1) = n + limit := by unfold limit; omega
  unfold pred
  rw [Nat.mod_add_mod, hlimit, Nat.add_mod_right]

/-- The call has announced its command, and has neither pushed it nor taken the announcement back. -/
def SubmitStage.announced : SubmitStage → Nat
  | .pushing | .withdrawing => 1
  | _ => 0

namespace Site

/-- How many commands are announced by calls that are still under way. -/
def announced (calls : List SubmitCall) : Nat :=
  (calls.map (·.stage.announced)).sum

/-- How many commands have been announced to a worker and are not over yet. -/
def burden (site : Site) : Nat :=
  announced site.calls + site.worker.phase.counted + site.worker.queue.pending.length

/-- The load is the number of commands announced and not over, in as far as a size can hold it. -/
def Counted (site : Site) : Prop :=
  site.worker.load = site.burden % Size.limit

theorem announced_set {calls : List SubmitCall} {n : Nat} {old : SubmitCall} (new : SubmitCall)
    (hold : calls[n]? = some old) :
    announced (calls.set n new) + old.stage.announced = announced calls + new.stage.announced :=
  sum_map_set (·.stage.announced) new hold

/-- Every step of every thread counts what it announces, and what is over. -/
theorem Counted.step {site site' : Site} (h : Counted site) (hstep : Step site site') :
    Counted site' := by
  cases hstep with
  | call command fresh => simpa [Counted, burden, announced, SubmitStage.announced] using h
  | announce call =>
    rename_i n command
    have hcalls := announced_set ⟨command, .pushing⟩ call
    have hload : Size.succ site.worker.load = (site.burden + 1) % Size.limit := by
      rw [h, Size.succ_mod]
    refine hload.trans (congrArg (· % Size.limit) ?_)
    simp only [SubmitStage.announced] at hcalls
    simp only [burden, Worker.phase_announce, Worker.queue_announce]
    omega
  | push call pushed =>
    rename_i n command queue
    have hcalls := announced_set ⟨command, .accepted⟩ call
    obtain ⟨-, rfl⟩ := Worker.push?_eq_some pushed
    refine h.trans (congrArg (· % Size.limit) ?_)
    simp only [SubmitStage.announced] at hcalls
    simp only [burden, List.length_append, List.length_singleton]
    omega
  | turnDown call closed =>
    rename_i n command
    have hcalls := announced_set ⟨command, .withdrawing⟩ call
    refine h.trans (congrArg (· % Size.limit) ?_)
    simp only [SubmitStage.announced] at hcalls
    simp only [burden]
    omega
  | withdraw call =>
    rename_i n command
    have hcalls := announced_set ⟨command, .refused⟩ call
    simp only [SubmitStage.announced] at hcalls
    refine (congrArg Size.pred (h.trans (congrArg (· % Size.limit) ?_))).trans (Size.pred_mod _)
    simp only [burden, Worker.phase_withdraw, Worker.queue_withdraw]
    omega
  | work awake step =>
    rcases Worker.load_step step with ⟨hload, hcount⟩ | ⟨hload, hcount⟩
    · refine hload.trans (h.trans (congrArg (· % Size.limit) ?_))
      simp only [burden]
      omega
    · refine hload.trans ((congrArg Size.pred (h.trans (congrArg (· % Size.limit) ?_))).trans
        (Size.pred_mod _))
      simp only [burden]
      omega
  | close | wake due | park pops blocked | meanwhile shared => exact h

/-- Only a worker that has given up, and a call of `close`, close a queue. -/
theorem closed_step {site site' : Site} (hstep : Step site site')
    (h : site.worker.queue.closed = true → site.worker.phase.trusted = false) :
    site.wakeUps < site'.wakeUps ∨
      (site'.worker.queue.closed = true → site'.worker.phase.trusted = false) := by
  cases hstep with
  | push call pushed =>
    obtain ⟨hopen, rfl⟩ := Worker.push?_eq_some pushed
    exact .inr fun hclosed => by simp [hopen] at hclosed
  | close => exact .inl (Nat.lt_succ_self _)
  | announce call | withdraw call => exact .inr (by simpa using h)
  | work awake step =>
    refine .inr fun hclosed => ?_
    rcases Worker.pending_step step with ⟨htrusted, -⟩ | ⟨-, hdistrust, -⟩
    · have hopen : site.worker.queue.closed ≠ true := fun hc => by simp [h hc] at htrusted
      cases Worker.shift step with
      | start command rest phase pending queue' phase' => simp [queue', hopen] at hclosed
      | fail command rest phase pending queue' phase' => rw [phase']; rfl
      | stop phase pending closed queue' phase' => rw [phase']; rfl
      | carry command inHand reporting starting queue' inHand' trusted' =>
        exact absurd (queue' ▸ hclosed) hopen
      | giveUp command phase queue' phase' => rw [phase']; rfl
      | report command ending healthy phase queue' inHand' trusted' running' =>
        exact absurd (queue' ▸ hclosed) hopen
      | complete command healthy phase queue' phase' => exact absurd (queue' ▸ hclosed) hopen
    · exact hdistrust
  | call command fresh | turnDown call closed | wake due | park pops blocked | meanwhile shared =>
    exact .inr h

end Site

/-! ## The pool -/

/-- A multiprocessor with the threads round each of its workers. -/
structure Pool where
  id : Nat
  shared : Shared
  /-- The workers and what goes on round them; the pool has the shared state for them all. -/
  sites : List Site
  /-- Somebody has closed a queue from outside. -/
  shutDown : Bool := false

namespace Pool

/-- The multiprocessor as `submit` finds it. -/
def multiprocessor (pool : Pool) : Multiprocessor :=
  { id := pool.id, workers := (pool.sites.map (·.worker)).toArray }

/-- The workers of a multiprocessor with nothing going on round them. -/
def idle (multiprocessor : Multiprocessor) (shared : Shared) : Pool :=
  { id := multiprocessor.id, shared
    sites := multiprocessor.workers.toList.map fun worker => { shared, worker } }

/-- One step of one thread at one of the workers. A dispatch may be submitted to any of them, since
loads change while they are compared; all else goes to the first. -/
inductive Step : Pool → Pool → Prop
  | run {pool n site site'} (here : pool.sites[n]? = some site)
      (step : Site.Step { site with shared := pool.shared } site')
      (routed : n = 0 ∨ ∀ call ∈ site'.calls, call.command.isNDRange = true) :
      Step pool { pool with
        shared := site'.shared
        sites := pool.sites.set n site'
        shutDown := pool.shutDown || decide (site.wakeUps < site'.wakeUps) }

/-- What a multiprocessor can come to. -/
inductive Reachable : Pool → Prop
  | start {id cores shared multiprocessor shared'} :
      Multiprocessor.create id cores shared = .ok (multiprocessor, shared') →
      Reachable (idle multiprocessor shared')
  | step {pool pool' : Pool} : Reachable pool → Step pool pool' → Reachable pool'

/-- What is true of a pool at every moment. -/
structure Sound (pool : Pool) : Prop where
  inhabited : pool.sites ≠ []
  sites : ∀ site ∈ pool.sites, site.Sound ∧ site.Counted
  closed : pool.shutDown = false → ∀ site ∈ pool.sites,
    site.worker.queue.closed = true → site.worker.phase.trusted = false

section Runs
variable {pool pool' : Pool}

theorem Sound.step (h : Sound pool) (hstep : Step pool pool') : Sound pool' := by
  obtain ⟨here, step, routed⟩ := hstep
  rename_i n site site'
  have hmem := List.mem_of_getElem? here
  obtain ⟨hsound, hcounted⟩ := h.sites site hmem
  have hothers : ∀ other ∈ pool.sites.set n site', other = site' ∨ other ∈ pool.sites := by
    intro other hother
    exact (List.mem_or_eq_of_mem_set hother).symm
  refine ⟨?_, fun other hother => ?_, fun hshut other hother => ?_⟩
  · simpa [List.set_eq_nil_iff] using h.inhabited
  · rcases hothers other hother with rfl | hold
    · have hmeanwhile : Site.Step site { site with shared := pool.shared } := .meanwhile pool.shared
      exact ⟨(hsound.step hmeanwhile).step step, (hcounted.step hmeanwhile).step step⟩
    · exact h.sites other hold
  · obtain ⟨hopen, hcalled⟩ : pool.shutDown = false ∧ site'.wakeUps ≤ site.wakeUps := by
      simpa using hshut
    rcases hothers other hother with rfl | hold
    · refine (Site.closed_step step (h.closed hopen site hmem)).resolve_left ?_
      exact Nat.not_lt.2 hcalled
    · exact h.closed hopen other hold

theorem Reachable.sound (h : Reachable pool) : Sound pool := by
  induction h with
  | start hcreate =>
    rename_i id cores shared multiprocessor shared'
    obtain ⟨hworkers, hfresh, -⟩ := Multiprocessor.create_fresh hcreate
    refine ⟨by simpa [idle] using hworkers, fun site hsite => ?_, fun _ site hsite => ?_⟩
    all_goals
      obtain ⟨worker, hworker, rfl⟩ : ∃ worker ∈ multiprocessor.workers, _ = site := by
        simpa [idle] using hsite
      obtain ⟨hphase, hqueue, hload⟩ := hfresh worker hworker
    · exact ⟨(Site.Reachable.start _ worker hphase hqueue).sound, by
        simp [Site.Counted, Site.burden, Site.announced, hphase, hqueue, hload, Phase.counted]⟩
    · simp [hqueue]
  | step _ hstep ih => exact ih.step hstep

/-- At every moment every worker's load is the number of commands announced to it and not over. -/
theorem Reachable.load_eq (h : Reachable pool) :
    pool.multiprocessor.loads = pool.sites.map fun site => site.burden % Size.limit := by
  simp only [Multiprocessor.loads, multiprocessor, List.map_map]
  exact List.map_congr_left fun site hsite => (h.sound.sites site hsite).2

/-- At every moment before a queue is closed from outside, a dispatch is accepted exactly if the first
of the workers with the fewest commands announced and not over has an open queue; and the workers with
a closed queue are those that have given up. -/
theorem Reachable.dispatch_accepted_iff (h : Reachable pool) (hopen : pool.shutDown = false)
    {command : Command} (hcommand : command.isNDRange = true) :
    ((pool.multiprocessor.submit command).1 = true ↔ ∃ n site, pool.sites[n]? = some site ∧
      site.worker.queue.closed = false ∧
      FirstLeast (pool.sites.map fun site => site.burden % Size.limit) n) ∧
    ∀ site ∈ pool.sites, site.worker.queue.closed = true ↔ site.worker.phase.trusted = false := by
  have hworkers : pool.multiprocessor.workers.size ≠ 0 := by
    simpa [multiprocessor] using h.sound.inhabited
  refine ⟨?_, fun site hsite => ⟨h.sound.closed hopen site hsite, (h.sound.sites site hsite).1.closed⟩⟩
  rw [Multiprocessor.submit_dispatch hworkers hcommand, h.load_eq]
  refine exists_congr fun n => ?_
  simp only [multiprocessor, List.getElem?_toArray, List.getElem?_map, Option.map_eq_some_iff]
  constructor
  · rintro ⟨worker, ⟨site, hsite, rfl⟩, hqueue, hfirst⟩
    exact ⟨site, hsite, hqueue, hfirst⟩
  · rintro ⟨site, hsite, hqueue, hfirst⟩
    exact ⟨_, ⟨site, hsite, rfl⟩, hqueue, hfirst⟩

end Runs

/-! ## A worker that has given up -/

/-- What two workers with one byte of local memory each share before they start. -/
def smallArenas : Shared :=
  { (default : Shared) with localMemory := 1, sink := .recorder }

/-- A dispatch that wants more local memory than either of them has. -/
def greedyDispatch : Command :=
  .task ⟨0⟩ default [.localBytes 2]

/-- The first worker is given a command it cannot carry out, gives up, and has none left. -/
theorem reachable_givenUp : ∃ shared first second,
    Reachable { id := 0, shared, sites := [first, second] } ∧
      first.worker.queue.closed = true ∧ first.worker.load = 0 ∧ first.burden = 0 ∧
      second.worker.queue.closed = false ∧ second.worker.load = 0 ∧ second.burden = 0 := by
  have hidle := Reachable.start (rfl : Multiprocessor.create 0 [0, 1] smallArenas = .ok _)
  have hpushed := hidle.step (.run (n := 0) rfl (.call greedyDispatch (by simp)) (.inl rfl))
    |>.step (.run (n := 0) rfl (.announce (n := 0) rfl) (.inl rfl))
    |>.step (.run (n := 0) rfl (.push (n := 0) rfl rfl) (.inl rfl))
  have hbound := hpushed.step (.run (n := 0) rfl (.work rfl rfl) (.inl rfl))
    |>.step (.run (n := 0) rfl (.work rfl rfl) (.inl rfl))
    |>.step (.run (n := 0) rfl (.work rfl rfl) (.inl rfl))
    |>.step (.run (n := 0) rfl (.work rfl rfl) (.inl rfl))
  have hgivenUp := hbound.step (.run (n := 0) rfl (.work rfl rfl) (.inl rfl))
    |>.step (.run (n := 0) rfl (.work rfl rfl) (.inl rfl))
    |>.step (.run (n := 0) rfl (.work rfl rfl) (.inl rfl))
  exact ⟨_, _, _, hgivenUp, rfl, rfl, rfl, rfl, rfl, rfl⟩

theorem dispatch_accepted_givenUp : ∃ pool, Reachable pool ∧ pool.shutDown = false ∧
    greedyDispatch.isNDRange = true ∧ (pool.multiprocessor.submit greedyDispatch).1 = false := by
  obtain ⟨shared, first, second, hreach, hclosed, -, hfirst, -, -, hsecond⟩ := reachable_givenUp
  refine ⟨_, hreach, rfl, rfl, Bool.eq_false_iff.2 fun haccepted => ?_⟩
  obtain ⟨n, site, hsite, hopen, hleast⟩ := (hreach.dispatch_accepted_iff rfl rfl).1.1 haccepted
  -- Both have no command, so the first one comes first.
  have hzero : FirstLeast [first.burden % Size.limit, second.burden % Size.limit] 0 := by
    refine ⟨0, by simp [hfirst], fun m load _ => ⟨Nat.zero_le _, fun hlt => ?_⟩⟩
    exact absurd hlt (Nat.not_lt_zero m)
  obtain rfl := hleast.unique hzero
  obtain rfl : first = site := by simpa using hsite
  exact absurd (hclosed.symm.trans hopen) (by decide)

/-- One worker that has given up is enough for a dispatch to be turned away: the queue of the other
worker is open, and it has no more to do. -/
theorem dead_worker_chosen : ¬ ∀ pool, Reachable pool → pool.shutDown = false →
    (∃ site ∈ pool.sites, site.worker.queue.closed = false) →
    ∀ command : Command, command.isNDRange = true →
      (pool.multiprocessor.submit command).1 = true := by
  intro hall
  obtain ⟨shared, first, second, hreach, hclosed, hfirst, -, hopen, hsecond, -⟩ := reachable_givenUp
  have haccepted := hall _ hreach rfl ⟨second, by simp, hopen⟩ greedyDispatch rfl
  simp [Multiprocessor.submit, Multiprocessor.route, Multiprocessor.leastLoaded, Multiprocessor.loads,
    multiprocessor, Multiprocessor.leastFrom, Worker.submit, CommandQueue.push?, greedyDispatch,
    Command.task, Command.isNDRange, hfirst, hsecond, hclosed] at haccepted

end Pool

end ComputeCore
