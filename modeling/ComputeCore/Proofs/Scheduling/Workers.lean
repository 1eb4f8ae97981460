import ComputeCore.Scheduling.Device
/-!
# The workers of a device

A worker of a device is found by two positions. Replacing one of them leaves all others as they are
(`Device.worker?_setWorker`), and both a step of a worker's thread and a submitted command replace one
worker. The workers of a new device have nothing to do, and its shared state has no history
(`Device.create_fresh`). There is always a first one (`Device.exists_worker_of_create`).
-/

namespace ComputeCore

namespace Device

/-- The worker at position `j` of the multiprocessor at position `i`. -/
def worker? (device : Device) (i j : Nat) : Option Worker :=
  device.multiprocessors[i]?.bind (·.workers[j]?)

/-- The device with another worker in the place of that one. -/
def setWorker (device : Device) (i j : Nat) (worker : Worker) : Device :=
  match device.multiprocessors[i]? with
  | none => device
  | some multiprocessor =>
    let workers := multiprocessor.workers.setIfInBounds j worker
    { device with
      multiprocessors := device.multiprocessors.setIfInBounds i { multiprocessor with workers } }

section Access
variable {device device' : Device} {i j : Nat} {worker worker' : Worker}

theorem worker?_eq_some : device.worker? i j = some worker ↔
    ∃ multiprocessor, device.multiprocessors[i]? = some multiprocessor ∧
      multiprocessor.workers[j]? = some worker := by
  simp [worker?, Option.bind_eq_some_iff]

@[simp] theorem shared_setWorker (device : Device) (i j : Nat) (worker : Worker) :
    (device.setWorker i j worker).shared = device.shared := by
  unfold setWorker
  split <;> rfl

theorem worker?_setWorker (h : device.worker? i j = some worker) (i' j' : Nat) :
    (device.setWorker i j worker').worker? i' j' =
      if i' = i ∧ j' = j then some worker' else device.worker? i' j' := by
  obtain ⟨multiprocessor, hi, hj⟩ := worker?_eq_some.1 h
  have hilt := (Array.getElem?_eq_some_iff.1 hi).1
  have hjlt := (Array.getElem?_eq_some_iff.1 hj).1
  simp only [setWorker, hi, worker?]
  by_cases heq : i' = i
  · subst heq
    rw [Array.getElem?_setIfInBounds_self_of_lt hilt, hi]
    simp only [Option.bind_some]
    by_cases heq' : j' = j
    · subst heq'
      simp [Array.getElem?_setIfInBounds_self_of_lt hjlt]
    · simp [heq', Array.getElem?_setIfInBounds_ne (Ne.symm heq')]
  · simp [heq, Array.getElem?_setIfInBounds_ne (Ne.symm heq)]

/-- A step of a worker's thread replaces the worker and the shared state. -/
theorem step?_worker : device.step? (.worker i j) = some device' ↔
    ∃ worker shared worker', device.worker? i j = some worker ∧
      worker.step? device.shared = some (shared, worker') ∧
      device' = { device.setWorker i j worker' with shared } := by
  cases hi : device.multiprocessors[i]? with
  | none => simp [step?, worker?, hi]
  | some multiprocessor =>
    cases hj : multiprocessor.workers[j]? with
    | none => simp [step?, worker?, hi, hj]
    | some worker =>
      cases hstep : worker.step? device.shared with
      | none => simp [step?, worker?, hi, hj, hstep]
      | some stepped =>
        obtain ⟨shared, worker'⟩ := stepped
        simp only [step?, worker?, setWorker, hi, hj, hstep, Option.bind_eq_bind, Option.bind_some,
          Option.some.injEq]
        constructor
        · rintro rfl
          exact ⟨worker, shared, worker', rfl, hstep, rfl⟩
        · rintro ⟨_, _, _, rfl, hstep', rfl⟩
          rw [hstep] at hstep'
          cases hstep'
          rfl

/-- A step of a copy, or of a waiting thread, replaces no worker. -/
theorem step?_copy {number : Nat} : device.step? (.copy number) = some device' ↔
    ∃ shared, device.shared.stepCopy? number = some shared ∧ device' = { device with shared } := by
  refine Option.bind_eq_some_iff.trans (exists_congr fun shared => and_congr_right fun _ => ?_)
  exact Option.some_inj.trans eq_comm

theorem step?_waiter {number : Nat} : device.step? (.waiter number) = some device' ↔
    ∃ events, device.shared.events.stepWaiter? number = some events ∧
      device' = { device with shared := { device.shared with events } } := by
  refine Option.bind_eq_some_iff.trans (exists_congr fun events => and_congr_right fun _ => ?_)
  exact Option.some_inj.trans eq_comm

end Access

end Device

/-- A copy moves its bytes, and then completes its event; or it ends without completing it. -/
theorem Shared.stepCopy?_eq_some {shared shared' : Shared} {number : Nat}
    (h : shared.stepCopy? number = some shared') :
    ∃ task, shared.copies[number]? = some task ∧
      ((task.stage = .copying ∧ ∃ memory stage, shared' = { shared with
          memory
          copies := shared.copies.setIfInBounds number { task with stage } }) ∨
        (task.stage = .signalling ∧ shared' = { shared with
          events := shared.events.setCompleted task.signal true
          copies := shared.copies.setIfInBounds number { task with stage := .ended } })) := by
  unfold stepCopy? at h
  obtain ⟨task, htask, h⟩ := Option.bind_eq_some_iff.1 h
  refine ⟨task, htask, ?_⟩
  cases hstage : task.stage with
  | copying =>
    simp only [hstage, Option.some.injEq] at h
    exact .inl ⟨rfl, _, _, h.symm⟩
  | signalling =>
    simp only [hstage, Option.some.injEq] at h
    exact .inr ⟨rfl, h.symm⟩
  | ended => simp [hstage] at h

/-! ## New devices -/

/-- Nothing has been submitted to the worker. -/
structure Worker.Fresh (worker : Worker) : Prop where
  phase : worker.phase = .fetching
  queue : worker.queue = {}
  load : worker.load = 0

namespace Multiprocessor

section Create
variable {localMemory id : Nat} {cores : List Nat} {shared shared' : Shared} {multiprocessor : Multiprocessor}

theorem spawnWorkers_cons {heap : Heap} {core : Nat} {spawned : List Worker × Heap} :
    spawnWorkers localMemory heap id (core :: cores) = .ok spawned ↔ ∃ arena heap' workers,
      LocalArena.create heap localMemory = .ok (arena, heap') ∧
      spawnWorkers localMemory heap' (id + 1) cores = .ok workers ∧
      ({ id, core, arena } :: workers.1, workers.2) = spawned := by
  rw [spawnWorkers]
  cases harena : LocalArena.create heap localMemory with
  | error error => simp [bind, Except.bind]
  | ok arena =>
    cases hrest : spawnWorkers localMemory arena.2 (id + 1) cores with
    | error error =>
      simp only [bind, Except.bind, hrest, reduceCtorEq, Except.ok.injEq, false_iff]
      rintro ⟨_, _, _, rfl, h, -⟩
      rw [hrest] at h
      cases h
    | ok workers =>
      simp only [bind, Except.bind, hrest, pure, Except.pure, Except.ok.injEq]
      constructor
      · rintro rfl
        exact ⟨_, _, _, rfl, hrest, rfl⟩
      · rintro ⟨_, _, _, rfl, h, rfl⟩
        rw [hrest] at h
        cases h
        rfl

theorem spawnWorkers_fresh : ∀ {cores : List Nat} {heap heap' : Heap} {id : Nat} {workers : List Worker},
    spawnWorkers localMemory heap id cores = .ok (workers, heap') →
    workers.length = cores.length ∧ ∀ worker ∈ workers, worker.Fresh := by
  intro cores
  induction cores with
  | nil =>
    intro heap heap' id workers h
    cases h
    exact ⟨rfl, by simp⟩
  | cons core cores ih =>
    intro heap heap' id workers h
    obtain ⟨arena, heap₁, rest, -, hrest, hcons⟩ := spawnWorkers_cons.1 h
    obtain ⟨rfl, -⟩ := Prod.mk.inj hcons
    obtain ⟨hlength, hfresh⟩ := ih hrest
    exact ⟨congrArg (· + 1) hlength, List.forall_mem_cons.2 ⟨⟨rfl, rfl, rfl⟩, hfresh⟩⟩

theorem create_eq_ok {created : Multiprocessor × Shared} :
    create id cores shared = .ok created ↔ cores ≠ [] ∧ ∃ spawned,
      spawnWorkers shared.localMemory shared.memory.heap 0 cores = .ok spawned ∧
      ({ id, workers := spawned.1.toArray },
        { shared with memory := { shared.memory with heap := spawned.2 } }) = created := by
  unfold create
  cases cores with
  | nil => simp
  | cons core cores =>
    cases spawnWorkers shared.localMemory shared.memory.heap 0 (core :: cores) <;> simp

/-- A new multiprocessor has workers, and takes only memory for them. -/
theorem create_fresh (h : create id cores shared = .ok (multiprocessor, shared')) :
    multiprocessor.workers ≠ #[] ∧ (∀ worker ∈ multiprocessor.workers, worker.Fresh) ∧
      ∃ memory, shared' = { shared with memory } := by
  obtain ⟨hcores, ⟨workers, heap⟩, hspawn, hcreated⟩ := create_eq_ok.1 h
  obtain ⟨rfl, rfl⟩ := Prod.mk.inj hcreated
  obtain ⟨hlength, hfresh⟩ := spawnWorkers_fresh hspawn
  refine ⟨fun hnil => hcores ?_, by simpa using hfresh, _, rfl⟩
  obtain rfl : workers = [] := by simpa using hnil
  exact List.length_eq_zero_iff.1 hlength.symm

end Create

end Multiprocessor

namespace Config

variable {config : Config} {cores : Nat} {partition : List (List Nat)}

/-- The multiprocessors asked for; there is always one. -/
def groups (config : Config) : Nat :=
  max config.multiprocessors 1

/-- The cores of the workers of one group. -/
def pool (config : Config) (cores group : Nat) : List Nat :=
  ((List.range config.workers).filter (· % config.groups = group)).map (· % max cores 1)

theorem partition_eq_ok : config.partition cores = .ok partition ↔
    config.groups * partitionEntry ≤ Size.arrayLimit ∧
      (List.range config.groups).map (config.pool cores) = partition := by
  show (Size.fitsArray config.groups partitionEntry).bind
    (fun _ => .ok ((List.range config.groups).map (config.pool cores))) = _ ↔ _
  unfold Size.fitsArray
  split
  · next hfits => simp only [Except.bind, Except.ok.injEq, hfits, true_and]
  · next hfits => simp [Except.bind, hfits]

/-- The first multiprocessor always has a worker: the first worker belongs to it. -/
theorem partition_ne_nil (hworkers : config.workers ≠ 0) (h : config.partition cores = .ok partition) :
    partition.filter (fun cores => !cores.isEmpty) ≠ [] := by
  obtain ⟨-, rfl⟩ := partition_eq_ok.1 h
  have hgroup : 0 ∈ List.range config.groups := List.mem_range.2 (by unfold groups; omega)
  have hworker : 0 ∈ (List.range config.workers).filter (· % config.groups = 0) := by
    simpa using Nat.pos_of_ne_zero hworkers
  refine List.ne_nil_of_mem (List.mem_filter.2 ⟨List.mem_map_of_mem hgroup, ?_⟩)
  have hcore : 0 % max cores 1 ∈ config.pool cores 0 := List.mem_map_of_mem hworker
  simpa using List.ne_nil_of_mem hcore

end Config

namespace Device

section Create
variable {shared : Shared} {cores : Nat} {config : Config} {blockLimit : Fin Size.limit} {device : Device}

theorem createPools_cons {id : Nat} {pool : List Nat} {pools : List (List Nat)}
    {created : List Multiprocessor × Shared} :
    createPools shared id (pool :: pools) = .ok created ↔ ∃ first rest,
      Multiprocessor.create id pool shared = .ok first ∧ createPools first.2 (id + 1) pools = .ok rest ∧
      (first.1 :: rest.1, rest.2) = created := by
  rw [createPools]
  cases hfirst : Multiprocessor.create id pool shared with
  | error refusal => simp [bind, Except.bind]
  | ok first =>
    cases hrest : createPools first.2 (id + 1) pools with
    | error refusal => simp [bind, Except.bind, hrest]
    | ok rest =>
      simp only [bind, Except.bind, pure, Except.pure, hrest, Except.ok.injEq]
      constructor
      · rintro rfl
        exact ⟨first, rest, rfl, hrest, rfl⟩
      · rintro ⟨_, _, rfl, h, rfl⟩
        rw [hrest] at h
        cases h
        rfl

theorem createPools_fresh : ∀ {pools : List (List Nat)} {shared shared' : Shared} {id : Nat}
    {multiprocessors : List Multiprocessor},
    createPools shared id pools = .ok (multiprocessors, shared') →
    (∀ multiprocessor ∈ multiprocessors, ∀ worker ∈ multiprocessor.workers, worker.Fresh) ∧
      ∃ memory, shared' = { shared with memory } := by
  intro pools
  induction pools with
  | nil =>
    intro shared shared' id multiprocessors h
    cases h
    exact ⟨by simp, shared.memory, rfl⟩
  | cons pool pools ih =>
    intro shared shared' id multiprocessors h
    obtain ⟨⟨first, shared₁⟩, ⟨rest, shared₂⟩, hfirst, hrest, hcons⟩ := createPools_cons.1 h
    obtain ⟨rfl, rfl⟩ := Prod.mk.inj hcons
    obtain ⟨-, hfresh, memory, rfl⟩ := Multiprocessor.create_fresh hfirst
    obtain ⟨hfresh', memory', rfl⟩ := ih hrest
    exact ⟨List.forall_mem_cons.2 ⟨hfresh, hfresh'⟩, _, rfl⟩

theorem create_eq_ok : create cores config blockLimit = .ok device ↔ config.workers ≠ 0 ∧
    ∃ partition created, config.partition cores = .ok partition ∧
      createPools
        { memory := .ofCapacity config.globalMemory blockLimit, localMemory := config.localMemory, sink := .device }
        0 (partition.filter fun cores => !cores.isEmpty) = .ok created ∧
      { shared := created.2, multiprocessors := created.1.toArray } = device := by
  unfold create
  split
  · next hnone => simp [hnone]
  next hworkers =>
  cases config.partition cores with
  | error fault => simp
  | ok partition =>
    dsimp only
    split
    · next error hcreated => simp [hcreated]
    · next multiprocessors shared hcreated =>
      simp only [Except.ok.injEq]
      constructor
      · rintro rfl
        exact ⟨hworkers, partition, _, rfl, hcreated, rfl⟩
      · rintro ⟨-, _, _, rfl, h, rfl⟩
        rw [hcreated] at h
        cases h
        rfl

/-- A new device has only been given memory. -/
theorem create_fresh (h : create cores config blockLimit = .ok device) :
    (∀ i j worker, device.worker? i j = some worker → worker.Fresh) ∧
      ∃ memory localMemory, device.shared = { memory, localMemory, sink := .device } := by
  obtain ⟨-, partition, ⟨multiprocessors, shared⟩, -, hpools, rfl⟩ := create_eq_ok.1 h
  obtain ⟨hfresh, memory, hshared⟩ := createPools_fresh hpools
  refine ⟨fun i j worker hworker => ?_, memory, config.localMemory, hshared⟩
  obtain ⟨multiprocessor, hi, hj⟩ := worker?_eq_some.1 hworker
  exact hfresh multiprocessor (by simpa using Array.mem_of_getElem? hi) worker (Array.mem_of_getElem? hj)

/-- A new device has a worker that everything but dispatches goes to. -/
theorem exists_worker_of_create (h : create cores config blockLimit = .ok device) :
    ∃ worker, device.worker? 0 0 = some worker := by
  obtain ⟨hworkers, partition, created, hpartition, hpools, rfl⟩ := create_eq_ok.1 h
  obtain ⟨pool, pools, hcons⟩ := List.exists_cons_of_ne_nil (Config.partition_ne_nil hworkers hpartition)
  rw [hcons] at hpools
  obtain ⟨⟨first, shared⟩, rest, hfirst, -, rfl⟩ := createPools_cons.1 hpools
  have hsize : 0 < first.workers.size := Array.size_pos_iff.2 (Multiprocessor.create_fresh hfirst).1
  exact ⟨first.workers[0], by simp [worker?]⟩

end Create

end Device

end ComputeCore
