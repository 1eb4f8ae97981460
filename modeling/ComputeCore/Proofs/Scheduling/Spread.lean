import ComputeCore.Proofs.Scheduling.Enqueue
import ComputeCore.Proofs.Scheduling.Partition
import ComputeCore.Proofs.Scheduling.Pool
/-!
# Dispatches in turn

`Rush` is a new device to which a client submits dispatches, one after another, while the workers do what
they like but get none of the commands off their loads. The device then deals the dispatches out to its
multiprocessors in turn, and each multiprocessor, by always taking the first worker with the lowest load,
deals those it gets out to its workers in turn (`Rush.dealt`). So all loads are known in closed form
(`Device.dispatches_spread`).
-/

namespace ComputeCore

/-! ## Who gets which command -/

/-- The commands that come to worker `j` of `workers` in multiprocessor `i` of `multiprocessors`, if they are
dealt out in turn to the multiprocessors, and in each of these to its workers. -/
def parcel (sent : List Command) (multiprocessors i workers j : Nat) : List Command :=
  (sent.zipIdx.filter fun dealt =>
    dealt.2 % multiprocessors = i ∧ dealt.2 / multiprocessors % workers = j).map (·.1)

section Parcels
variable {sent : List Command} {command : Command} {multiprocessors i workers j : Nat}

theorem parcel_concat (sent : List Command) (command : Command) (multiprocessors i workers j : Nat) :
    parcel (sent ++ [command]) multiprocessors i workers j = parcel sent multiprocessors i workers j ++
      if sent.length % multiprocessors = i ∧ sent.length / multiprocessors % workers = j then [command]
      else [] := by
  simp only [parcel, List.zipIdx_append, List.filter_append, List.map_append, Nat.zero_add,
    List.zipIdx_singleton, List.filter_singleton, Bool.cond_decide]
  split <;> rfl

theorem length_parcel (hi : i < multiprocessors) (hj : j < workers) (sent : List Command) :
    (parcel sent multiprocessors i workers j).length =
      share (share sent.length multiprocessors i) workers j := by
  induction sent using List.reverseRecOn with
  | nil => simp [parcel, share_zero]
  | append_singleton sent command ih =>
    rw [parcel_concat, List.length_append, ih, List.length_append, List.length_singleton, share_succ hi]
    by_cases hturn : i = sent.length % multiprocessors
    · subst hturn
      rw [if_pos rfl, share_next, share_succ hj]
      by_cases hnext : j = sent.length / multiprocessors % workers
      · simp [hnext]
      · simp [hnext, Ne.symm hnext]
    · simp [hturn, Ne.symm hturn]

theorem length_parcel_le (sent : List Command) (multiprocessors i workers j : Nat) :
    (parcel sent multiprocessors i workers j).length ≤ sent.length := by
  rw [parcel, List.length_map]
  exact (List.length_filter_le _ _).trans (Nat.le_of_eq List.length_zipIdx)

/-- Of the workers that deal out in turn among themselves, the next one is the first with the least. -/
theorem firstLeast_share {parties : Nat} (hparties : 0 < parties) (dealt : Nat) :
    FirstLeast ((List.range parties).map (share dealt parties)) (dealt % parties) := by
  have hnext := Nat.mod_lt dealt hparties
  refine ⟨dealt / parties, by simp [hnext, share_next], fun m load hm => ?_⟩
  rw [List.getElem?_map, Option.map_eq_some_iff] at hm
  obtain ⟨party, hm, rfl⟩ := hm
  obtain ⟨-, rfl⟩ := List.getElem?_eq_some_iff.1 hm
  rw [List.getElem_range]
  unfold share
  exact ⟨by omega, fun hlt => by rw [if_pos hlt]; omega⟩

end Parcels

/-! ## One worker -/

/-- The command in hand is over, and about to be taken off the load. -/
def Phase.Over : Phase → Prop
  | .uncounting .. => True
  | _ => False

/-- The thread has taken no command off the load yet. -/
def Phase.CountsAll : Phase → Prop
  | .fetching | .running .. | .failing _ | .uncounting .. => True
  | _ => False

/-- The worker still has every command it was ever given, in this order. -/
structure Worker.Holding (worker : Worker) (commands : List Command) : Prop where
  outstanding : worker.outstanding = commands
  load : worker.load = commands.length
  counts : worker.phase.CountsAll
  closed : worker.queue.closed = true → worker.phase.Over

namespace Worker

variable {worker worker' : Worker} {shared shared' : Shared} {commands : List Command} {command : Command}

theorem Fresh.holding (h : worker.Fresh) : worker.Holding [] where
  outstanding := by simp [Worker.outstanding, h.phase, h.queue, Phase.inHand]
  load := h.load
  counts := by rw [h.phase]; trivial
  closed hclosed := by simp [h.queue] at hclosed

/-- Whatever the thread does but take a command off the load, it has the same commands as before. -/
theorem Holding.step (h : worker.Holding commands) (hstep : worker.step? shared = some (shared', worker'))
    (hover : ¬ worker.phase.Over) : worker'.Holding commands := by
  have hopen : worker.queue.closed ≠ true := fun hclosed => hover (h.closed hclosed)
  have hcounts := h.counts
  have hkept : worker.reporting? = none → worker'.outstanding = commands := fun hreporting => by
    have hsame := outstanding_step hstep
    rw [hreporting, h.outstanding] at hsame
    exact hsame.symm
  cases turn hstep with
  | start phase pending =>
    exact ⟨hkept (by simp [reporting?, phase]), h.load, trivial, fun hclosed => absurd hclosed hopen⟩
  | stop phase pending closed => exact absurd closed hopen
  | go phase step | finish phase step | breakDown phase step =>
    exact ⟨hkept (by simp [reporting?, phase]), h.load, trivial, fun hclosed => absurd hclosed hopen⟩
  | giveUp phase => exact ⟨hkept (by simp [reporting?, phase]), h.load, trivial, fun _ => trivial⟩
  | uncount phase => exact absurd (by rw [phase]; trivial) hover
  | report phase | complete phase | fail phase pending => exact absurd hcounts (by rw [phase]; exact not_false)

theorem Holding.submit (h : worker.Holding commands) (hroom : commands.length + 1 < Size.limit)
    (haccepted : (worker.submit command).1 = true) :
    (worker.submit command).2.Holding (commands ++ [command]) := by
  have hopen := (Multiprocessor.submit_worker worker command).1 haccepted
  have hsubmit : (worker.submit command).2 = { worker.announce with
      queue := { worker.queue with pending := worker.queue.pending ++ [command] } } := by
    simp [Worker.submit, CommandQueue.push?, hopen]
  rw [hsubmit]
  refine ⟨?_, ?_, h.counts, fun hclosed => h.closed hclosed⟩
  · rw [← h.outstanding]
    exact (List.append_assoc _ _ _).symm
  · rw [List.length_append, List.length_singleton, ← Nat.mod_eq_of_lt hroom, ← h.load]
    rfl

end Worker

/-! ## The device -/

/-- What a function makes of an array, position by position. -/
theorem map_toList_eq_range {α β : Type} {array : Array α} {f : α → β} {g : Nat → β}
    (h : ∀ i value, array[i]? = some value → f value = g i) :
    array.toList.map f = (List.range array.size).map g := by
  refine List.ext_getElem? fun i => ?_
  rw [List.getElem?_map, List.getElem?_map, Array.getElem?_toList]
  by_cases hi : i < array.size
  · rw [Array.getElem?_eq_getElem hi, List.getElem?_range hi]
    exact congrArg some (h i _ (Array.getElem?_eq_getElem hi))
  · rw [Array.getElem?_eq_none (Nat.le_of_not_lt hi), List.getElem?_eq_none (by simpa using hi)]
    rfl

namespace Device

section Shapes
variable {device : Device} {i j size : Nat} {worker : Worker} {multiprocessor : Multiprocessor}

theorem length_shape (device : Device) : device.shape.length = device.multiprocessors.size := by
  simp [shape]

@[simp] theorem turn_setWorker (device : Device) (i j : Nat) (worker : Worker) :
    (device.setWorker i j worker).turn = device.turn := by
  unfold setWorker
  split <;> rfl

theorem shape_setWorker (h : device.worker? i j = some worker) (worker' : Worker) :
    (device.setWorker i j worker').shape = device.shape := by
  obtain ⟨multiprocessor, hi, -⟩ := worker?_eq_some.1 h
  obtain ⟨hlt, hget⟩ := Array.getElem?_eq_some_iff.1 hi
  refine List.ext_getElem? fun n => ?_
  simp only [shape, setWorker, hi, List.getElem?_map, Array.getElem?_toList, Array.getElem?_setIfInBounds]
  split
  · next heq =>
    subst heq
    simp [hlt, hget]
  · rfl

theorem shape_eq_some : device.shape[i]? = some size ↔
    ∃ multiprocessor, device.multiprocessors[i]? = some multiprocessor ∧ multiprocessor.workers.size = size := by
  simp [shape, Array.getElem?_toList]

end Shapes

/-- The workers have been dealt these commands in turn, and still have them all. -/
structure Dealt (sent : List Command) (device : Device) : Prop where
  inhabited : device.shape ≠ []
  staffed : ∀ size ∈ device.shape, size ≠ 0
  turn : device.turn = sent.length
  holding : ∀ i size, device.shape[i]? = some size → ∀ j worker, device.worker? i j = some worker →
    worker.Holding (parcel sent device.shape.length i size j)

section Dealing
variable {sent : List Command} {device device' : Device} {i j : Nat} {command : Command}
  {multiprocessor : Multiprocessor}

theorem Dealt.worker {worker : Worker} (h : Dealt sent device)
    (hi : device.multiprocessors[i]? = some multiprocessor) (hj : multiprocessor.workers[j]? = some worker) :
    worker.Holding (parcel sent device.multiprocessors.size i multiprocessor.workers.size j) :=
  length_shape device ▸ h.holding i _ (shape_eq_some.2 ⟨_, hi, rfl⟩) j worker (worker?_eq_some.2 ⟨_, hi, hj⟩)

theorem Dealt.workers_pos (h : Dealt sent device) (hi : device.multiprocessors[i]? = some multiprocessor) :
    0 < multiprocessor.workers.size :=
  Nat.pos_of_ne_zero (h.staffed _ (List.mem_of_getElem? (shape_eq_some.2 ⟨_, hi, rfl⟩)))

theorem Dealt.loads (h : Dealt sent device) (hi : device.multiprocessors[i]? = some multiprocessor) :
    multiprocessor.loads = (List.range multiprocessor.workers.size).map
      (share (share sent.length device.multiprocessors.size i) multiprocessor.workers.size) := by
  refine map_toList_eq_range fun j worker hj => ?_
  rw [(h.worker hi hj).load]
  exact length_parcel (Array.getElem?_eq_some_iff.1 hi).1 (Array.getElem?_eq_some_iff.1 hj).1 sent

theorem Dealt.sum_loads (h : Dealt sent device) (hi : device.multiprocessors[i]? = some multiprocessor) :
    multiprocessor.loads.sum = share sent.length device.multiprocessors.size i := by
  rw [h.loads hi, sum_share (h.workers_pos hi)]

/-- The load of a worker is the number of commands it was given. -/
theorem Dealt.sum_outstanding (h : Dealt sent device)
    (hi : device.multiprocessors[i]? = some multiprocessor) :
    (multiprocessor.workers.toList.map (·.outstanding.length)).sum = multiprocessor.loads.sum := by
  refine congrArg List.sum (List.map_congr_left fun worker hworker => ?_)
  obtain ⟨j, hj⟩ := Array.mem_iff_getElem?.1 (Array.mem_toList_iff.1 hworker)
  have hholding := h.worker hi hj
  rw [hholding.outstanding, hholding.load]

/-- All loads together are the commands that were submitted. -/
theorem Dealt.sum_sum_loads (h : Dealt sent device) :
    (device.multiprocessors.toList.map (·.loads.sum)).sum = sent.length := by
  rw [map_toList_eq_range fun i multiprocessor hi => h.sum_loads hi, sum_share]
  exact length_shape device ▸ List.length_pos_iff.2 h.inhabited

/-- The next dispatch goes to the worker whose turn it is. -/
theorem Dealt.submit_next (h : Dealt sent device) (hcommand : command.isNDRange = true) :
    ∃ size worker, device.shape[sent.length % device.shape.length]? = some size ∧
      device.worker? (sent.length % device.shape.length) (sent.length / device.shape.length % size) =
        some worker ∧
      device.submit command = ((worker.submit command).1, (device.routed command).setWorker
        (sent.length % device.shape.length) (sent.length / device.shape.length % size)
        (worker.submit command).2) := by
  have hturn : device.route command = sent.length % device.shape.length := by
    rw [route, if_pos hcommand, h.turn, length_shape]
  have hlt : device.route command < device.multiprocessors.size := by
    rw [hturn, ← length_shape]
    exact Nat.mod_lt _ (List.length_pos_iff.2 h.inhabited)
  obtain ⟨multiprocessor, hi⟩ : ∃ multiprocessor, device.multiprocessors[device.route command]? =
      some multiprocessor := ⟨_, Array.getElem?_eq_getElem hlt⟩
  have hsize : device.shape[device.route command]? = some multiprocessor.workers.size :=
    shape_eq_some.2 ⟨_, hi, rfl⟩
  have hpos := h.workers_pos hi
  -- The shares of its workers say which of them is the first with the least.
  have hleast := Multiprocessor.firstLeast_leastLoaded (Nat.ne_of_gt hpos)
  rw [h.loads hi, ← length_shape, hturn, share_next] at hleast
  have hroute : multiprocessor.route command =
      sent.length / device.shape.length % multiprocessor.workers.size := by
    rw [Multiprocessor.route, if_pos hcommand]
    exact hleast.unique (firstLeast_share hpos _)
  obtain ⟨worker, hj⟩ : ∃ worker, multiprocessor.workers[multiprocessor.route command]? = some worker :=
    ⟨_, Array.getElem?_eq_getElem (hroute ▸ Nat.mod_lt _ hpos)⟩
  have hsubmit := submit_of_worker hi hj
  rw [hturn] at hi hsize hsubmit
  rw [hroute] at hj hsubmit
  exact ⟨_, _, hsize, worker?_eq_some.2 ⟨_, hi, hj⟩, hsubmit⟩

theorem Dealt.set {sent' : List Command} (h : Dealt sent device) (shape' : device'.shape = device.shape)
    (turn' : device'.turn = sent'.length)
    (holding' : ∀ i size, device.shape[i]? = some size → ∀ j worker, device'.worker? i j = some worker →
      worker.Holding (parcel sent' device.shape.length i size j)) : Dealt sent' device' := by
  rw [← shape'] at holding'
  exact ⟨shape' ▸ h.inhabited, shape' ▸ h.staffed, turn', holding'⟩

theorem Dealt.submit (h : Dealt sent device) (hroom : sent.length + 1 < Size.limit)
    (hcommand : command.isNDRange = true) (haccepted : device.submit command = (true, device')) :
    Dealt (sent ++ [command]) device' ∧ device'.shape = device.shape := by
  obtain ⟨size, worker, hsize, hworker, hsubmit⟩ := h.submit_next hcommand
  obtain ⟨hpushed, rfl⟩ := Prod.mk.inj (hsubmit.symm.trans haccepted)
  have hworker' : (device.routed command).worker? _ _ = some worker := hworker
  have hshape := shape_setWorker hworker' (worker.submit command).2
  rw [show (device.routed command).shape = device.shape from rfl] at hshape
  refine ⟨h.set hshape ?_ ?_, hshape⟩
  · rw [turn_setWorker, routed, if_pos hcommand, h.turn, Size.succ, Nat.mod_eq_of_lt hroom,
      List.length_append, List.length_singleton]
  · intro i size' hi j other hother
    rw [worker?_setWorker hworker'] at hother
    rw [parcel_concat]
    split at hother
    · next hturn =>
      obtain ⟨rfl, rfl⟩ := hturn
      obtain rfl := Option.some.inj hother
      obtain rfl := Option.some.inj (hsize.symm.trans hi)
      rw [if_pos ⟨rfl, rfl⟩]
      refine (h.holding _ _ hsize _ _ hworker).submit ?_ hpushed
      have := length_parcel_le sent device.shape.length (sent.length % device.shape.length) size
        (sent.length / device.shape.length % size)
      omega
    · next hturn =>
      rw [if_neg, List.append_nil]
      · exact h.holding i size' hi j other hother
      · rintro ⟨rfl, rfl⟩
        obtain rfl := Option.some.inj (hsize.symm.trans hi)
        exact hturn ⟨rfl, rfl⟩

theorem Dealt.work (h : Dealt sent device) (hstep : device.step? (.worker i j) = some device')
    (hover : ∀ worker, device.worker? i j = some worker → ¬ worker.phase.Over) :
    Dealt sent device' ∧ device'.shape = device.shape := by
  obtain ⟨worker, shared, worker', hworker, hturned, rfl⟩ := step?_worker.1 hstep
  have hshape := shape_setWorker hworker worker'
  have hturn := turn_setWorker device i j worker'
  refine ⟨h.set hshape (hturn.trans h.turn) fun i' size hi j' other hother => ?_, hshape⟩
  rw [show Device.worker? { device.setWorker i j worker' with shared } i' j' = _ from
    worker?_setWorker hworker i' j'] at hother
  split at hother
  · next heq =>
    obtain ⟨rfl, rfl⟩ := heq
    obtain rfl := Option.some.inj hother
    exact (h.holding i' size hi j' worker hworker).step hturned (hover worker hworker)
  · exact h.holding i' size hi j' other hother

/-- A dispatch is turned away only by a worker whose command is over. -/
theorem Dealt.accepted (h : Dealt sent device) (hcommand : command.isNDRange = true)
    (hover : ∀ i j worker, device.worker? i j = some worker → ¬ worker.phase.Over) :
    (device.submit command).1 = true := by
  obtain ⟨size, worker, hsize, hworker, hsubmit⟩ := h.submit_next hcommand
  rw [hsubmit]
  refine (Multiprocessor.submit_worker worker command).2 ?_
  rw [← Bool.not_eq_true]
  exact fun hclosed => hover _ _ worker hworker ((h.holding _ _ hsize _ _ hworker).closed hclosed)

end Dealing

/-! ## Runs -/

/-- A client submits dispatches and all of them are accepted, while no worker takes a command off its load.
What is shared may change in every way meanwhile. -/
inductive Rush (start : Device) : List Command → Device → Prop
  | start : Rush start [] start
  | submit {sent : List Command} {device device' : Device} {command : Command} :
      Rush start sent device → command.isNDRange = true → device.submit command = (true, device') →
      Rush start (sent ++ [command]) device'
  | work {sent : List Command} {device device' : Device} {i j : Nat} : Rush start sent device →
      device.step? (.worker i j) = some device' →
      (∀ worker, device.worker? i j = some worker → ¬ worker.phase.Over) → Rush start sent device'
  | meanwhile {sent : List Command} {device : Device} (shared : Shared) :
      Rush start sent device → Rush start sent { device with shared }

section Runs
variable {cores : Nat} {config : Config} {blockLimit : Fin Size.limit} {start device : Device}
  {sent : List Command}

theorem dealt_create (h : create cores config blockLimit = .ok start) : Dealt [] start := by
  have hshape := create_shape h
  obtain ⟨hworkers, _, _, -, -, hstart⟩ := create_eq_ok.1 h
  refine ⟨?_, ?_, ?_, fun i size hi j worker hworker => ?_⟩
  · rw [hshape, Ne, List.map_eq_nil_iff, List.range_eq_nil]
    unfold Config.groups
    omega
  · rw [hshape]
    intro size hsize
    obtain ⟨group, hgroup, rfl⟩ := List.mem_map.1 hsize
    have := List.mem_range.1 hgroup
    exact (share_ne_zero_iff (by omega)).2 (by omega)
  · rw [← hstart]
    rfl
  · exact ((create_fresh h).1 i j worker hworker).holding

/-- By induction on the run. -/
theorem Rush.dealt (h : Rush start sent device) (hstart : Dealt [] start) (hroom : sent.length < Size.limit) :
    Dealt sent device ∧ device.shape = start.shape := by
  induction h with
  | start => exact ⟨hstart, rfl⟩
  | submit _ hcommand haccepted ih =>
    rw [List.length_append, List.length_singleton] at hroom
    obtain ⟨hdealt, hshape⟩ := ih (by omega)
    obtain ⟨hdealt', hshape'⟩ := hdealt.submit hroom hcommand haccepted
    exact ⟨hdealt', hshape'.trans hshape⟩
  | work _ hstep hover ih =>
    obtain ⟨hdealt, hshape⟩ := ih hroom
    obtain ⟨hdealt', hshape'⟩ := hdealt.work hstep hover
    exact ⟨hdealt', hshape'.trans hshape⟩
  | meanwhile shared _ ih =>
    obtain ⟨hdealt, hshape⟩ := ih hroom
    exact ⟨⟨hdealt.inhabited, hdealt.staffed, hdealt.turn, hdealt.holding⟩, hshape⟩

/-- There is a device for every configuration with a worker that the machine has room for. If dispatches are
submitted to it and accepted one after another, and none of them is taken off a load meanwhile, each
multiprocessor gets an equal share of them and deals it out in equal shares to its workers. As long as no
command is over, every further one is accepted. -/
theorem dispatches_spread (cores : Nat) (config : Config) (blockLimit : Fin Size.limit) :
    ((∃ start, create cores config blockLimit = .ok start) ↔ config.workers ≠ 0 ∧
      config.groups * Config.partitionEntry ≤ Size.arrayLimit ∧ config.localMemory ≤ blockLimit) ∧
    ∀ start sent device, create cores config blockLimit = .ok start → Rush start sent device →
      sent.length < Size.limit →
      device.multiprocessors.size = min config.groups config.workers ∧
      (∀ i multiprocessor, device.multiprocessors[i]? = some multiprocessor →
        multiprocessor.workers.size = share config.workers config.groups i ∧
        (multiprocessor.workers.toList.map (·.outstanding.length)).sum =
          share sent.length device.multiprocessors.size i ∧
        multiprocessor.loads = (List.range multiprocessor.workers.size).map
          (share (share sent.length device.multiprocessors.size i) multiprocessor.workers.size) ∧
        (∀ j worker, multiprocessor.workers[j]? = some worker → worker.outstanding =
          parcel sent device.multiprocessors.size i multiprocessor.workers.size j) ∧
        ∀ load ∈ multiprocessor.loads, ∀ other ∈ multiprocessor.loads, load ≤ other + 1) ∧
      (device.multiprocessors.toList.map (·.loads.sum)).sum = sent.length ∧
      ∀ command : Command, command.isNDRange = true →
        (∀ i j worker, device.worker? i j = some worker → ¬ worker.phase.Over) →
        (device.submit command).1 = true := by
  refine ⟨create_ok_iff, fun start sent device hcreate hrush hroom => ?_⟩
  obtain ⟨hdealt, hshape⟩ := hrush.dealt (dealt_create hcreate) hroom
  have hsizes := hshape.trans (create_shape hcreate)
  refine ⟨?_, fun i multiprocessor hi => ⟨?_, ?_, hdealt.loads hi, fun j worker hj => ?_, ?_⟩,
    hdealt.sum_sum_loads, fun command hcommand => hdealt.accepted hcommand⟩
  · rw [← length_shape, hsizes, List.length_map, List.length_range]
  · have hsize := shape_eq_some.2 ⟨multiprocessor, hi, rfl⟩
    rw [hsizes, List.getElem?_map, Option.map_eq_some_iff] at hsize
    obtain ⟨group, hgroup, hsize⟩ := hsize
    obtain ⟨_, rfl⟩ := List.getElem?_eq_some_iff.1 hgroup
    rw [← hsize, List.getElem_range]
  · rw [hdealt.sum_outstanding hi, hdealt.sum_loads hi]
  · exact (hdealt.worker hi hj).outstanding
  · rw [hdealt.loads hi]
    intro load hload other hother
    obtain ⟨j, -, rfl⟩ := List.mem_map.1 hload
    obtain ⟨k, -, rfl⟩ := List.mem_map.1 hother
    exact share_le_succ _ _ j k

/-- Three workers in two groups. -/
def smallConfig : Config :=
  { (default : Config) with multiprocessors := 2, workers := 3, localMemory := 1 }

/-- Five dispatches on three workers. The first one is begun before the last two come. -/
theorem dispatches_spread_five : ∃ start sent device first second, create 4 smallConfig = .ok start ∧
    Rush start sent device ∧ sent.length = 5 ∧ device.multiprocessors = #[first, second] ∧
    first.loads = [2, 1] ∧ second.loads = [2] := by
  have hstart : ∀ {start}, create 4 smallConfig = .ok start → Rush start [] start := fun _ => .start
  have hsubmit : ∀ {start device : Device} {sent : List Command} (n : Nat), Rush start sent device →
      (device.submit (.task ⟨n⟩ default [])).1 = true →
      Rush start (sent ++ [.task ⟨n⟩ default []]) (device.submit (.task ⟨n⟩ default [])).2 :=
    fun n hrush haccepted => hrush.submit rfl (Prod.ext haccepted rfl)
  have hcreate : create 4 smallConfig = .ok _ :=
    create_eq_ok.2 ⟨by decide, [[0, 2], [1]], _, rfl, rfl, rfl⟩
  have hthree := hsubmit 2 (hsubmit 1 (hsubmit 0 (hstart hcreate) rfl) rfl) rfl
  have hbegun := hthree.work (i := 0) (j := 0) rfl fun worker hworker => by
    cases hworker
    exact not_false
  have hfive := hsubmit 4 (hsubmit 3 hbegun rfl) rfl
  obtain ⟨-, hmultiprocessors, -⟩ :=
    (dispatches_spread 4 smallConfig Heap.usualLimit).2 _ _ _ hcreate hfive (by decide)
  exact ⟨_, _, _, _, _, hcreate, hfive, rfl, rfl, (hmultiprocessors 0 _ rfl).2.2.1,
    (hmultiprocessors 1 _ rfl).2.2.1⟩

end Runs

end Device

end ComputeCore
