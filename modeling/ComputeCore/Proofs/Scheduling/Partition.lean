import Mathlib.Algebra.BigOperators.Group.Finset.Piecewise
import Mathlib.Algebra.GroupWithZero.Nat
import Mathlib.Data.List.Intervals
import ComputeCore.Proofs.Memory.Arena
import ComputeCore.Proofs.Scheduling.Workers
/-!
# Dealing out workers

The workers of a device are dealt out to its multiprocessors in turn, so each multiprocessor has an equal
share of them, up to the one more that the first ones may have (`share`). The same will hold of the
commands that a device deals out.

A new device has as many multiprocessors as get a worker (`Device.create_shape`). There is one for every
configuration with a worker that the machine has room for (`Device.create_ok_iff`).
-/

namespace ComputeCore

/-! ## Shares -/

/-- How much comes to party `i` when this much is dealt out in turn, one by one. -/
def share (dealt parties i : Nat) : Nat :=
  dealt / parties + if i < dealt % parties then 1 else 0

section Shares
variable {dealt parties i : Nat}

theorem share_zero (parties i : Nat) : share 0 parties i = 0 := by
  simp [share]

/-- Whoever gets the next one has had no more than each full round has brought. -/
theorem share_next (dealt parties : Nat) : share dealt parties (dealt % parties) = dealt / parties := by
  simp [share]

theorem share_succ (hi : i < parties) :
    share (dealt + 1) parties i = share dealt parties i + if i = dealt % parties then 1 else 0 := by
  have hparties : 0 < parties := Nat.zero_lt_of_lt hi
  have hdealt := Nat.mod_add_div dealt parties
  have hlt := Nat.mod_lt dealt hparties
  by_cases hround : dealt % parties + 1 = parties
  · -- The next one is the last one of its round.
    obtain ⟨hdiv, hmod⟩ := (Nat.div_mod_unique (a := dealt + 1) (d := dealt / parties + 1) (c := 0) hparties).2
      ⟨by rw [Nat.mul_succ]; omega, hparties⟩
    rw [share, share, hdiv, hmod, if_neg (Nat.not_lt_zero i)]
    split <;> split <;> omega
  · obtain ⟨hdiv, hmod⟩ := (Nat.div_mod_unique (a := dealt + 1) (d := dealt / parties)
      (c := dealt % parties + 1) hparties).2 ⟨by omega, by omega⟩
    rw [share, share, hdiv, hmod]
    split <;> split <;> split <;> omega

/-- No two shares differ by more than one. -/
theorem share_le_succ (dealt parties i j : Nat) : share dealt parties i ≤ share dealt parties j + 1 := by
  unfold share
  split <;> split <;> omega

theorem share_ne_zero_iff (hi : i < parties) : share dealt parties i ≠ 0 ↔ i < dealt := by
  have hparties : 0 < parties := Nat.zero_lt_of_lt hi
  by_cases hfew : dealt < parties
  · rw [share, Nat.div_eq_of_lt hfew, Nat.mod_eq_of_lt hfew]
    split <;> omega
  · have := Nat.div_pos (Nat.le_of_not_lt hfew) hparties
    unfold share
    omega

/-- Nothing is left over. By induction on what is dealt out. -/
theorem sum_share (hparties : 0 < parties) (dealt : Nat) :
    ((List.range parties).map (share dealt parties)).sum = dealt := by
  show ∑ i ∈ Finset.range parties, share dealt parties i = dealt
  induction dealt with
  | zero => simp [share_zero]
  | succ dealt ih =>
    have hnext : dealt % parties ∈ Finset.range parties := Finset.mem_range.2 (Nat.mod_lt dealt hparties)
    rw [Finset.sum_congr rfl fun i hi => share_succ (Finset.mem_range.1 hi), Finset.sum_add_distrib, ih,
      Finset.sum_ite_eq', if_pos hnext]

theorem length_filter_mod (hi : i < parties) (dealt : Nat) :
    ((List.range dealt).filter (· % parties = i)).length = share dealt parties i := by
  induction dealt with
  | zero => simp [share_zero]
  | succ dealt ih =>
    rw [List.range_succ, List.filter_append, List.length_append, ih, share_succ hi, List.filter_singleton]
    by_cases hnext : dealt % parties = i
    · simp [hnext]
    · simp [hnext, Ne.symm hnext]

end Shares

/-! ## The workers of a new device -/

section Groups
variable {config : Config} {cores : Nat} {partition : List (List Nat)}

theorem Config.length_pool {group : Nat} (hgroup : group < config.groups) (cores : Nat) :
    (config.pool cores group).length = share config.workers config.groups group := by
  rw [pool, List.length_map]
  exact length_filter_mod hgroup config.workers

/-- The groups that get a worker are the first ones. -/
theorem Config.partition_sizes (h : config.partition cores = .ok partition) :
    (partition.filter fun cores => !cores.isEmpty).map List.length =
      (List.range (min config.groups config.workers)).map (share config.workers config.groups) := by
  obtain ⟨-, rfl⟩ := partition_eq_ok.1 h
  have hsome : (List.range config.groups).filter (fun group => !(config.pool cores group).isEmpty) =
      (List.range config.groups).filter (· < config.workers) := by
    refine List.filter_congr fun group hgroup => ?_
    rw [Bool.eq_iff_iff, decide_eq_true_iff, ← share_ne_zero_iff (List.mem_range.1 hgroup),
      ← length_pool (List.mem_range.1 hgroup) cores]
    simp
  have hfirst : (List.range config.groups).filter (· < config.workers) =
      List.range (min config.groups config.workers) := by
    rw [← List.Ico.zero_bot, ← List.Ico.zero_bot, List.Ico.filter_lt]
  rw [List.filter_map, List.map_map, ← hfirst, ← hsome]
  refine List.map_congr_left fun group hgroup => ?_
  exact length_pool (List.mem_range.1 (List.mem_of_mem_filter hgroup)) cores

end Groups

namespace Multiprocessor

theorem spawnWorkers_ok_iff (localMemory : Nat) (cores : List Nat) : ∀ (heap : Heap) (id : Nat),
    (∃ workers, spawnWorkers localMemory heap id cores = .ok workers) ↔
      (cores ≠ [] → localMemory ≤ heap.blockLimit) := by
  induction cores with
  | nil => exact fun heap id => ⟨fun _ h => absurd rfl h, fun _ => ⟨_, rfl⟩⟩
  | cons core cores ih =>
    intro heap id
    simp only [spawnWorkers_cons, LocalArena.create, Heap.allocate?]
    by_cases hlocal : localMemory ≤ heap.blockLimit
    · obtain ⟨workers, hworkers⟩ :=
        (ih (heap.adopt (Array.replicate localMemory 0)).2 (id + 1)).2 fun _ => hlocal
      rw [if_pos hlocal]
      exact ⟨fun _ _ => hlocal, fun _ => ⟨_, _, _, workers, rfl, hworkers, rfl⟩⟩
    · simp [hlocal]

/-- The host goes on to provide what it did. -/
theorem spawnWorkers_blockLimit {localMemory : Nat} : ∀ {cores : List Nat} {heap : Heap} {id : Nat}
    {spawned : List Worker × Heap}, spawnWorkers localMemory heap id cores = .ok spawned →
    spawned.2.blockLimit = heap.blockLimit := by
  intro cores
  induction cores with
  | nil =>
    intro heap id spawned h
    cases h
    rfl
  | cons core cores ih =>
    intro heap id spawned h
    obtain ⟨arena, heap', workers, harena, hrest, rfl⟩ := spawnWorkers_cons.1 h
    exact (ih hrest).trans (LocalArena.create_eq_ok harena).2.2.2

section Create
variable {id : Nat} {cores : List Nat} {shared : Shared} {created : Multiprocessor × Shared}

theorem create_ok_iff : (∃ created, create id cores shared = .ok created) ↔
    cores ≠ [] ∧ shared.localMemory ≤ shared.memory.heap.blockLimit := by
  have hspawn := spawnWorkers_ok_iff shared.localMemory cores shared.memory.heap 0
  simp only [create_eq_ok]
  constructor
  · rintro ⟨_, hcores, spawned, h, -⟩
    exact ⟨hcores, hspawn.1 ⟨spawned, h⟩ hcores⟩
  · rintro ⟨hcores, hlocal⟩
    obtain ⟨spawned, h⟩ := hspawn.2 fun _ => hlocal
    exact ⟨_, hcores, spawned, h, rfl⟩

theorem create_size (h : create id cores shared = .ok created) :
    created.1.workers.size = cores.length ∧ created.2.localMemory = shared.localMemory ∧
      created.2.memory.heap.blockLimit = shared.memory.heap.blockLimit := by
  obtain ⟨-, ⟨workers, heap⟩, hspawn, rfl⟩ := create_eq_ok.1 h
  exact ⟨(spawnWorkers_fresh hspawn).1, rfl, spawnWorkers_blockLimit hspawn⟩

end Create

end Multiprocessor

namespace Device

/-- How many workers each multiprocessor has. -/
def shape (device : Device) : List Nat :=
  device.multiprocessors.toList.map (·.workers.size)

section Create
variable {cores : Nat} {config : Config} {blockLimit : Fin Size.limit} {device : Device}
  {pools : List (List Nat)}

theorem createPools_sizes : ∀ {pools : List (List Nat)} {shared : Shared} {id : Nat}
    {created : List Multiprocessor × Shared}, createPools shared id pools = .ok created →
    created.1.map (·.workers.size) = pools.map List.length := by
  intro pools
  induction pools with
  | nil =>
    intro shared id created h
    cases h
    rfl
  | cons pool pools ih =>
    intro shared id created h
    obtain ⟨first, rest, hfirst, hrest, rfl⟩ := createPools_cons.1 h
    rw [List.map_cons, List.map_cons, ih hrest, (Multiprocessor.create_size hfirst).1]

theorem createPools_ok_iff : ∀ {pools : List (List Nat)} {shared : Shared} {id : Nat},
    (∀ pool ∈ pools, pool ≠ []) →
    ((∃ created, createPools shared id pools = .ok created) ↔
      (pools ≠ [] → shared.localMemory ≤ shared.memory.heap.blockLimit)) := by
  intro pools
  induction pools with
  | nil => exact fun _ => ⟨fun _ h => absurd rfl h, fun _ => ⟨_, rfl⟩⟩
  | cons pool pools ih =>
    intro shared id hpools
    obtain ⟨hpool, hpools⟩ := List.forall_mem_cons.1 hpools
    constructor
    · rintro ⟨created, h⟩ -
      obtain ⟨first, -, hfirst, -, -⟩ := createPools_cons.1 h
      exact (Multiprocessor.create_ok_iff.1 ⟨first, hfirst⟩).2
    · intro hlocal
      have hlocal := hlocal (List.cons_ne_nil pool pools)
      obtain ⟨first, hfirst⟩ : ∃ first, Multiprocessor.create id pool shared = .ok first :=
        Multiprocessor.create_ok_iff.2 ⟨hpool, hlocal⟩
      obtain ⟨-, hsame, hlimit⟩ := Multiprocessor.create_size hfirst
      obtain ⟨rest, hrest⟩ : ∃ rest, createPools first.2 (id + 1) pools = .ok rest :=
        (ih hpools).2 fun _ => by rwa [hsame, hlimit]
      exact ⟨_, createPools_cons.2 ⟨first, rest, hfirst, hrest, rfl⟩⟩

/-- A new device has one multiprocessor for each group that gets a worker. -/
theorem create_shape (h : create cores config blockLimit = .ok device) :
    device.shape = (List.range (min config.groups config.workers)).map (share config.workers config.groups) := by
  obtain ⟨-, partition, created, hpartition, hpools, rfl⟩ := create_eq_ok.1 h
  exact (createPools_sizes hpools).trans (Config.partition_sizes hpartition)

/-- There is a device for every configuration with a worker, if the machine can list the groups and set
aside the local memory of a worker. -/
theorem create_ok_iff : (∃ device, create cores config blockLimit = .ok device) ↔
    config.workers ≠ 0 ∧ config.groups * Config.partitionEntry ≤ Size.arrayLimit ∧
      config.localMemory ≤ blockLimit := by
  have hpools : ∀ partition : List (List Nat), ∀ pool ∈ partition.filter fun cores => !cores.isEmpty,
      pool ≠ [] := fun partition pool hpool => by
    simpa using (List.mem_filter.1 hpool).2
  constructor
  · rintro ⟨device, h⟩
    obtain ⟨hworkers, partition, created, hpartition, hcreated, -⟩ := create_eq_ok.1 h
    have hlocal := (createPools_ok_iff (hpools partition)).1 ⟨created, hcreated⟩
      (Config.partition_ne_nil hworkers hpartition)
    exact ⟨hworkers, (Config.partition_eq_ok.1 hpartition).1, hlocal⟩
  · rintro ⟨hworkers, hfits, hlocal⟩
    let shared : Shared :=
      { memory := .ofCapacity config.globalMemory blockLimit, localMemory := config.localMemory, sink := .device }
    obtain ⟨created, hcreated⟩ := (@createPools_ok_iff _ shared 0 (hpools _)).2 fun _ => hlocal
    exact ⟨_, create_eq_ok.2 ⟨hworkers, _, created, Config.partition_eq_ok.2 ⟨hfits, rfl⟩, hcreated, rfl⟩⟩

end Create

end Device

end ComputeCore
