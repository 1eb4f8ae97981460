import ComputeCore.Proofs.Dict
import ComputeCore.Proofs.Scheduling.Ledger
/-!
# Recorded statuses

The statuses a device keeps are those that stand in the history of its host: recorded, and not asked
for since. Whoever asks is given what stands, so the statuses kept and those given away are together
as many as were recorded.
-/

namespace ComputeCore

open History

namespace Host

/-- The statuses the device keeps are those that were recorded and not asked for since. -/
structure Accounts (host : Host) : Prop where
  found : ∀ command, host.device.shared.statuses.find? command = standing host.log command
  distinct : host.device.shared.statuses.Distinct
  count : host.device.shared.statuses.size + (host.log.filterMap Happening.taken?).length =
    (host.log.filterMap Happening.recorded?).length
  answered : Throughout Answered host.log
section Steps
variable {host host' : Host} {device : Device} {command : CommandId}

/-- Only recording a status and asking for it changes what stands. -/
theorem Accounts.silent (h : host.Accounts) (more : Option Happening)
    (hstatuses : host'.device.shared.statuses = host.device.shared.statuses)
    (hlog : host'.log = host.log ++ more.toList)
    (hmore : ∀ happening ∈ more, happening.recorded? = none ∧
      ∀ command answer, happening ≠ .asked command answer) : host'.Accounts := by
  have hstanding : ∀ command, standing host'.log command = standing host.log command := by
    intro command
    rw [hlog, standing_append]
    cases more with
    | none => rfl
    | some happening =>
      obtain ⟨hrecorded, hasked⟩ := hmore happening rfl
      cases happening <;> simp_all [Happening.standing, Happening.recorded?]
  have htaken : host'.log.filterMap Happening.taken? = host.log.filterMap Happening.taken? ∧
      host'.log.filterMap Happening.recorded? = host.log.filterMap Happening.recorded? := by
    rw [hlog, List.filterMap_append, List.filterMap_append]
    cases more with
    | none => simp
    | some happening =>
      obtain ⟨hrecorded, hasked⟩ := hmore happening rfl
      cases happening <;> simp_all [Happening.taken?, List.filterMap_cons]
  refine ⟨fun command => ?_, hstatuses ▸ h.distinct, ?_, ?_⟩
  · rw [hstatuses, hstanding, h.found]
  · rw [hstatuses, htaken.1, htaken.2, h.count]
  · rw [hlog]
    exact h.answered.append more fun happening hnew command answer heq =>
      absurd heq ((hmore happening hnew).2 command answer)

theorem Accounts.record (h : host.Accounts) {status : Status}
    (hfirst : ∀ status, .recorded command status ∉ host.log)
    (hstatuses : host'.device.shared.statuses = host.device.shared.statuses.insert command status)
    (hlog : host'.log = host.log ++ [.recorded command status]) : host'.Accounts := by
  have hunbound : host.device.shared.statuses.find? command = none :=
    (h.found command).trans (standing_eq_none hfirst)
  refine ⟨fun other => ?_, hstatuses ▸ h.distinct.insert command status, ?_, ?_⟩
  · rw [hstatuses, hlog, Dict.find?_insert, standing_append, h.found]
    simp [Happening.standing, eq_comm]
  · have hcount := h.count
    rw [hstatuses, hlog, Dict.size_insert hunbound]
    simp [List.filterMap_cons, Happening.taken?, Happening.recorded?]
    omega
  · rw [hlog]
    exact h.answered.append (some (.recorded command status)) (by simp [Answered])

theorem Accounts.ask (h : host.Accounts) (command : CommandId) :
    Accounts { host with
      device := (host.device.takeStatus command).2
      log := host.log ++ [.asked command (host.device.takeStatus command).1] } := by
  have hanswer : (host.device.takeStatus command).1 = standing host.log command := h.found command
  refine ⟨fun other => ?_, h.distinct.erase command, ?_, ?_⟩
  · have hfound : (host.device.shared.statuses.erase command).find? other = _ :=
      Dict.find?_erase _ command other
    rw [standing_append]
    exact hfound.trans (by simp [Happening.standing, h.found, eq_comm])
  · have hcount := h.count
    cases hfind : host.device.shared.statuses.find? command with
    | none =>
      have hkept := Dict.erase_of_unbound hfind
      simpa [Device.takeStatus, hfind, hkept, List.filterMap_cons, Happening.taken?,
        Happening.recorded?] using hcount
    | some status =>
      have hsize := h.distinct.size_erase hfind
      simp [Device.takeStatus, hfind, List.filterMap_cons, Happening.taken?, Happening.recorded?]
      omega
  · refine h.answered.append (some _) fun happening hnew other answer heq => ?_
    obtain rfl := Option.some.inj hnew
    obtain ⟨rfl, rfl⟩ := Happening.asked.inj heq
    exact hanswer

theorem Accounts.step (h : host.Accounts) (hroster : host.Roster) (hledger : host.Ledger)
    (hstep : Step host host') : host'.Accounts := by
  cases hstep with
  | enqueue command fresh independent => exact h.silent none rfl (by simp) (by simp)
  | goOn here moves =>
    rename_i n call device stage
    refine h.silent _ ?_ rfl ?_
    · rcases moves.shared with hshared | ⟨-, hshared⟩ <;> rw [hshared]
    · cases stage <;> simp [EnqueueCall.tells?, Happening.recorded?]
  | close here => exact h.silent none (by simp) (by simp) (by simp)
  | wait event => exact h.silent none rfl (by simp) (by simp)
  | ask command => exact h.ask command
  | work here step given =>
    have htelling := (Worker.turn step).telling (hledger.told _ _ _ here) hroster.sink
      (hroster.once _ _ _ here)
    cases htelling with
    | silent tells told statuses => exact h.silent none statuses (by simp [tells]) (by simp)
    | finishes command ending healthy mine phase tells untold told statuses =>
      exact h.silent _ statuses (congrArg (host.log ++ ·.toList) tells) (by simp [Happening.recorded?])
    | records command status mine tells finished first told statuses =>
      exact h.record first statuses (congrArg (host.log ++ ·.toList) tells)
  | copy number step =>
    obtain ⟨shared, hcopy, rfl⟩ := Device.step?_copy.1 step
    refine h.silent none ?_ (by simp) (by simp)
    obtain ⟨task, -, ⟨-, memory, stage, rfl⟩ | ⟨-, rfl⟩⟩ := Shared.stepCopy?_eq_some hcopy <;> rfl
  | waiter number step =>
    obtain ⟨events, -, rfl⟩ := Device.step?_waiter.1 step
    exact h.silent _ rfl rfl (by simp +contextual [Happening.recorded?])
  | meanwhile shared events statuses copies sink =>
    exact h.silent none statuses (by simp) (by simp)

theorem accounts_start {cores : Nat} {config : Config} {blockLimit : Fin Size.limit}
    (h : Device.create cores config blockLimit = .ok device) :
    Accounts { device } := by
  obtain ⟨-, memory, localMemory, hshared⟩ := Device.create_fresh h
  have hstatuses : device.shared.statuses = {} := congrArg Shared.statuses hshared
  refine ⟨fun command => ?_, ?_, ?_, throughout_nil _⟩
  · rw [hstatuses]
    rfl
  · rw [hstatuses]
    exact Dict.distinct_empty
  · rw [hstatuses]
    rfl

theorem Reachable.accounts (h : Reachable host) : host.Accounts := by
  induction h with
  | start hcreate => exact accounts_start hcreate
  | step hreachable hstep _ ih => exact ih.step hreachable.roster hreachable.ledger hstep

end Steps

end Host

end ComputeCore
