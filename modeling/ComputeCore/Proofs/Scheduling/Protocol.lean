import ComputeCore.Proofs.Scheduling.Accounts
import ComputeCore.Proofs.Scheduling.Enqueue
import ComputeCore.Proofs.Scheduling.Origins
/-!
# The completion protocol

What a host can rely on, whatever its threads and those of the device do in between
(`Host.Reachable.protocol`): a wait comes back when the command is over and its status recorded, the
status is given to one who asks, and nothing is left of calls that were refused or waited for.
-/

namespace ComputeCore

open History

namespace Host

section Protocol
variable {host host' : Host}

theorem timely_step (h : Throughout Timely host.log) (hreachable : host.Reachable)
    (hstep : Step host host') : Throughout Timely host'.log := by
  have hquiet : ∀ more : Option Happening, (∀ event, more ≠ some (.returned event)) →
      Throughout Timely (host.log ++ more.toList) := fun more hmore =>
    h.append more fun happening hnew command event heq => absurd (heq ▸ hnew) (hmore event)
  cases hstep with
  | enqueue command fresh independent => exact h
  | goOn here moves => exact hquiet _ (EnqueueCall.tells?_ne_returned _ _)
  | close here => exact h
  | wait event => exact h
  | ask command => exact hquiet (some _) (by simp)
  | work here step given => exact hquiet _ (Worker.tells?_ne_returned _ _)
  | copy number step => exact h
  | waiter number step =>
    obtain ⟨events, hevents, rfl⟩ := Device.step?_waiter.1 step
    refine h.append _ fun happening hnew command event heq haccepted => ?_
    have hreturned : host.device.shared.events.returned? events number = some event := by
      simpa [heq] using hnew
    obtain ⟨call, hcall, rfl, rfl, hstage⟩ := (hreachable.ledger.accepted command event).1 haccepted
    -- While anybody still has to complete the event, no wait for it comes back.
    have hpending := (WaitList.returned_gone hevents hreturned).1
    refine (hreachable.ledger.carried call hcall hstage).resolve_left fun howes => hpending ?_
    exact hreachable.pending_of_owes hcall howes
  | meanwhile shared events statuses copies sink => exact h

/-- A wait for the event of a command comes back only once the command is settled. -/
theorem Reachable.timely (h : Reachable host) : Throughout Timely host.log := by
  induction h with
  | start hcreate => exact throughout_nil _
  | step hreachable hstep _ ih => exact timely_step ih hreachable hstep

/-- What a host can rely on. -/
structure Protocol (host : Host) : Prop where
  /-- When somebody who was given an event has waited for it, the command has been carried out or
  failed, and if it ended with a status, this has been recorded. -/
  waited : ∀ before after command event, host.log = before ++ .returned event :: after →
    .accepted command event ∈ before → Settled before command
  /-- The first to ask since a status was recorded is given it, and nobody else is given any. -/
  asked : ∀ before after command answer status,
    host.log = before ++ .asked command answer :: after → (answer = some status ↔
      ∃ earlier later, before = earlier ++ .recorded command status :: later ∧
        ∀ other, .asked command other ∉ later)
  once : ∀ command, (host.log.filterMap Happening.taken?).count command ≤ 1
  /-- A command that ended normally has no status. -/
  normal : ∀ command, .finished command .done ∈ host.log → ∀ status,
    .recorded command status ∉ host.log ∧ .asked command (some status) ∉ host.log
  /-- Host code always ends with a status. -/
  native : ∀ call ∈ host.calls, ∀ body, call.command.kind = .exec body →
    .finished call.command.id .done ∉ host.log
  /-- A call that is refused leaves no event, and no status then or later. -/
  refused : ∀ call ∈ host.calls, call.stage = .refused → host.Gone call.command.id ∧
    host.device.shared.statuses.find? call.command.id = none ∧ ∀ status,
      .recorded call.command.id status ∉ host.log ∧ .asked call.command.id (some status) ∉ host.log
  pending : host.device.pendingStatuses + (host.log.filterMap Happening.taken?).length =
    (host.log.filterMap Happening.recorded?).length
  /-- Once every call has answered and each event that was given out has been waited for, no event that
  `enqueue` made is left. -/
  drained : (∀ call ∈ host.calls, ¬ call.UnderWay) →
    (∀ command event, .accepted command event ∈ host.log → Waited host.log command event) →
    ∀ command, host.Gone command

theorem Reachable.protocol (h : host.Reachable) : host.Protocol := by
  have hsound := h.ledger.sound
  have hanswered := h.accounts.answered
  have hnone : ∀ {command}, (∀ status, .recorded command status ∉ host.log) → ∀ status,
      .recorded command status ∉ host.log ∧ .asked command (some status) ∉ host.log :=
    fun hrecorded status => ⟨hrecorded status, fun hasked =>
      hrecorded status (recorded_of_asked hanswered hasked)⟩
  refine {
    waited := fun before after command event hlog => h.timely before _ after hlog command event rfl
    asked := fun before after command answer status hlog => ?_
    once := fun command => ?_
    normal := fun command hdone => hnone fun status hrecorded => ?_
    native := h.ledger.native
    refused := fun call hcall hstage => ?_
    pending := h.accounts.count
    drained := fun hanswers hwaits command event hmade => ?_ }
  · have hanswer := hanswered before _ after hlog command answer rfl
    constructor
    · rintro rfl
      exact standing_eq_some hanswer.symm
    · rintro ⟨earlier, later, rfl, hasked⟩
      rw [hanswer]
      refine standing_of_recorded (fun other hmem => ?_) hasked
      rw [List.append_assoc] at hlog
      exact Sound.recorded_once (hlog ▸ hsound) other (List.mem_append_left _ hmem)
  · -- Nobody takes what was not recorded, and a status is recorded once.
    have htaken := taken_le_recorded hanswered command
    have hrecorded := List.nodup_iff_count_le_one.1 hsound.once command
    omega
  · have hsame := hsound.single command _ _ hdone (hsound.backed command status hrecorded)
    simp at hsame
  · have hstage' : ¬ call.Accepted := by
      rintro ⟨i, j, haccepted⟩
      simp [hstage] at haccepted
    have huntold := h.ledger.untold h.roster hcall hstage'
    have hrecorded : ∀ status, .recorded call.command.id status ∉ host.log := fun status hmem =>
      huntold _ hmem rfl
    exact ⟨h.origins.refused call hcall hstage,
      (h.accounts.found _).trans (standing_eq_none hrecorded), hnone hrecorded⟩
  · obtain ⟨call, hcall, rfl, rfl⟩ := h.origins.made event command hmade
    have hover := hanswers call hcall
    cases hstage : call.stage with
    | accepted i j =>
      have haccepted := (h.ledger.accepted _ _).2 ⟨call, hcall, rfl, rfl, i, j, hstage⟩
      exact h.origins.waited _ _ (hwaits _ _ haccepted) _ hmade
    | refused => exact h.origins.refused call hcall hstage _ hmade
    | _ => simp [EnqueueCall.UnderWay, hstage] at hover

/-- A device of one worker, without memory. -/
def loneWorker : Config :=
  { multiprocessors := 1, workers := 1, pinThreads := false, globalMemory := 0, localMemory := 0 }

/-- A command whose host code is gone. -/
def consumed : Command :=
  { id := ⟨0⟩, kind := .exec none }

/-- Somebody waits for a command that fails, and then asks for its status twice. -/
theorem protocol_consumed : ∃ host : Host, host.Reachable ∧ host.Protocol ∧
    host.log = [.accepted ⟨0⟩ ⟨0, 0⟩, .finished ⟨0⟩ (.exit .abnormal), .recorded ⟨0⟩ .abnormal,
      .returned ⟨0, 0⟩, .asked ⟨0⟩ (some .abnormal), .asked ⟨0⟩ none] := by
  have hstart := Reachable.start (rfl : Device.create 1 loneWorker = .ok _)
  have hpushed := hstart.step (.enqueue consumed (by simp) trivial) (by decide)
    |>.step (.goOn (n := 0) rfl (.route (j := 0) rfl rfl (.inr rfl))) (by decide)
    |>.step (.goOn (n := 0) rfl (.announce rfl rfl)) (by decide)
    |>.step (.goOn (n := 0) rfl (.push rfl rfl rfl)) (by decide)
  have hasleep := hpushed.step (.wait ⟨0, 0⟩) (by decide)
    |>.step (.waiter 0 rfl) (by decide)
  have hover := hasleep
    |>.step (.work (i := 0) (j := 0) rfl rfl (by simp [EnqueueCall.UnderWay])) (by decide)
    |>.step (.work (i := 0) (j := 0) rfl rfl (by simp [EnqueueCall.UnderWay])) (by decide)
    |>.step (.work (i := 0) (j := 0) rfl rfl (by simp [EnqueueCall.UnderWay])) (by decide)
  have hcompleted := hover
    |>.step (.work (i := 0) (j := 0) rfl rfl (by simp [EnqueueCall.UnderWay])) (by decide)
    |>.step (.work (i := 0) (j := 0) rfl rfl (by simp [EnqueueCall.UnderWay])) (by decide)
  -- The waiting thread was woken, and finds the event completed.
  have hreturned := hcompleted.step (.waiter 0 (Device.step?_waiter.2 ⟨
    { table := { slots := #[{ generation := 1, entry := none }], free := [0] }
      waiters := #[{ calls := [] }] }, by decide +kernel, rfl⟩)) (by decide)
  have hasked := hreturned.step (.ask ⟨0⟩) (by decide)
    |>.step (.ask ⟨0⟩) (by decide)
  exact ⟨_, hasked, hasked.protocol, by decide +kernel⟩

end Protocol

end Host

end ComputeCore
