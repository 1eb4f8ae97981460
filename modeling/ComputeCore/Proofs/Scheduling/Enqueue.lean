import Mathlib.Logic.Relation
import ComputeCore.Proofs.Scheduling.Host
/-!
# Calls without interruption

`Device.enqueue` is one call of a host that takes all its steps without a break
(`Host.run_enqueue`): the worker its command goes to is one the call may come to, and the call ends
accepted with the event that is answered, or refused if none is.
-/

theorem Array.setIfInBounds_of_getElem? {α : Type} {array : Array α} {n : Nat} {value : α}
    (h : array[n]? = some value) : array.setIfInBounds n value = array := by
  obtain ⟨hlt, rfl⟩ := Array.getElem?_eq_some_iff.1 h
  rw [Array.setIfInBounds, dif_pos hlt, Array.set_getElem_self]

namespace ComputeCore

namespace Device

section Submit
variable {device : Device} {i j : Nat} {worker : Worker}

theorem setWorker_setWorker (h : device.worker? i j = some worker) (first second : Worker) :
    (device.setWorker i j first).setWorker i j second = device.setWorker i j second := by
  obtain ⟨multiprocessor, hi, -⟩ := worker?_eq_some.1 h
  have hlt := (Array.getElem?_eq_some_iff.1 hi).1
  simp [setWorker, hi, Array.getElem?_setIfInBounds_self_of_lt hlt]

/-- The device once it is settled where a command goes. -/
def routed (device : Device) (command : Command) : Device :=
  { device with turn := if command.isNDRange then Size.succ device.turn else device.turn }

theorem submit_routed (device : Device) (command : Command) :
    device.submit command = match device.multiprocessors[device.route command]? with
      | none => (false, device.routed command)
      | some multiprocessor => ((multiprocessor.submit command).1, { device.routed command with
          multiprocessors :=
            device.multiprocessors.setIfInBounds (device.route command) (multiprocessor.submit command).2 }) := by
  have hrouted : (if command.isNDRange then { device with turn := Size.succ device.turn } else device) =
      device.routed command := by
    unfold routed
    split <;> rfl
  simp only [submit, hrouted]
  rfl

theorem submit_of_worker {command : Command} {multiprocessor : Multiprocessor}
    (hi : device.multiprocessors[device.route command]? = some multiprocessor)
    (hj : multiprocessor.workers[multiprocessor.route command]? = some worker) :
    device.submit command = ((worker.submit command).1, (device.routed command).setWorker (device.route command)
      (multiprocessor.route command) (worker.submit command).2) := by
  have hi' : (device.routed command).multiprocessors[device.route command]? = some multiprocessor := hi
  simp only [submit_routed, hi, Multiprocessor.submit, hj, setWorker, hi']
  rfl

/-- A command is submitted to one worker, if there is any it may go to. -/
theorem submit_cases (device : Device) (command : Command) :
    ∃ j, (command.isNDRange = true ∨ j = 0) ∧
      ((device.worker? (device.route command) j = none ∧
        device.submit command = (false, device.routed command)) ∨
      ∃ worker, device.worker? (device.route command) j = some worker ∧
        device.submit command = ((worker.submit command).1,
          (device.routed command).setWorker (device.route command) j (worker.submit command).2)) := by
  cases hi : device.multiprocessors[device.route command]? with
  | none => exact ⟨0, .inr rfl, .inl ⟨by simp [worker?, hi], by simp only [submit_routed, hi]⟩⟩
  | some multiprocessor =>
    refine ⟨multiprocessor.route command, ?_, ?_⟩
    · unfold Multiprocessor.route
      split
      · next hrange => exact .inl hrange
      · exact .inr rfl
    · cases hj : multiprocessor.workers[multiprocessor.route command]? with
      | none =>
        refine .inl ⟨by simp [worker?, hi, hj], ?_⟩
        simp only [submit_routed, hi, Multiprocessor.submit, hj, Array.setIfInBounds_of_getElem? hi]
        rfl
      | some worker => exact .inr ⟨worker, by simp [worker?, hi, hj], submit_of_worker hi hj⟩

theorem enqueue_eq {command : Command} {accepted : Bool} {device' : Device}
    (h : (device.setEvents device.shared.events.newEvent.2).submit
      (command.withEvent device.shared.events.newEvent.1) = (accepted, device')) :
    device.enqueue command = if accepted then (some device.shared.events.newEvent.1, device')
      else (none, device'.setEvents (device'.shared.events.remove device.shared.events.newEvent.1)) := by
  simp only [setEvents] at h
  simp only [enqueue, h]
  cases accepted <;> rfl

end Submit

end Device

namespace Host

/-- A step after which there are still no more slots for events than numbers for them. -/
def Next (host host' : Host) : Prop :=
  Step host host' ∧ host'.device.table.Numbered

section Calls
variable {host host' : Host} {calls : List EnqueueCall} {call : EnqueueCall} {device : Device}
  {stage : EnqueueStage}

theorem Reachable.run (h : host.Reachable) (hrun : Relation.ReflTransGen Next host host') :
    host'.Reachable := by
  induction hrun with
  | refl => exact h
  | tail _ hnext ih => exact ih.step hnext.1 hnext.2

theorem numbered_run (hroom : host.device.table.Numbered)
    (hrun : Relation.ReflTransGen Next host host') : host'.device.table.Numbered := by
  cases hrun with
  | refl => exact hroom
  | tail _ hnext => exact hnext.2

/-- The last call of a host goes on. -/
theorem next_last (hroom : host.device.table.Numbered) (hcalls : host.calls = calls ++ [call])
    (hmoves : call.Moves host.device device stage) :
    ∃ host', Next host host' ∧ host'.device = device ∧ host'.calls = calls ++ [{ call with stage }] := by
  have here : host.calls[calls.length]? = some call := by simp [hcalls]
  refine ⟨_, ⟨.goOn here hmoves, hmoves.numbered hroom⟩, rfl, ?_⟩
  simp [hcalls]

/-- A call that has found its worker submits its command there. -/
theorem run_announced {i j : Nat} {worker : Worker} (hroom : host.device.table.Numbered)
    (hcalls : host.calls = calls ++ [call]) (hstage : call.stage = .announcing i j)
    (hworker : host.device.worker? i j = some worker) :
    ∃ host' stage, Relation.ReflTransGen Next host host' ∧ host'.calls = calls ++ [{ call with stage }] ∧
      host'.device = host.device.setWorker i j (worker.submit call.pushed).2 ∧
      stage = if (worker.submit call.pushed).1 then .accepted i j else .retracting := by
  obtain ⟨host₁, hannounce, hdevice₁, hcalls₁⟩ := next_last hroom hcalls (.announce hstage hworker)
  have hworker₁ : host₁.device.worker? i j = some worker.announce := by
    rw [hdevice₁, Device.worker?_setWorker hworker, if_pos ⟨rfl, rfl⟩]
  have hsteps₁ := Relation.ReflTransGen.single hannounce
  cases hpush : worker.announce.queue.push? call.pushed with
  | some queue =>
    have hsubmit : worker.submit call.pushed = (true, { worker.announce with queue }) := by
      simp only [Worker.submit, hpush]
    obtain ⟨host₂, hpushed, hdevice₂, hcalls₂⟩ :=
      next_last hannounce.2 hcalls₁ (.push rfl hworker₁ hpush)
    refine ⟨host₂, _, hsteps₁.tail hpushed, hcalls₂, ?_, by rw [hsubmit]; rfl⟩
    rw [hdevice₂, hdevice₁, Device.setWorker_setWorker hworker, hsubmit]
  | none =>
    have hsubmit : worker.submit call.pushed = (false, worker.announce.withdraw) := by
      simp only [Worker.submit, hpush]
    obtain ⟨host₂, hturned, hdevice₂, hcalls₂⟩ :=
      next_last hannounce.2 hcalls₁ (.turnDown rfl hworker₁ hpush)
    obtain ⟨host₃, hwithdrawn, hdevice₃, hcalls₃⟩ :=
      next_last hturned.2 hcalls₂ (.withdraw rfl (hdevice₂ ▸ hworker₁))
    refine ⟨host₃, _, (hsteps₁.tail hturned).tail hwithdrawn, hcalls₃, ?_, by rw [hsubmit]; rfl⟩
    rw [hdevice₃, hdevice₂, hdevice₁, Device.setWorker_setWorker hworker, hsubmit]

theorem run_submit (hroom : host.device.table.Numbered) (hcalls : host.calls = calls ++ [call])
    (hstage : call.stage = .routing) :
    ∃ host' stage, Relation.ReflTransGen Next host host' ∧ host'.calls = calls ++ [{ call with stage }] ∧
      host'.device = (host.device.submit call.pushed).2 ∧
      (((host.device.submit call.pushed).1 = true ∧ ∃ i j, stage = .accepted i j) ∨
        ((host.device.submit call.pushed).1 = false ∧ stage = .retracting)) := by
  obtain ⟨j, choice, hsubmit⟩ := host.device.submit_cases call.pushed
  obtain ⟨host₁, hrouted, hdevice₁, hcalls₁⟩ := next_last hroom hcalls (.route (j := j) hstage rfl choice)
  have hsteps₁ := Relation.ReflTransGen.single hrouted
  rcases hsubmit with ⟨hmissing, hsubmit⟩ | ⟨worker, hworker, hsubmit⟩
  · obtain ⟨host₂, hlost, hdevice₂, hcalls₂⟩ :=
      next_last hrouted.2 hcalls₁ (.lose rfl (hdevice₁ ▸ hmissing))
    refine ⟨host₂, _, hsteps₁.tail hlost, hcalls₂, ?_, .inr ⟨by rw [hsubmit], rfl⟩⟩
    rw [hdevice₂, hdevice₁, hsubmit]
    rfl
  · have hworker₁ : host₁.device.worker? (host.device.route call.command) j = some worker := by
      rw [hdevice₁]
      exact hworker
    obtain ⟨host₂, stage, hsteps₂, hcalls₂, hdevice₂, rfl⟩ :=
      run_announced hrouted.2 hcalls₁ rfl hworker₁
    refine ⟨host₂, _, hsteps₁.trans hsteps₂, hcalls₂, ?_, ?_⟩
    · rw [hdevice₂, hdevice₁, hsubmit]
      rfl
    · rw [hsubmit]
      cases haccepted : (worker.submit call.pushed).1 with
      | true => exact .inl ⟨rfl, _, _, if_pos haccepted⟩
      | false => exact .inr ⟨rfl, if_neg (Bool.eq_false_iff.1 haccepted)⟩

/-- A call of `enqueue` without interruption. -/
theorem run_enqueue (command : Command) (fresh : ∀ call ∈ host.calls, call.command.id ≠ command.id)
    (independent : command.Independent)
    (hroom : (host.device.setEvents host.device.shared.events.newEvent.2).table.Numbered) :
    ∃ host' call, Relation.ReflTransGen Next host host' ∧ call.command = command ∧
      host'.calls = host.calls ++ [call] ∧ host'.device = (host.device.enqueue command).2 ∧
      (((∃ i j, call.stage = .accepted i j) ∧ (host.device.enqueue command).1 = some call.event) ∨
        (call.stage = .refused ∧ (host.device.enqueue command).1 = none)) := by
  obtain ⟨host₁, hmade, hcalls₁, hdevice₁⟩ : ∃ host₁, Next host host₁ ∧
      host₁.calls = host.calls ++ [{ command, event := host.device.shared.events.newEvent.1 }] ∧
      host₁.device = host.device.setEvents host.device.shared.events.newEvent.2 :=
    ⟨_, ⟨.enqueue command fresh independent, hroom⟩, rfl, rfl⟩
  obtain ⟨host₂, stage, hsubmitted, hcalls₂, hdevice₂, hanswer⟩ :=
    run_submit hmade.2 hcalls₁ rfl
  have hsteps₂ := Relation.ReflTransGen.head hmade hsubmitted
  have hroom₂ := numbered_run hmade.2 hsubmitted
  rw [hdevice₁] at hdevice₂ hanswer
  rcases hanswer with ⟨haccepted, hstage⟩ | ⟨hrejected, rfl⟩
  · have henqueue := Device.enqueue_eq (Prod.ext haccepted rfl)
    exact ⟨host₂, _, hsteps₂, rfl, hcalls₂, hdevice₂.trans (by rw [henqueue]; rfl),
      .inl ⟨hstage, by rw [henqueue]; rfl⟩⟩
  · have henqueue := Device.enqueue_eq (Prod.ext hrejected rfl)
    obtain ⟨host₃, hretracted, hdevice₃, hcalls₃⟩ := next_last hroom₂ hcalls₂ (.retract rfl)
    refine ⟨host₃, _, hsteps₂.tail hretracted, rfl, hcalls₃, ?_, .inr ⟨rfl, by rw [henqueue]; rfl⟩⟩
    rw [hdevice₃, hdevice₂, henqueue]
    rfl

end Calls

end Host

end ComputeCore
