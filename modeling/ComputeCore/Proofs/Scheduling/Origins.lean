import ComputeCore.Proofs.Scheduling.Ledger
/-!
# Events that calls made

An event that a call of `enqueue` made is in the table until the call takes it back, or somebody who
was given it has waited for it (`Host.Origins`). Both take out the only event of the command, and
nobody makes another one for it.
-/

namespace ComputeCore

open History

namespace Host

/-- The event is in the table, and the call of `enqueue` for the command made it. -/
def Made (host : Host) (event : Event) (command : CommandId) : Prop :=
  host.device.table.knows event = true ∧ host.makers event = some command

/-- No event in the table was made for the command. -/
def Gone (host : Host) (command : CommandId) : Prop :=
  ∀ event, ¬ host.Made event command

/-- Which events in the table calls of `enqueue` made. -/
structure Origins (host : Host) : Prop where
  made : ∀ event command, host.Made event command →
    ∃ call ∈ host.calls, call.command.id = command ∧ call.event = event
  refused : ∀ call ∈ host.calls, call.stage = .refused → host.Gone call.command.id
  waited : ∀ command event, Waited host.log command event → host.Gone command

section Steps
variable {host host' : Host}

/-- An operation that hands no event out leaves none in the table that was not there. -/
theorem made_of_apply (hwellFormed : host.device.table.WellFormed) (op : EventOp)
    (hnames : (host.device.shared.events.answer op).names = [])
    (htable : host'.device.table = (host.device.shared.events.apply op).table)
    (hroom : host'.device.table.Numbered) (hmakers : host'.makers = host.makers) {event : Event}
    {command : CommandId} (h : host'.Made event command) : host.Made event command := by
  obtain ⟨hknows, hmaker⟩ := h
  rw [htable] at hknows hroom
  refine ⟨(WaitList.knows_of_apply hwellFormed hroom hknows).resolve_right ?_, hmakers ▸ hmaker⟩
  simp [hnames]

theorem Origins.event_eq (h : host.Origins) (hroster : host.Roster) {call : EnqueueCall}
    (hcall : call ∈ host.calls) {event : Event} (hmade : host.Made event call.command.id) :
    event = call.event := by
  obtain ⟨other, hother, hid, rfl⟩ := h.made event _ hmade
  rw [hroster.eq_of_id hother hcall hid]

/-- A step that makes no event for a command. -/
theorem Origins.keep (h : host.Origins)
    (hmade : ∀ event command, host'.Made event command → host.Made event command)
    (hcalls : host'.calls = host.calls)
    (hwaited : ∀ command event, Waited host'.log command event →
      Waited host.log command event ∨ host'.Gone command) : host'.Origins := by
  have hgone : ∀ command, host.Gone command → host'.Gone command := fun command hgone event hevent =>
    hgone event (hmade event command hevent)
  refine ⟨fun event command hevent => ?_, fun call hcall hstage => ?_, fun command event hlog => ?_⟩
  · exact hcalls ▸ h.made event command (hmade event command hevent)
  · exact hgone _ (h.refused call (hcalls ▸ hcall) hstage)
  · exact (hwaited command event hlog).elim
      (fun hold => hgone command (h.waited command event hold)) id

theorem Origins.enqueue (h : host.Origins) (hledger : host.Ledger)
    (hwellFormed : host.device.table.WellFormed) {command : Command} {new : Event}
    (fresh : ∀ call ∈ host.calls, call.command.id ≠ command.id)
    (hnew : new = host.device.shared.events.newEvent.1)
    (htable : host'.device.table = host.device.shared.events.newEvent.2.table)
    (hroom : host'.device.table.Numbered)
    (hcalls : host'.calls = host.calls ++ [{ command, event := new }])
    (hmakers : host'.makers = Function.update host.makers new (some command.id))
    (hlog : host'.log = host.log) : host'.Origins := by
  have hmade : ∀ {event other}, host'.Made event other →
      (event = new ∧ other = command.id) ∨ host.Made event other := by
    rintro event other ⟨hknows, hmaker⟩
    rw [htable] at hknows hroom
    rw [hmakers] at hmaker
    by_cases hevent : event = new
    · subst hevent
      exact .inl ⟨rfl, by simpa [eq_comm] using hmaker⟩
    · rw [Function.update_of_ne hevent] at hmaker
      have hbefore : host.device.table.knows event = true ∨
          event ∈ (host.device.shared.events.answer .newEvent).names :=
        WaitList.knows_of_apply hwellFormed hroom hknows
      refine .inr ⟨hbefore.resolve_right fun hmem => hevent ?_, hmaker⟩
      exact (List.mem_singleton.1 hmem).trans hnew.symm
  -- Commands are enqueued once, so the new event is for none of the earlier ones.
  have hgone : ∀ {other}, other ≠ command.id → host.Gone other → host'.Gone other :=
    fun hne hgone event hevent => (hmade hevent).elim (fun hnew => hne hnew.2) (hgone event)
  refine ⟨fun event other hevent => ?_, fun call hcall hstage => ?_, fun other event hwaited => ?_⟩
  · rw [hcalls]
    rcases hmade hevent with ⟨rfl, rfl⟩ | hbefore
    · exact ⟨_, List.mem_append_right _ (List.mem_singleton_self _), rfl, rfl⟩
    · obtain ⟨call, hcall, hrest⟩ := h.made event other hbefore
      exact ⟨call, List.mem_append_left _ hcall, hrest⟩
  · rcases List.mem_append.1 (hcalls ▸ hcall) with hold | hlast
    · exact hgone (fresh call hold) (h.refused call hold hstage)
    · obtain rfl := List.mem_singleton.1 hlast
      cases hstage
  · rw [hlog] at hwaited
    obtain ⟨call, hcall, rfl, -⟩ := (hledger.accepted other event).1 hwaited.accepted
    exact hgone (fresh call hcall) (h.waited _ event hwaited)

theorem Origins.goOn (h : host.Origins) (hroster : host.Roster)
    (hwellFormed : host.device.table.WellFormed) {n : Nat} {call : EnqueueCall} {stage : EnqueueStage}
    (here : host.calls[n]? = some call) (hmoves : call.Moves host.device host'.device stage)
    (hroom : host'.device.table.Numbered)
    (hcalls : host'.calls = host.calls.set n { call with stage })
    (hmakers : host'.makers = host.makers)
    (hlog : host'.log = host.log ++ (call.tells? stage).toList) : host'.Origins := by
  have hcall := List.mem_of_getElem? here
  have hmem := mem_goOn hroster.distinct here stage
  have hmade : ∀ {event command}, host'.Made event command → host.Made event command := by
    rcases hmoves.shared with hshared | ⟨-, hshared⟩
    · have htable : host'.device.table = host.device.table := congrArg (·.events.table) hshared
      exact fun {event command} hevent => ⟨htable ▸ hevent.1, hmakers ▸ hevent.2⟩
    · exact made_of_apply hwellFormed (.remove call.event) rfl (congrArg (·.events.table) hshared)
        hroom hmakers
  refine ⟨fun event command hevent => ?_, fun other hother hstage => ?_, fun command event hwaited => ?_⟩
  · rw [hcalls]
    obtain ⟨other, hother, hid, hrest⟩ := h.made event command (hmade hevent)
    by_cases hsame : other.command.id = call.command.id
    · obtain rfl := hroster.eq_of_id hother hcall hsame
      exact ⟨_, (hmem _).2 (.inl rfl), hid, hrest⟩
    · exact ⟨other, (hmem other).2 (.inr ⟨hother, hsame⟩), hid, hrest⟩
  · rcases (hmem other).1 (hcalls ▸ hother) with rfl | ⟨hold, -⟩
    · obtain rfl : stage = .refused := hstage
      intro event hevent
      obtain rfl := h.event_eq hroster hcall (hmade hevent)
      exact absurd hevent.1 (by simp [hmoves.retracted])
    · exact fun event hevent => h.refused other hold hstage event (hmade hevent)
  · rw [hlog] at hwaited
    rcases hwaited.of_append _ with hold | ⟨htells, -⟩
    · exact fun event' hevent => h.waited command event hold event' (hmade hevent)
    · exact absurd htells (call.tells?_ne_returned stage event)

theorem Origins.step (h : host.Origins) (hroster : host.Roster) (hledger : host.Ledger)
    (hwellFormed : host.device.table.WellFormed) (hstep : Step host host')
    (hroom : host'.device.table.Numbered) : host'.Origins := by
  cases hstep with
  | enqueue command fresh independent =>
    exact h.enqueue hledger hwellFormed fresh rfl rfl hroom rfl rfl rfl
  | goOn here moves => exact h.goOn hroster hwellFormed here moves hroom rfl rfl rfl
  | close here => exact h.keep (by simp [Made, Device.table]) rfl (fun _ _ => .inl)
  | wait event => exact h.keep (fun _ _ => id) rfl (fun _ _ => .inl)
  | ask command =>
    refine h.keep (fun _ _ => id) rfl fun other event hlog => .inl ?_
    exact (hlog.of_append (some _)).resolve_right (by simp)
  | work here step given =>
    refine h.keep (fun event command hevent => ?_) rfl fun command event hlog => .inl ?_
    · -- What was not in the table before the step is a process's.
      obtain ⟨hknows, hmaker⟩ := hevent
      simpa [Made] using hmaker
    · exact (hlog.of_append _).resolve_right fun htells =>
        Worker.tells?_ne_returned _ _ event htells.1
  | copy number step =>
    obtain ⟨shared, hcopy, rfl⟩ := Device.step?_copy.1 step
    refine h.keep (fun event command => ?_) rfl (fun _ _ => .inl)
    obtain ⟨task, -, ⟨-, memory, stage, rfl⟩ | ⟨-, rfl⟩⟩ := Shared.stepCopy?_eq_some hcopy
    · exact id
    · exact made_of_apply hwellFormed (.setCompleted task.signal true) rfl rfl hroom rfl
  | waiter number step =>
    obtain ⟨events, hevents, rfl⟩ := Device.step?_waiter.1 step
    have happly : events = host.device.shared.events.apply (.stepWaiter number) := by
      simp [WaitList.apply, hevents]
    have hmade : ∀ {event command}, Host.Made _ event command → host.Made event command :=
      made_of_apply hwellFormed (.stepWaiter number) rfl (congrArg WaitList.table happly) hroom rfl
    refine h.keep (fun event command => hmade) rfl fun command event hlog =>
      (hlog.of_append _).imp_right ?_
    -- A call of `wait` that comes back takes the event out, and it was the only one for its command.
    rintro ⟨hreturned, haccepted⟩ other hevent
    obtain ⟨call, hcall, rfl, rfl, -⟩ := (hledger.accepted command event).1 haccepted
    have hreturned : host.device.shared.events.returned? events number = some call.event := by
      simpa using hreturned
    obtain rfl := h.event_eq hroster hcall (hmade hevent)
    have hgone := (WaitList.returned_gone hevents hreturned).2
    exact absurd (hevent.1.symm.trans hgone) (by simp)
  | meanwhile shared events statuses copies sink =>
    exact h.keep (by simp [Made, Device.table, events]) rfl (fun _ _ => .inl)

theorem origins_start (device : Device) : Origins { device } :=
  ⟨fun event command hmade => absurd hmade.2 (by simp), by simp, fun command event hwaited =>
    absurd hwaited.accepted List.not_mem_nil⟩

theorem Reachable.origins (h : Reachable host) : host.Origins := by
  induction h with
  | start hcreate => exact origins_start _
  | step hreachable hstep hroom ih =>
    obtain ⟨duty, hduties⟩ := hreachable.duties
    exact ih.step hreachable.roster hreachable.ledger hduties.wellFormed hstep hroom

end Steps

end Host

end ComputeCore
