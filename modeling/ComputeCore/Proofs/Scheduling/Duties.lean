import ComputeCore.Proofs.Scheduling.Host
/-!
# Who still has to complete an event

At every moment each event that is still to be completed is in one hand: in that of the call of
`enqueue` that made it or the worker that has its command, of a process that made it for a copy, or of
that copy. `Host.Duties` says this by a map from events to holders. Since it is a map, nobody completes
an event that is another's; so the event of a command that is not over is pending
(`Reachable.pending_of_owes`), whatever else goes on.
-/

namespace ComputeCore

/-- Who still has to complete an event. -/
inductive Holder where
  /-- The call of `enqueue` that made it, or the worker that was given its command. -/
  | call (command : CommandId)
  /-- The process on a worker. -/
  | process (i j : Nat)
  | copy (number : Nat)
  deriving DecidableEq

/-- The call is under way, or its command is not over. -/
def EnqueueCall.Owes (call : EnqueueCall) (device : Device) : Prop :=
  call.UnderWay ∨ ∃ i j worker, call.stage = .accepted i j ∧ device.worker? i j = some worker ∧
    call.pushed ∈ worker.pipeline

namespace Host

/-- Every event that somebody still has to complete is pending, and in the hands of one holder. -/
structure Duties (host : Host) (duty : Event → Option Holder) : Prop where
  wellFormed : host.device.table.WellFormed
  pending : ∀ event holder, duty event = some holder → host.device.table.Pending event
  /-- Nothing is linked under an event whose handle nobody has been given. -/
  bare : ∀ call ∈ host.calls, call.UnderWay → host.device.table.lookup? call.event = some {}
  calls : ∀ call ∈ host.calls, call.Owes host.device →
    duty call.event = some (.call call.command.id)
  jobs : ∀ i j worker, host.device.worker? i j = some worker →
    worker.Suits fun event => duty event = some (.process i j)
  copies : ∀ number task, host.device.shared.copies[number]? = some task → task.stage ≠ .ended →
    duty task.signal = some (.copy number)

section Steps
variable {host host' : Host} {duty duty' : Event → Option Holder} {op : EventOp} {call : EnqueueCall}
  {i j : Nat} {device device' : Device} {worker : Worker}

theorem owes_of_takes {taken : Nat → Nat → List Command} (htakes : device.Takes device' taken)
    (h : call.Owes device') : call.Owes device ∨
      ∃ i j, call.stage = .accepted i j ∧ call.pushed ∈ taken i j := by
  rcases h with hunderWay | ⟨i, j, worker', hstage, hworker', hmem⟩
  · exact .inl (.inl hunderWay)
  · obtain ⟨worker, hworker, hphase, hpending⟩ := htakes.back i j worker' hworker'
    rw [Worker.pipeline_congr hphase hpending, List.mem_append] at hmem
    rcases hmem with hold | hnew
    · exact .inl (.inr ⟨i, j, worker, hstage, hworker, hold⟩)
    · exact .inr ⟨i, j, hstage, hnew⟩

/-- After an operation on the events, the map holds again if what it has in it was spared or is new. -/
theorem Duties.after (h : host.Duties duty) (op : EventOp)
    (htable : host'.device.table = (host.device.shared.events.apply op).table)
    (hroom : host'.device.table.Numbered)
    (hduty : ∀ event holder, duty' event = some holder →
      (duty event ≠ none ∧ host.device.shared.events.Spares event op) ∨
        event ∈ (host.device.shared.events.answer op).names)
    (hbare : ∀ call ∈ host'.calls, call.UnderWay →
      (host.device.table.lookup? call.event = some {} ∧ op ≠ .newChild call.event ∧
        host.device.shared.events.Spares call.event op) ∨
      call.event ∈ (host.device.shared.events.answer op).names)
    (hcalls : ∀ call ∈ host'.calls, call.Owes host'.device →
      duty' call.event = some (.call call.command.id))
    (hjobs : ∀ i j worker, host'.device.worker? i j = some worker →
      worker.Suits fun event => duty' event = some (.process i j))
    (hcopies : ∀ number task, host'.device.shared.copies[number]? = some task →
      task.stage ≠ .ended → duty' task.signal = some (.copy number)) : host'.Duties duty' := by
  have hwellFormed : host.device.shared.events.table.WellFormed := h.wellFormed
  rw [htable] at hroom
  refine ⟨htable ▸ WaitList.wellFormed_apply hwellFormed op, ?_, ?_, hcalls, hjobs, hcopies⟩
  · intro event holder hholder
    rw [htable]
    rcases hduty event holder hholder with ⟨hheld, hspares⟩ | hmade
    · obtain ⟨old, hold⟩ := Option.ne_none_iff_exists'.1 hheld
      exact WaitList.pending_apply hwellFormed hroom hspares (h.pending event old hold)
    · exact ⟨{}, (WaitList.lookup?_of_made hwellFormed hroom hmade).2, rfl⟩
  · intro call hcall hunderWay
    rw [htable]
    rcases hbare call hcall hunderWay with ⟨hentry, hop, hspares⟩ | hmade
    · obtain ⟨linked, hentry', hnone⟩ :=
        WaitList.lookup?_apply_of_pending hwellFormed hroom hspares hentry
      rw [hentry', hnone hop rfl]
    · exact (WaitList.lookup?_of_made hwellFormed hroom hmade).2

/-- Nothing changes hands. -/
theorem Duties.same (h : host.Duties duty) (htable : host'.device.table = host.device.table)
    (hroom : host'.device.table.Numbered)
    (hbare : ∀ call ∈ host'.calls, call.UnderWay → host.device.table.lookup? call.event = some {})
    (hcalls : ∀ call ∈ host'.calls, call.Owes host'.device →
      duty call.event = some (.call call.command.id))
    (hjobs : ∀ i j worker, host'.device.worker? i j = some worker →
      worker.Suits fun event => duty event = some (.process i j))
    (hcopies : ∀ number task, host'.device.shared.copies[number]? = some task →
      task.stage ≠ .ended → duty task.signal = some (.copy number)) : host'.Duties duty :=
  h.after (.enterWait default) htable hroom
    (fun event holder hholder => .inl ⟨by simp [hholder], trivial⟩)
    (fun call hcall hunderWay => .inl ⟨hbare call hcall hunderWay, by simp, trivial⟩)
    hcalls hjobs hcopies

theorem Duties.jobs_of_takes {taken : Nat → Nat → List Command} (h : host.Duties duty)
    (htakes : host.device.Takes device taken) (i j : Nat) (worker : Worker)
    (hworker : device.worker? i j = some worker) :
    worker.Suits fun event => duty event = some (.process i j) := by
  obtain ⟨old, hold, hphase, -⟩ := htakes.back i j worker hworker
  exact fun command job hrunning => h.jobs i j old hold command job (hphase ▸ hrunning)

/-! ## What changes hands -/

/-- What is handed out was in nobody's hands. -/
theorem Duties.free_of_made (h : host.Duties duty) (op : EventOp)
    (hroom : (host.device.shared.events.apply op).table.Numbered)
    (event : Event) (hmade : event ∈ (host.device.shared.events.answer op).names) :
    duty event = none := by
  cases hduty : duty event with
  | none => rfl
  | some holder =>
    obtain ⟨entry, hentry, -⟩ := h.pending event holder hduty
    have hunknown := (WaitList.lookup?_of_made h.wellFormed hroom hmade).1
    exact absurd (hentry.symm.trans hunknown) (by simp)

/-- A new event comes into somebody's hands. -/
def give (duty : Event → Option Holder) (holder : Holder) (made : List Event) : Event → Option Holder :=
  fun event => if event ∈ made then some holder else duty event

theorem give_of_held {holder held : Holder} {made : List Event} {event : Event}
    (hfree : ∀ event ∈ made, duty event = none) (h : duty event = some held) :
    give duty holder made event = some held := by
  unfold give
  rw [if_neg fun hmem => by simp [hfree event hmem] at h, h]

/-- What an operation hands out comes into the hands of one holder. -/
theorem Duties.make (h : host.Duties duty) (holder : Holder) (op : EventOp)
    (hspares : ∀ event, host.device.shared.events.Spares event op)
    (htable : host'.device.table = (host.device.shared.events.apply op).table)
    (hroom : host'.device.table.Numbered)
    (hbare : ∀ call ∈ host'.calls, call.UnderWay → (call ∈ host.calls ∧ op ≠ .newChild call.event) ∨
      call.event ∈ (host.device.shared.events.answer op).names)
    (hcalls : ∀ call ∈ host'.calls, call.Owes host'.device →
      (call ∈ host.calls ∧ call.Owes host.device) ∨
        (call.event ∈ (host.device.shared.events.answer op).names ∧ holder = .call call.command.id))
    (hjobs : ∀ i j worker, host'.device.worker? i j = some worker →
      worker.Suits fun event => duty event = some (.process i j) ∨
        (event ∈ (host.device.shared.events.answer op).names ∧ holder = .process i j))
    (hcopies : ∀ number task, host'.device.shared.copies[number]? = some task →
      task.stage ≠ .ended → duty task.signal = some (.copy number)) :
    ∃ duty', host'.Duties duty' := by
  have hfree := h.free_of_made op (htable ▸ hroom)
  refine ⟨give duty holder (host.device.shared.events.answer op).names,
    h.after op htable hroom ?_ ?_ ?_ ?_ ?_⟩
  · intro event other hother
    unfold give at hother
    split at hother
    · next hmade => exact .inr hmade
    · exact .inl ⟨by simp [hother], hspares event⟩
  · intro call hcall hunderWay
    rcases hbare call hcall hunderWay with ⟨hold, hop⟩ | hmade
    · exact .inl ⟨h.bare call hold hunderWay, hop, hspares _⟩
    · exact .inr hmade
  · intro call hcall howes
    rcases hcalls call hcall howes with ⟨hold, howes⟩ | ⟨hmade, rfl⟩
    · exact give_of_held hfree (h.calls call hold howes)
    · exact if_pos hmade
  · intro i j worker hworker
    refine (hjobs i j worker hworker).mono fun event hevent => ?_
    rcases hevent with hold | ⟨hmade, rfl⟩
    · exact give_of_held hfree hold
    · exact if_pos hmade
  · exact fun number task htask hstage => give_of_held hfree (hcopies number task htask hstage)

/-- No event is in two hands. -/
theorem ne_of_held {event done : Event} {holder other : Holder} (hdone : duty done = some holder)
    (h : duty event = some other) (hne : other ≠ holder) : event ≠ done := by
  rintro rfl
  exact hne (Option.some.inj (h.symm.trans hdone))

theorem suits_apart {done : Event} {holder : Holder} (hdone : duty done = some holder)
    (h : worker.Suits fun event => duty event = some (.process i j)) (hne : .process i j ≠ holder) :
    worker.Suits fun event => duty event = some (.process i j) ∧ event ≠ done :=
  h.mono fun _ hevent => ⟨hevent, ne_of_held hdone hevent hne⟩

/-- What a holder had to do is done if `next` is none, and passes to a copy otherwise. All that others
hold is spared. -/
theorem Duties.pass (h : host.Duties duty) {done : Event} {holder : Holder}
    (hdone : duty done = some holder) (next : Option Holder) (op : EventOp)
    (hop : ∀ parent, op ≠ .newChild parent)
    (hspares : ∀ event, event ≠ done ∨ next ≠ none → host.device.shared.events.Spares event op)
    (htable : host'.device.table = (host.device.shared.events.apply op).table)
    (hroom : host'.device.table.Numbered)
    (hcalls : ∀ call ∈ host'.calls, call.Owes host'.device →
      call ∈ host.calls ∧ call.Owes host.device ∧ .call call.command.id ≠ holder)
    (hjobs : ∀ i j worker, host'.device.worker? i j = some worker →
      worker.Suits fun event => duty event = some (.process i j) ∧ event ≠ done)
    (hcopies : ∀ number task, host'.device.shared.copies[number]? = some task →
      task.stage ≠ .ended → (duty task.signal = some (.copy number) ∧ .copy number ≠ holder) ∨
        (task.signal = done ∧ next = some (.copy number))) :
    ∃ duty', host'.Duties duty' := by
  have hkept : ∀ {event other}, duty event = some other → event ≠ done →
      Function.update duty done next event = some other := fun hevent hne => by
    rw [Function.update_of_ne hne, hevent]
  refine ⟨Function.update duty done next, h.after op htable hroom ?_ ?_ ?_ ?_ ?_⟩
  · intro event other hother
    by_cases hevent : event = done
    · subst hevent
      rw [Function.update_self] at hother
      exact .inl ⟨by simp [hdone], hspares event (.inr (by simp [hother]))⟩
    · rw [Function.update_of_ne hevent] at hother
      exact .inl ⟨by simp [hother], hspares event (.inl hevent)⟩
  · intro call hcall hunderWay
    obtain ⟨hold, howes, hne⟩ := hcalls call hcall (.inl hunderWay)
    have hevent := ne_of_held hdone (h.calls call hold howes) hne
    exact .inl ⟨h.bare call hold hunderWay, hop _, hspares _ (.inl hevent)⟩
  · intro call hcall howes
    obtain ⟨hold, howes, hne⟩ := hcalls call hcall howes
    have hheld := h.calls call hold howes
    exact hkept hheld (ne_of_held hdone hheld hne)
  · exact fun i j worker hworker => (hjobs i j worker hworker).mono fun event hevent =>
      hkept hevent.1 hevent.2
  · intro number task htask hstage
    rcases hcopies number task htask hstage with ⟨hsignal, hne⟩ | ⟨rfl, rfl⟩
    · exact hkept hsignal (ne_of_held hdone hsignal hne)
    · exact Function.update_self ..

/-! ## Calls -/

theorem Duties.enqueue (h : host.Duties duty) (command : Command)
    (hroom : (host.device.setEvents host.device.shared.events.newEvent.2).table.Numbered)
    (makers : Event → Option CommandId) :
    ∃ duty', Duties { host with
      device := host.device.setEvents host.device.shared.events.newEvent.2
      calls := host.calls ++ [{ command, event := host.device.shared.events.newEvent.1 }]
      makers } duty' := by
  have hnew : host.device.shared.events.newEvent.1 ∈
      (host.device.shared.events.answer .newEvent).names := List.mem_singleton_self _
  refine h.make (.call command.id) .newEvent (fun _ => trivial) rfl hroom (fun call hcall _ => ?_)
    (fun call hcall howes => ?_)
    (fun i j worker hworker => (h.jobs i j worker hworker).mono fun _ => .inl) h.copies
  all_goals rcases List.mem_append.1 hcall with hold | hlast
  · exact .inl ⟨hold, by simp⟩
  · obtain rfl := List.mem_singleton.1 hlast
    exact .inr hnew
  · exact .inl ⟨hold, howes⟩
  · obtain rfl := List.mem_singleton.1 hlast
    exact .inr ⟨hnew, rfl⟩

theorem Duties.goOn (h : host.Duties duty) (hroster : host.Roster) {n : Nat} {stage : EnqueueStage}
    (here : host.calls[n]? = some call) (hmoves : call.Moves host.device device stage)
    (hroom : device.table.Numbered) (log : List Happening) :
    ∃ duty', Duties { host with device, calls := host.calls.set n { call with stage }, log } duty' := by
  have hcall := List.mem_of_getElem? here
  have hheld := h.calls call hcall (.inl hmoves.underWay)
  have hmem := mem_goOn hroster.distinct here stage
  -- Another call owes what it owed: only this one may have added its command to a queue.
  have howes : ∀ other ∈ host.calls, other.command.id ≠ call.command.id → other.Owes device →
      other.Owes host.device := by
    intro other hother hid howes
    refine (owes_of_takes hmoves.takes howes).resolve_right ?_
    rintro ⟨i, j, -, hpushed⟩
    split at hpushed
    · have heq : other.pushed.id = call.pushed.id := congrArg Command.id (List.mem_singleton.1 hpushed)
      exact hid heq
    · exact absurd hpushed List.not_mem_nil
  have hjobs := h.jobs_of_takes hmoves.takes
  rcases hmoves.shared with hshared | ⟨rfl, hshared⟩
  · refine ⟨duty, h.same (congrArg (·.events.table) hshared) hroom ?_ ?_ hjobs
      (congrArg Shared.copies hshared ▸ h.copies)⟩
    · intro other hother hunderWay
      rcases (hmem other).1 hother with rfl | ⟨hold, -⟩
      · exact h.bare call hcall hmoves.underWay
      · exact h.bare other hold hunderWay
    · intro other hother hother'
      rcases (hmem other).1 hother with rfl | ⟨hold, hid⟩
      · exact hheld
      · exact h.calls other hold (howes other hold hid hother')
  · have hspares : ∀ event, event ≠ call.event →
        host.device.shared.events.Spares event (.remove call.event) := fun event hevent hlinked =>
      hevent (hlinked.eq_of_unlinked (h.bare call hcall hmoves.underWay) rfl)
    refine h.pass hheld none (.remove call.event) (by simp)
      (fun event hevent => hspares event (hevent.resolve_right (by simp)))
      (congrArg (·.events.table) hshared) hroom (fun other hother hother' => ?_)
      (fun i j worker hworker => suits_apart hheld (hjobs i j worker hworker) (by simp))
      fun number task htask hstage => .inl ?_
    · rcases (hmem other).1 hother with rfl | ⟨hold, hid⟩
      · simp [EnqueueCall.Owes, EnqueueCall.UnderWay] at hother'
      · exact ⟨hold, howes other hold hid hother', by simpa using hid⟩
    · exact ⟨h.copies number task (congrArg Shared.copies hshared ▸ htask) hstage, by simp⟩

/-! ## Workers -/

/-- A step of a worker gives no command back to it. -/
theorem owes_of_turn {shared : Shared} {worker' : Worker} (hroster : host.Roster)
    (here : host.device.worker? i j = some worker)
    (hturn : Worker.Turn host.device.shared worker shared worker')
    (h : call.Owes { host.device.setWorker i j worker' with shared }) : call.Owes host.device := by
  rcases h with hunderWay | ⟨i', j', other, hstage, hother, hmem⟩
  · exact .inl hunderWay
  · change (host.device.setWorker i j worker').worker? i' j' = some other at hother
    rw [Device.worker?_setWorker here] at hother
    split at hother
    · next heq =>
      obtain ⟨rfl, rfl⟩ := heq
      obtain rfl := Option.some.inj hother
      refine .inr ⟨i', j', worker, hstage, here, ?_⟩
      rcases hturn.pipeline hroster.sink with hsame | ⟨command, healthy, -, -, hpipeline⟩
      · exact hsame ▸ hmem
      · exact hpipeline ▸ List.mem_cons_of_mem _ hmem
    · exact .inr ⟨i', j', other, hstage, hother, hmem⟩

/-- The workers after a step of one of them. -/
theorem forall_setWorker {shared : Shared} {worker' : Worker} {p : Nat → Nat → Worker → Prop}
    (here : host.device.worker? i j = some worker) (hnew : p i j worker')
    (hold : ∀ i' j' other, ¬ (i' = i ∧ j' = j) → host.device.worker? i' j' = some other →
      p i' j' other)
    (i' j' : Nat) (other : Worker)
    (hother : Device.worker? { host.device.setWorker i j worker' with shared } i' j' = some other) :
    p i' j' other := by
  change (host.device.setWorker i j worker').worker? i' j' = some other at hother
  rw [Device.worker?_setWorker here] at hother
  split at hother
  · next heq =>
    obtain ⟨rfl, rfl⟩ := heq
    obtain rfl := Option.some.inj hother
    exact hnew
  · next hne => exact hold i' j' other hne hother

/-- What a process does to the events that are its own. -/
theorem Duties.custody (h : host.Duties duty) {shared : Shared} {worker' : Worker}
    {own' links : Event → Prop} (here : host.device.worker? i j = some worker)
    (hcustody : host.device.shared.Custody shared (fun event => duty event = some (.process i j)) own'
      links)
    (hsuits : worker'.Suits own') (hlinks : ∀ call ∈ host.calls, call.UnderWay → ¬ links call.event)
    (howes : ∀ call ∈ host.calls, call.Owes { host.device.setWorker i j worker' with shared } →
      call.Owes host.device)
    (hroom : shared.events.table.Numbered) (makers : Event → Option CommandId) (log : List Happening) :
    ∃ duty', Duties { host with
      device := { host.device.setWorker i j worker' with shared }
      makers
      log } duty' := by
  cases hcustody with
  | kept table copies own_eq =>
    refine ⟨duty, h.same table hroom h.bare (fun call hcall howes' => ?_) ?_ (copies ▸ h.copies)⟩
    · exact h.calls call hcall (howes call hcall howes')
    · exact forall_setWorker here (own_eq ▸ hsuits) fun i' j' other _ => h.jobs i' j' other
  | made op op_eq events copies own_iff =>
    have hspares : ∀ event, host.device.shared.events.Spares event op := by
      rcases op_eq with rfl | ⟨parent, rfl, -⟩ <;> exact fun _ => trivial
    refine h.make (.process i j) op hspares (congrArg WaitList.table events) hroom
      (fun call hcall hunderWay => .inl ⟨hcall, ?_⟩)
      (fun call hcall howes' => .inl ⟨hcall, howes call hcall howes'⟩)
      (forall_setWorker here (hsuits.mono fun event hown => ?_) fun i' j' other _ hother => ?_)
      (copies ▸ h.copies)
    · rintro rfl
      obtain ⟨parent, hparent, hlink⟩ := op_eq.resolve_left (by simp)
      cases hparent
      exact hlinks call hcall hunderWay hlink
    · exact ((own_iff event).1 hown).imp_right fun hmade => ⟨hmade, rfl⟩
    · exact (h.jobs i' j' other hother).mono fun _ => .inl
  | started job signal mine table copies own_iff =>
    refine h.pass mine (some (.copy host.device.shared.copies.size)) (.enterWait signal) (by simp)
      (fun _ _ => trivial) table hroom
      (fun call hcall howes' => ⟨hcall, howes call hcall howes', by simp⟩)
      (forall_setWorker here (hsuits.mono fun event => (own_iff event).1)
        fun i' j' other hother hworker => ?_)
      fun number task htask hstage => ?_
    · exact suits_apart mine (h.jobs i' j' other hworker) (by simpa using hother)
    · have htask : (host.device.shared.copies.push { job, signal })[number]? = some task :=
        copies ▸ htask
      rw [Array.getElem?_push] at htask
      split at htask
      · next hlast =>
        obtain rfl := Option.some.inj htask
        exact .inr ⟨rfl, by rw [hlast]⟩
      · exact .inl ⟨h.copies number task htask hstage, by simp⟩

/-- A worker has completed the event of a command that is over. -/
theorem Duties.complete (h : host.Duties duty) (hroster : host.Roster) {command : Command}
    {healthy : Bool} (here : host.device.worker? i j = some worker)
    (hphase : worker.phase = .completing command healthy)
    (hroom : (host.device.shared.complete command.event).events.table.Numbered)
    (makers : Event → Option CommandId) (log : List Happening) :
    ∃ duty', Duties { host with
      device := { host.device.setWorker i j { worker with phase := Worker.afterReport healthy } with
        shared := host.device.shared.complete command.event }
      makers
      log } duty' := by
  have hpipeline : worker.pipeline = command :: worker.queue.pending := by
    simp [Worker.pipeline, hphase]
  have hpipeline' : Worker.pipeline { worker with phase := Worker.afterReport healthy } =
      worker.queue.pending := Worker.pipeline_afterReport rfl
  obtain ⟨call, hcall, hstage, rfl⟩ := hroster.placed i j worker here command
    (hpipeline ▸ List.mem_cons_self)
  have hheld := h.calls call hcall
    (.inr ⟨i, j, worker, hstage, here, hpipeline ▸ List.mem_cons_self⟩)
  -- The command is nowhere any more.
  have hover : ∀ other ∈ host.calls, other.Owes { host.device.setWorker i j
      { worker with phase := Worker.afterReport healthy } with
      shared := host.device.shared.complete call.pushed.event } →
      other.command.id ≠ call.command.id := by
    rintro other hother howes hid
    obtain rfl := hroster.eq_of_id hother hcall hid
    rcases howes with hunderWay | ⟨i', j', worker', hstage', hworker', hmem⟩
    · simp [EnqueueCall.UnderWay, hstage] at hunderWay
    · obtain ⟨rfl, rfl⟩ : i = i' ∧ j = j' := by simpa [hstage] using hstage'
      change (host.device.setWorker i j _).worker? i j = some worker' at hworker'
      rw [Device.worker?_setWorker here, if_pos ⟨rfl, rfl⟩, Option.some.injEq] at hworker'
      rw [← hworker', hpipeline'] at hmem
      have honce := hroster.once i j worker here
      rw [hpipeline, List.map_cons, List.nodup_cons] at honce
      exact honce.1 (List.mem_map_of_mem hmem)
  refine h.pass hheld none (.setCompleted call.event true) (by simp)
    (fun event hevent => (hevent.resolve_right (by simp)).symm) rfl hroom
    (fun other hother howes => ?_) (forall_setWorker here ?_ fun i' j' other _ hother => ?_)
    fun number task htask hstage => .inl ⟨h.copies number task htask hstage, by simp⟩
  · refine ⟨hother, owes_of_turn hroster here (.complete hphase) howes, ?_⟩
    simpa using hover other hother howes
  · intro command job hrunning
    cases healthy <;> cases hrunning
  · exact suits_apart hheld (h.jobs i' j' other hother) (by simp)

/-- A step of a worker. -/
theorem Duties.work (h : host.Duties duty) (hroster : host.Roster) {shared : Shared}
    {worker' : Worker} (here : host.device.worker? i j = some worker)
    (hturn : Worker.Turn host.device.shared worker shared worker')
    (given : ∀ call ∈ host.calls, call.UnderWay → ¬ worker.Links call.event)
    (hroom : shared.events.table.Numbered) (makers : Event → Option CommandId)
    (log : List Happening) :
    ∃ duty', Duties { host with
      device := { host.device.setWorker i j worker' with shared }
      makers
      log } duty' := by
  obtain ⟨own', hcustody, hsuits⟩ | ⟨command, healthy, hphase, rfl, rfl⟩ :=
    hturn.custody (h.jobs i j worker here) (hroster.independent_inHand here)
  · exact h.custody here hcustody hsuits given (fun _ _ => owes_of_turn hroster here hturn) hroom _ _
  · exact h.complete hroster here hphase hroom makers log

/-! ## Copies and waiting threads -/

/-- A copy moves bytes, or completes its event. -/
theorem Duties.copy (h : host.Duties duty) {shared : Shared} {number : Nat}
    (hcopy : host.device.shared.stepCopy? number = some shared)
    (hroom : shared.events.table.Numbered) :
    ∃ duty', Duties { host with device := { host.device with shared } } duty' := by
  obtain ⟨task, htask, ⟨hstage, memory, stage, rfl⟩ | ⟨hstage, rfl⟩⟩ := Shared.stepCopy?_eq_some hcopy
  all_goals
    have hlt := (Array.getElem?_eq_some_iff.1 htask).1
    have hheld := h.copies number task htask (by simp [hstage])
  · refine ⟨duty, h.same rfl hroom h.bare h.calls h.jobs fun other task' htask' hstage' => ?_⟩
    rw [Array.getElem?_setIfInBounds] at htask'
    split at htask'
    · next heq =>
      obtain rfl := heq
      obtain rfl : { task with stage } = task' := by simpa [hlt] using htask'
      exact hheld
    · exact h.copies other task' htask' hstage'
  · refine h.pass hheld none (.setCompleted task.signal true) (by simp)
      (fun event hevent => (hevent.resolve_right (by simp)).symm) rfl hroom
      (fun call hcall howes => ⟨hcall, howes, by simp⟩)
      (fun i j worker hworker => suits_apart hheld (h.jobs i j worker hworker) (by simp))
      fun other task' htask' hstage' => .inl ?_
    rw [Array.getElem?_setIfInBounds] at htask'
    split at htask'
    · next heq =>
      obtain rfl : { task with stage := .ended } = task' := by simpa [heq ▸ hlt] using htask'
      exact absurd rfl hstage'
    · next hother => exact ⟨h.copies other task' htask' hstage', by simpa using Ne.symm hother⟩

theorem Duties.step (h : host.Duties duty) (hroster : host.Roster) (hstep : Step host host')
    (hroom : host'.device.table.Numbered) : ∃ duty', host'.Duties duty' := by
  cases hstep with
  | enqueue command fresh independent => exact h.enqueue command hroom _
  | goOn here moves => exact h.goOn hroster here moves hroom _
  | close here =>
    rename_i i j worker
    have htakes : host.device.Takes (host.device.setWorker i j worker.close) fun _ _ => [] :=
      Device.takes_nothing here rfl rfl
    have hshared : (host.device.setWorker i j worker.close).shared = host.device.shared := by simp
    refine ⟨duty, h.same (congrArg (·.events.table) hshared) hroom h.bare (fun call hcall howes => ?_)
      (h.jobs_of_takes htakes) (congrArg Shared.copies hshared ▸ h.copies)⟩
    exact h.calls call hcall ((owes_of_takes htakes howes).resolve_right (by simp))
  | wait event => exact ⟨duty, h.same rfl hroom h.bare h.calls h.jobs h.copies⟩
  | ask command => exact ⟨duty, h.same rfl hroom h.bare h.calls h.jobs h.copies⟩
  | work here step given => exact h.work hroster here (Worker.turn step) given hroom _ _
  | copy number step =>
    obtain ⟨shared, hcopy, rfl⟩ := Device.step?_copy.1 step
    exact h.copy hcopy hroom
  | waiter number step =>
    obtain ⟨events, hevents, rfl⟩ := Device.step?_waiter.1 step
    have happly : host.device.shared.events.apply (.stepWaiter number) = events := by
      simp [WaitList.apply, hevents]
    refine ⟨duty, h.after (.stepWaiter number) (congrArg WaitList.table happly.symm) hroom ?_ ?_
      h.calls h.jobs h.copies⟩
    · exact fun event holder hholder => .inl ⟨by simp [hholder], trivial⟩
    · exact fun call hcall hunderWay => .inl ⟨h.bare call hcall hunderWay, by simp, trivial⟩
  | meanwhile shared events statuses copies sink =>
    exact ⟨duty, h.same (congrArg WaitList.table events) hroom h.bare h.calls h.jobs
      (copies ▸ h.copies)⟩

theorem duties_start {cores : Nat} {config : Config} {blockLimit : Fin Size.limit}
    (h : Device.create cores config blockLimit = .ok device) :
    Duties { device } fun _ => none := by
  obtain ⟨hfresh, memory, localMemory, hshared⟩ := Device.create_fresh h
  refine ⟨?_, by simp, by simp, by simp, fun i j worker hworker command job hrunning => ?_, ?_⟩
  · have hempty : Device.table device = {} := congrArg (·.events.table) hshared
    exact hempty ▸ EventTable.wellFormed_empty
  · simp [(hfresh i j worker hworker).phase] at hrunning
  · simp [hshared]

theorem Reachable.duties (h : Reachable host) : ∃ duty, host.Duties duty := by
  induction h with
  | start hcreate => exact ⟨_, duties_start hcreate⟩
  | step hreachable hstep hroom ih =>
    obtain ⟨duty, hduties⟩ := ih
    exact hduties.step hreachable.roster hstep hroom

/-- The event of a command that is not over is still to be completed. -/
theorem Reachable.pending_of_owes (h : Reachable host) (hcall : call ∈ host.calls)
    (howes : call.Owes host.device) : host.device.table.Pending call.event := by
  obtain ⟨duty, hduties⟩ := h.duties
  exact hduties.pending call.event _ (hduties.calls call hcall howes)

end Steps

end Host

end ComputeCore
