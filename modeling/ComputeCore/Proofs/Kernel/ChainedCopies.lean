import ComputeCore.Proofs.Kernel.ChainWait
/-!
# What a work-item that chains copies can rely on

`CopyChain.Position` says where the work-item can be. With what is so of its events there and of the copies
it has started this is an invariant of every run (`CopyChain.Sound.run`), whoever takes the steps, and
`CopyChain.chained_copies` says what comes of it.
-/

namespace ComputeCore

namespace CopyChain

/-! ## The work-item's way -/

/-- Where the work-item is. -/
inductive Position (item : WorkItem) (jobs : List CopyJob) (live : Nat) (chain : CopyChain) : Prop
  | fresh (first : CopyJob) (others : List CopyJob) (jobs_eq : jobs = first :: others)
      (process : chain.process = item.chainCopies first others) (events : chain.events = [])
      (copies : chain.copies = []) (live_eq : chain.alone = true → chain.table.live = live)
  /-- It has started a copy for each of its events. -/
  | issuing (top : Event) (linked : List Event) (lined : chain.Lined live top [] none linked)
      (process : chain.process = item.finishChain (some top) (jobs.drop chain.copies.length))
      (counted : chain.events.length = chain.copies.length)
  /-- It has made an event, and is about to start the copy. -/
  | starting (top : Event) (linked : List Event) (lined : chain.Lined live top [] none linked)
      (job : CopyJob) (signal : Event) (todo : List CopyJob)
      (process : chain.process = .ask (.startCopy job signal) fun _ => item.finishChain (some top) todo)
      (rest : jobs.drop chain.copies.length = job :: todo)
      (signal_eq : chain.events[chain.copies.length]? = some signal)
      (counted : chain.events.length = chain.copies.length + 1)
  | waiting (number : Nat) (top : Event) (gone : List Event) (inner : Option Event) (linked : List Event)
      (waits : chain.Waiting live number top gone inner linked)
      (process : chain.process = .ask (.leaveWait number) fun _ => .done ())
      (issued : chain.copies.length = jobs.length)
  /-- The wait has returned. -/
  | returned (past : chain.Over live) (number : Nat)
      (process : chain.process = .ask (.leaveWait number) fun _ => .done ())
      (waiter : ∃ waiter, chain.shared.events.waiters[number]? = some waiter ∧ waiter.calls = [])
      (issued : chain.copies.length = jobs.length)
  | finished (past : chain.Over live) (process : chain.process = .done ())
      (issued : chain.copies.length = jobs.length)

/-- What is so of a work-item that chains copies, at any time since it started. -/
structure Sound (item : WorkItem) (jobs : List CopyJob) (start : Shared) (chain : CopyChain) : Prop where
  wellFormed : chain.table.WellFormed
  matched : Matched jobs chain.events chain.copies
  tasks : Tasks start.memory.heap chain.shared jobs chain.events chain.copies
  kept : CopyJob.Kept jobs start.memory.heap chain.heap
  position : Position item jobs start.events.table.live chain

/-- What a work-item that chains copies can rely on. -/
structure Promised (jobs : List CopyJob) (start : Shared) (chain : CopyChain) : Prop where
  faultless : ∀ fault, chain.process ≠ .fault fault
  /-- Each copy had an event of its own, and none of them is left. -/
  gone : chain.Returned → chain.events.length = jobs.length ∧ chain.events.Nodup ∧
    ∀ event ∈ chain.events, chain.table.knows event = false
  delivered : chain.Returned → ∀ job ∈ jobs, job.Delivered start.memory.heap chain.heap
  live : chain.Returned → chain.alone = true → chain.table.live = start.events.table.live
  awake : chain.Landed jobs → ∀ number waiter, chain.Waits number →
    chain.shared.events.waiters[number]? = some waiter → waiter.isBlocked = true → waiter.asleep = false
  /-- The waiter's own steps lead out of the wait. -/
  returns : chain.Landed jobs → ∀ number, chain.Waits number → ∃ list,
    Relation.ReflTransGen (fun list list' => list.stepWaiter? number = some list') chain.shared.events list ∧
      list.isBlocked number = false

section Runs
variable {item : WorkItem} {first : CopyJob} {more jobs : List CopyJob} {start : Shared}
  {chain chain' : CopyChain} {live number : Nat} {command : CommandId}

/-- Only a work-item that has issued all copies waits. -/
theorem Position.waits (h : Position item jobs live chain) (hitem : item.cursor.isGroupStart = true)
    (hmine : chain.Waits number) : chain.copies.length = jobs.length ∧
      chain.process = .ask (.leaveWait number) (fun _ => .done ()) ∧
      ((∃ top gone inner linked, chain.Waiting live number top gone inner linked) ∨
        chain.Over live ∧ ∃ waiter, chain.shared.events.waiters[number]? = some waiter ∧ waiter.calls = []) := by
  obtain ⟨next, hnext⟩ := waits_iff.1 hmine
  cases h with
  | fresh first others jobs_eq process =>
    cases hnext.symm.trans (process.trans (WorkItem.chainCopies_eq hitem))
  | issuing top linked lined process =>
    obtain ⟨request, next', hasks, hother⟩ := item.finishChain_asks hitem top (jobs.drop chain.copies.length)
    cases hnext.symm.trans (process.trans hasks)
    exact absurd rfl (hother number)
  | starting top linked lined job signal todo process => cases hnext.symm.trans process
  | waiting awaited top gone inner linked waits process issued =>
    cases hnext.symm.trans process
    exact ⟨issued, process, .inl ⟨top, gone, inner, linked, waits⟩⟩
  | returned past awaited process waiter issued =>
    cases hnext.symm.trans process
    exact ⟨issued, process, .inr ⟨past, waiter⟩⟩
  | finished past process => cases hnext.symm.trans process

theorem Position.undisturbed (h : Position item jobs live chain) (hsame : chain.Undisturbed chain') :
    Position item jobs live chain' := by
  have hprocess := hsame.process
  cases h with
  | fresh first others jobs_eq process events copies live_eq =>
    refine .fresh first others jobs_eq (hprocess.trans process) (hsame.events.trans events)
      (hsame.copies.trans copies) fun halone => ?_
    obtain ⟨halone, hlive⟩ := hsame.live halone
    rw [hlive, live_eq halone]
  | issuing top linked lined process counted =>
    refine .issuing top linked (lined.same hsame.toSameLinks) ?_ ?_
    · rw [hprocess, process, hsame.copies]
    · rw [hsame.events, counted, hsame.copies]
  | starting top linked lined job signal todo process rest signal_eq counted =>
    refine .starting top linked (lined.same hsame.toSameLinks) job signal todo (hprocess.trans process) ?_ ?_ ?_
    · rw [hsame.copies, rest]
    · rw [hsame.copies, hsame.events, signal_eq]
    · rw [hsame.copies, hsame.events, counted]
  | waiting number top gone inner linked waits process issued =>
    exact .waiting number top gone inner linked (waits.undisturbed hsame (waits_iff.2 ⟨_, process⟩))
      (hprocess.trans process) (by rw [hsame.copies, issued])
  | returned past number process waiter issued =>
    obtain ⟨waiter, hwaiter, hcalls⟩ := waiter
    obtain ⟨waiter', hwaiter', hcalls', -⟩ := hsame.waiter number (waits_iff.2 ⟨_, process⟩) waiter hwaiter
    exact .returned (past.same hsame.toSameLinks) number (hprocess.trans process)
      ⟨waiter', hwaiter', hcalls'.trans hcalls⟩ (by rw [hsame.copies, issued])
  | finished past process issued =>
    exact .finished (past.same hsame.toSameLinks) (hprocess.trans process) (by rw [hsame.copies, issued])

theorem Sound.undisturbed (h : Sound item jobs start chain) (hsame : chain.Undisturbed chain')
    (hwellFormed : chain'.table.WellFormed)
    (htasks : Tasks start.memory.heap chain'.shared jobs chain.events chain.copies)
    (hkept : CopyJob.Kept jobs start.memory.heap chain'.heap) : Sound item jobs start chain' where
  wellFormed := hwellFormed
  matched := by
    rw [hsame.events, hsame.copies]
    exact h.matched
  tasks := by
    rw [hsame.events, hsame.copies]
    exact htasks
  kept := hkept
  position := h.position.undisturbed hsame

/-! ## The work-item's own steps -/

/-- An event is made, and is that of the next copy. -/
theorem Sound.made {list : WaitList} {signal top : Event} {parent : Option Event} {linked : List Event}
    {job : CopyJob} (h : Sound item jobs start chain) (hmade : chain.shared.events.Made list signal parent)
    (hnew : signal ∉ chain.events) (hcounted : chain.events.length = chain.copies.length)
    {todo : List CopyJob} (hrest : jobs.drop chain.copies.length = job :: todo)
    (hshared : chain'.shared = { chain.shared with events := list })
    (hprocess : chain'.process = .ask (.startCopy job signal) fun _ => item.finishChain (some top) todo)
    (hevents : chain'.events = chain.events ++ [signal]) (hcopies : chain'.copies = chain.copies)
    (hlined : chain'.Lined start.events.table.live top [] none linked) : Sound item jobs start chain' where
  wellFormed := by
    rw [table, hshared]
    exact hmade.wellFormed
  matched := by
    rw [hevents, hcopies]
    refine h.matched.concat hnew hcounted (Nat.lt_of_not_le fun hle => ?_)
    rw [List.drop_eq_nil_of_le hle] at hrest
    cases hrest
  tasks := by
    rw [hshared, hevents, hcopies]
    exact h.tasks.made hmade hnew hcounted.symm
  kept := by
    rw [heap, hshared]
    exact h.kept
  position := .starting top linked hlined job signal todo hprocess (by rw [hcopies, hrest])
    (by rw [hevents, hcopies, ← hcounted, List.getElem?_concat_length])
    (by rw [hevents, hcopies, List.length_append, hcounted]; rfl)

/-- The copy of the event made last is started. -/
theorem Sound.started {signal top : Event} {linked : List Event} {job : CopyJob} {todo : List CopyJob}
    (h : Sound item jobs start chain) (hlined : chain.Lined start.events.table.live top [] none linked)
    (hrest : jobs.drop chain.copies.length = job :: todo)
    (hsignal : chain.events[chain.copies.length]? = some signal)
    (hcounted : chain.events.length = chain.copies.length + 1)
    (hshared : chain'.shared = { chain.shared with copies := chain.shared.copies.push { job, signal } })
    (hprocess : chain'.process = item.finishChain (some top) todo)
    (hevents : chain'.events = chain.events)
    (hcopies : chain'.copies = chain.copies ++ [chain.shared.copies.size])
    (halone : chain'.alone = chain.alone) : Sound item jobs start chain' where
  wellFormed := by
    rw [table, hshared]
    exact h.wellFormed
  matched := by
    rw [hevents, hcopies]
    refine ⟨by simp [hcounted], h.matched.made, h.matched.events, ?_⟩
    refine List.nodup_append.2 ⟨h.matched.copies, List.nodup_singleton _, fun number hnumber other hother => ?_⟩
    obtain ⟨_, _, _, -, -, -, hcarried⟩ := h.tasks.carried h.matched hnumber
    exact List.mem_singleton.1 hother ▸ Nat.ne_of_lt hcarried.lt_size
  tasks := by
    have hjob : jobs[chain.copies.length]? = some job := by
      rw [← List.head?_drop, hrest]
      rfl
    rw [hshared, hevents, hcopies]
    exact h.tasks.started hjob hsignal hcounted
  kept := by
    rw [heap, hshared]
    exact h.kept
  position := by
    refine .issuing top linked (hlined.same ⟨hevents, fun event _ => ?_, fun hmine => ⟨halone ▸ hmine, ?_⟩⟩) ?_ ?_
    · rw [table, hshared]
      rfl
    · rw [table, hshared]
      rfl
    · rw [hprocess, hcopies, List.length_append, List.length_singleton, ← List.drop_drop, hrest]
      rfl
    · rw [hevents, hcopies, hcounted, List.length_append, List.length_singleton]

/-- The wait starts. -/
theorem Sound.entered {top : Event} {linked : List Event} (h : Sound item jobs start chain)
    (hlined : chain.Lined start.events.table.live top [] none linked)
    (hcounted : chain.events.length = chain.copies.length) (hrest : jobs.drop chain.copies.length = [])
    (hshared : chain'.shared = { chain.shared with events := (chain.shared.events.enterWait top).2 })
    (hprocess : chain'.process = .ask (.leaveWait chain.shared.events.waiters.size) fun _ => .done ())
    (hevents : chain'.events = chain.events) (hcopies : chain'.copies = chain.copies)
    (halone : chain'.alone = chain.alone) : Sound item jobs start chain' where
  wellFormed := by
    rw [table, hshared]
    exact h.wellFormed
  matched := by
    rw [hevents, hcopies]
    exact h.matched
  tasks := by
    rw [hshared, hevents, hcopies]
    exact h.tasks.frame (fun _ _ => rfl) (fun _ _ => Iff.rfl) fun _ _ _ _ => rfl
  kept := by
    rw [heap, hshared]
    exact h.kept
  position := by
    have htable : chain'.table = chain.table := by
      rw [table, hshared]
      rfl
    have hsame : chain.SameLinks chain' :=
      ⟨hevents, fun event _ => by rw [htable], fun hmine => ⟨halone ▸ hmine, by rw [htable]⟩⟩
    refine .waiting _ top [] none linked ⟨hlined.same hsame, { calls := [top] }, ?_, rfl, by simp⟩ hprocess ?_
    · rw [hshared]
      exact Array.getElem?_push_size
    · have hmade := h.matched.made
      have hall := List.drop_eq_nil_iff.1 hrest
      rw [hcopies]
      omega

/-- What the work-item does next, and that this is no fault. -/
theorem Sound.ask {request : Request} {next : request.Reply → Process Unit}
    {result : Except Fault (request.Reply × Shared)} (h : Sound item jobs start chain)
    (hitem : item.cursor.isGroupStart = true) (here : chain.process = .ask request next)
    (hanswered : chain.shared.perform command request = some result) :
    ∃ reply shared, result = .ok (reply, shared) ∧ (shared.events.table.Numbered →
      Sound item jobs start { chain with
        shared
        process := next reply
        events := chain.events ++ request.made reply
        copies := chain.copies ++ chain.starts request }) := by
  cases h.position with
  | fresh first others jobs_eq process events copies live_eq =>
    cases here.symm.trans (process.trans (WorkItem.chainCopies_eq hitem))
    obtain rfl : result = .ok (chain.shared.events.newEvent.1,
      { chain.shared with events := chain.shared.events.newEvent.2 }) := (Option.some.inj hanswered).symm
    refine ⟨_, _, rfl, fun hroom => ?_⟩
    have hmade := WaitList.made_newEvent h.wellFormed hroom
    refine h.made hmade (by simp [events]) (by simp [events, copies]) ?_ rfl rfl rfl (List.append_nil _)
      (Lined.first events live_eq hmade rfl rfl rfl)
    rw [copies, jobs_eq]
    rfl
  | issuing top linked lined process counted =>
    cases hrest : jobs.drop chain.copies.length with
    | nil =>
      rw [hrest, WorkItem.finishChain_nil] at process
      cases here.symm.trans process
      obtain rfl : result = .ok (chain.shared.events.waiters.size,
        { chain.shared with events := (chain.shared.events.enterWait top).2 }) := (Option.some.inj hanswered).symm
      exact ⟨_, _, rfl, fun _ => h.entered lined counted hrest rfl rfl (List.append_nil _) (List.append_nil _) rfl⟩
    | cons job todo =>
      rw [hrest, WorkItem.finishChain_cons hitem] at process
      cases here.symm.trans process
      obtain ⟨completed, hentry⟩ := EventTable.links?_eq_some.1 lined.links
      have hchild : chain.shared.perform command (.newChildEvent top) =
          some (.ok (chain.shared.events.table.insert.1,
            { chain.shared with events := chain.shared.events.apply (.newChild top) })) := by
        simp only [Shared.perform, WaitList.newChildEvent_of_known hentry]
      obtain rfl := Option.some.inj (hchild.symm.trans hanswered)
      refine ⟨_, _, rfl, fun hroom => ?_⟩
      have hmade := WaitList.made_newChild h.wellFormed hroom hentry
      exact h.made hmade (lined.not_mem_of_fresh hmade.fresh) counted hrest rfl rfl rfl (List.append_nil _)
        (lined.made h.matched.events hmade rfl rfl rfl)
  | starting top linked lined job signal todo process rest signal_eq counted =>
    cases here.symm.trans process
    obtain rfl : result = .ok ((), { chain.shared with copies := chain.shared.copies.push { job, signal } }) :=
      (Option.some.inj hanswered).symm
    exact ⟨_, _, rfl, fun _ => h.started lined rest signal_eq counted rfl rfl (List.append_nil _) rfl rfl⟩
  | waiting number top gone inner linked waits process issued =>
    cases here.symm.trans process
    obtain ⟨waiter, hwaiter, hcalls, -⟩ := waits.waiter
    simp [Shared.perform, WaitList.isBlocked, hwaiter, Waiter.isBlocked, hcalls] at hanswered
  | returned past number process waiter issued =>
    cases here.symm.trans process
    obtain ⟨waiter, hwaiter, hcalls⟩ := waiter
    have hdone : chain.shared.perform command (.leaveWait number) = some (.ok ((), chain.shared)) := by
      simp [Shared.perform, WaitList.isBlocked, hwaiter, Waiter.isBlocked, hcalls]
    obtain rfl := Option.some.inj (hdone.symm.trans hanswered)
    refine ⟨_, _, rfl, fun _ => ?_⟩
    rw [show chain.events ++ Request.made (.leaveWait number) () = chain.events from List.append_nil _,
      show chain.copies ++ chain.starts (.leaveWait number) = chain.copies from List.append_nil _]
    exact ⟨h.wellFormed, h.matched, h.tasks, h.kept, .finished ⟨past.gone, past.live⟩ rfl issued⟩
  | finished past process issued =>
    cases here.symm.trans process

/-! ## The steps of others -/

theorem undisturbed_of_events {shared : Shared} (hevents : shared.events = chain.shared.events) :
    chain.Undisturbed { chain with shared } where
  events := rfl
  links event _ := by rw [table, hevents]; rfl
  live hmine := ⟨hmine, by rw [table, hevents]; rfl⟩
  process := rfl
  copies := rfl
  waiter number _ waiter hwaiter := by
    refine ⟨waiter, by rw [hevents, hwaiter], rfl, fun hasleep => ⟨hasleep, fun event _ hpending => ?_⟩⟩
    rw [table, hevents]
    exact hpending

theorem undisturbed_of_setCompleted {shared : Shared} {signal : Event} (hpending : chain.table.Pending signal)
    (hevents : shared.events = chain.shared.events.setCompleted signal true) :
    chain.Undisturbed { chain with shared } where
  events := rfl
  links event _ := by
    rw [table, hevents]
    exact WaitList.links?_setCompleted
  live hmine := ⟨hmine, by
    rw [table, hevents]
    exact WaitList.live_setCompleted⟩
  process := rfl
  copies := rfl
  waiter number _ waiter hwaiter := by
    refine ⟨waiter.wake, ?_, rfl, by simp [Waiter.wake]⟩
    rw [hevents, WaitList.waiters_setCompleted_of_pending hpending, Array.getElem?_map, hwaiter]
    rfl

theorem Sound.copied {shared : Shared} (h : Sound item jobs start chain)
    (hvalid : CopyJob.AllValid jobs start.memory.heap) (hmine : number ∈ chain.copies)
    (hstep : chain.shared.stepCopy? number = some shared) : Sound item jobs start { chain with shared } := by
  obtain ⟨htasks, hkept, hevents | ⟨signal, -, hpending, hevents⟩⟩ :=
    h.tasks.stepCopy? hvalid h.kept h.matched hmine hstep
  · refine h.undisturbed (undisturbed_of_events hevents) ?_ htasks hkept
    rw [table, hevents]
    exact h.wellFormed
  · refine h.undisturbed (undisturbed_of_setCompleted hpending hevents) ?_ htasks hkept
    rw [table, hevents]
    exact WaitList.wellFormed_apply h.wellFormed (.setCompleted signal true)

/-- Others leave the chain's events and its wait alone. -/
theorem Sound.others {op : EventOp} (h : Sound item jobs start chain)
    (hroom : (chain.shared.events.apply op).table.Numbered)
    (hleaves : ∀ event ∈ chain.events, chain.shared.events.Leaves event op)
    (helsewhere : ∀ number, chain.Waits number → op ≠ .stepWaiter number) :
    Sound item jobs start { chain with
      shared := { chain.shared with events := chain.shared.events.apply op }
      alone := false } := by
  have hsame : ∀ event ∈ chain.events,
      (chain.shared.events.apply op).table.lookup? event = chain.shared.events.table.lookup? event :=
    fun event hevent => WaitList.lookup?_apply_of_leaves h.wellFormed hroom (hleaves event hevent)
  have hpending : ∀ event ∈ chain.events, (chain.shared.events.apply op).table.Pending event ↔
      chain.shared.events.table.Pending event := fun event hevent => by
    unfold EventTable.Pending
    rw [hsame event hevent]
  refine h.undisturbed ⟨⟨rfl, fun event hevent => ?_, nofun⟩, rfl, rfl, fun number hmine waiter hwaiter => ?_⟩
    (WaitList.wellFormed_apply h.wellFormed op) (h.tasks.frame (fun _ _ => rfl) hpending fun _ _ _ _ => rfl) h.kept
  · exact congrArg (Option.map _) (hsame event hevent)
  · obtain ⟨waiter', hwaiter', hcalls, hasleep⟩ := WaitList.waiter_apply (helsewhere number hmine) hwaiter
    exact ⟨waiter', hwaiter', hcalls, fun h => ⟨hasleep h, fun event hevent => (hpending event hevent).2⟩⟩

theorem Sound.aside {shared : Shared} (h : Sound item jobs start chain)
    (hevents : shared.events = chain.shared.events)
    (hcopies : ∀ number ∈ chain.copies, shared.copies[number]? = chain.shared.copies[number]?)
    (hbytes : chain.heap.Agrees (CopyJob.Touched jobs) shared.memory.heap) :
    Sound item jobs start { chain with shared } := by
  refine h.undisturbed (undisturbed_of_events hevents) ?_ (h.tasks.frame hcopies (fun _ _ => by rw [hevents]) ?_)
    (h.kept.of_agrees hbytes)
  · rw [table, hevents]
    exact h.wellFormed
  · exact fun job hjob address hwrites => hbytes address ⟨job, hjob, .inr hwrites⟩

theorem Sound.waited {list : WaitList} (h : Sound item jobs start chain) (hitem : item.cursor.isGroupStart = true)
    (hmine : chain.Waits number) (hstep : chain.shared.events.stepWaiter? number = some list) :
    Sound item jobs start { chain with shared := { chain.shared with events := list } } := by
  obtain ⟨waiter, waiter', hwaiter, hmoved, -⟩ := WaitList.stepWaiter?_eq_some hstep
  have happly : chain.shared.events.apply (.stepWaiter number) = list := by
    simp only [WaitList.apply, hstep, Option.getD_some]
  obtain ⟨hissued, hprocess, hposition⟩ := h.position.waits hitem hmine
  refine ⟨?_, h.matched, ?_, h.kept, ?_⟩
  · have hwellFormed := WaitList.wellFormed_apply h.wellFormed (.stepWaiter number)
    rwa [happly] at hwellFormed
  · exact h.tasks.frame (fun _ _ => rfl) (fun event _ => (Waiter.move hmoved).2.pending_iff event)
      fun _ _ _ _ => rfl
  · rcases hposition with ⟨top, gone, inner, linked, hwaits⟩ | ⟨-, returned, hreturned, hcalls⟩
    · rcases hwaits.step h.matched.events hstep with ⟨gone', inner', linked', hwaits'⟩ | ⟨hover, hended⟩
      · exact .waiting number top gone' inner' linked' hwaits' hprocess hissued
      · exact .returned hover number hprocess hended hissued
    · -- A thread that has returned takes no step.
      obtain rfl := Option.some.inj (hwaiter.symm.trans hreturned)
      simp [Waiter.step, hcalls] at hmoved

/-! ## Runs -/

theorem Sound.step (h : Sound item jobs start chain) (hitem : item.cursor.isGroupStart = true)
    (hvalid : CopyJob.AllValid jobs start.memory.heap) (hnext : Next command jobs chain chain') :
    Sound item jobs start chain' := by
  obtain ⟨hstep, hroom⟩ := hnext
  cases hstep with
  | ask here answered =>
    obtain ⟨reply, shared, heq, hsound⟩ := h.ask hitem here answered
    cases heq
    exact hsound hroom
  | fault here faulted =>
    obtain ⟨reply, shared, heq, -⟩ := h.ask hitem here faulted
    cases heq
  | copy number mine step => exact h.copied hvalid mine step
  | wait number mine step => exact h.waited hitem mine step
  | others op leaves elsewhere => exact h.others hroom leaves elsewhere
  | aside shared events copies bytes => exact h.aside events copies bytes

theorem sound_fresh (hwellFormed : start.events.table.WellFormed)
    (hvalid : CopyJob.AllValid (first :: more) start.memory.heap) :
    Sound item (first :: more) start { shared := start, process := item.chainCopies first more } where
  wellFormed := hwellFormed
  matched := ⟨Nat.le_refl _, Nat.zero_le _, .nil, .nil⟩
  tasks := fun n job event _ hevent => by simp at hevent
  kept := hvalid.kept
  position := .fresh first more rfl rfl rfl rfl fun _ => rfl

theorem Sound.run (h : Sound item jobs start chain) (hitem : item.cursor.isGroupStart = true)
    (hvalid : CopyJob.AllValid jobs start.memory.heap)
    (hrun : Relation.ReflTransGen (Next command jobs) chain chain') : Sound item jobs start chain' := by
  induction hrun with
  | refl => exact h
  | tail _ hnext ih => exact ih.step hitem hvalid hnext

/-! ## What the work-item can rely on -/

/-- A work-item that has nothing more to ask for has waited. -/
theorem Position.over_of_not_asking (h : Position item jobs live chain) (hitem : item.cursor.isGroupStart = true)
    (hdone : ∀ request next, chain.process ≠ .ask request next) :
    chain.process = .done () ∧ chain.Over live ∧ chain.copies.length = jobs.length := by
  cases h with
  | fresh first others jobs_eq process =>
    exact absurd (process.trans (WorkItem.chainCopies_eq hitem)) (hdone _ _)
  | issuing top linked lined process =>
    obtain ⟨request, next, hasks, -⟩ := item.finishChain_asks hitem top (jobs.drop chain.copies.length)
    exact absurd (process.trans hasks) (hdone _ _)
  | starting top linked lined job signal todo process => exact absurd process (hdone _ _)
  | waiting number top gone inner linked waits process => exact absurd process (hdone _ _)
  | returned past number process => exact absurd process (hdone _ _)
  | finished past process issued => exact ⟨process, past, issued⟩

theorem Position.isOver (h : Position item jobs live chain) (hitem : item.cursor.isGroupStart = true)
    (hreturned : chain.Returned) : chain.Over live ∧ chain.copies.length = jobs.length := by
  rcases hreturned with hdone | ⟨number, hmine, hreturned⟩
  · exact (h.over_of_not_asking hitem (by simp [hdone])).2
  · obtain ⟨hissued, -, ⟨top, gone, inner, linked, hwaits⟩ | ⟨hover, -⟩⟩ := h.waits hitem hmine
    · obtain ⟨waiter, hwaiter, hcalls, -⟩ := hwaits.waiter
      simp [WaitList.isBlocked, hwaiter, Waiter.isBlocked, hcalls] at hreturned
    · exact ⟨hover, hissued⟩

/-- By induction on the work that is left: once all copies have ended, the waiter's own steps end the wait. -/
theorem Sound.returns (h : Sound item jobs start chain) (hitem : item.cursor.isGroupStart = true)
    (hlanded : chain.Landed jobs) (hmine : chain.Waits number) : ∃ list,
      Relation.ReflTransGen (fun list list' => list.stepWaiter? number = some list') chain.shared.events list ∧
        list.isBlocked number = false := by
  induction hwork : chain.shared.events.work using Nat.strongRecOn generalizing chain with
  | ind work ih =>
    obtain ⟨-, -, ⟨top, gone, inner, linked, hwaits⟩ | ⟨-, waiter, hwaiter, hcalls⟩⟩ := h.position.waits hitem hmine
    · obtain ⟨waiter, -, -, list, hstep⟩ := hwaits.awake (h.tasks.not_pending h.matched hlanded.1 hlanded.2)
      obtain ⟨last, hrest, hreturned⟩ := ih list.work (hwork ▸ WaitList.work_stepWaiter? hstep)
        (h.waited hitem hmine hstep) hlanded hmine rfl
      exact ⟨last, .head hstep hrest, hreturned⟩
    · exact ⟨_, .refl, by simp [WaitList.isBlocked, hwaiter, Waiter.isBlocked, hcalls]⟩

theorem Sound.promised (h : Sound item jobs start chain) (hitem : item.cursor.isGroupStart = true) :
    Promised jobs start chain where
  faultless fault hfault := by
    have hdone := h.position.over_of_not_asking hitem (by simp [hfault])
    simp [hfault] at hdone
  gone hreturned := by
    obtain ⟨hover, hissued⟩ := h.position.isOver hitem hreturned
    have hmost := h.matched.issued
    have hleast := h.matched.made
    refine ⟨by omega, h.matched.events, fun event hevent => ?_⟩
    rw [← EventTable.isSome_links?, hover.gone event hevent]
    rfl
  delivered hreturned := by
    obtain ⟨hover, hissued⟩ := h.position.isOver hitem hreturned
    refine h.tasks.delivered h.matched hissued fun event hevent ⟨entry, hentry, _⟩ => ?_
    cases (EventTable.links?_eq_none.1 (hover.gone event hevent)).symm.trans hentry
  live hreturned := (h.position.isOver hitem hreturned).1.live
  awake hlanded number waiter hmine hwaiter hblocked := by
    obtain ⟨-, -, ⟨top, gone, inner, linked, hwaits⟩ | ⟨-, waiter', hwaiter', hcalls⟩⟩ := h.position.waits hitem hmine
    · obtain ⟨waiter', hwaiter', hawake, -⟩ := hwaits.awake (h.tasks.not_pending h.matched hlanded.1 hlanded.2)
      cases hwaiter.symm.trans hwaiter'
      exact hawake
    · cases hwaiter.symm.trans hwaiter'
      simp [Waiter.isBlocked, hcalls] at hblocked
  returns hlanded number hmine := h.returns hitem hlanded hmine

/-- However the copies, the issuing and the wait are interleaved: when the wait returns, the bytes of all
copies are at their places and all their events are gone; and once all copies have ended, the wait goes on
to its end. The other work-items of the group start no copy, and keep the event they have. -/
theorem chained_copies (hitem : item.cursor.isGroupStart = true) (hwellFormed : start.events.table.WellFormed)
    (hvalid : CopyJob.AllValid (first :: more) start.memory.heap)
    (run : Relation.ReflTransGen (Next command (first :: more))
      { shared := start, process := item.chainCopies first more } chain) :
    Promised (first :: more) start chain ∧
      ∀ other : WorkItem, other.cursor.isGroupStart = false → ∀ job event, other.groupCopy job event = .done event :=
  ⟨((sound_fresh hwellFormed hvalid).run hitem hvalid run).promised hitem,
    fun _ hother => WorkItem.groupCopy_other hother⟩

end Runs

/-! ## Two copies -/

/-- Two elements of two bytes each, copied as they lie. -/
def twoWords : CopyJob := .contiguous ⟨0, 8⟩ ⟨0, 0⟩ 2 2

/-- Two bytes that lie three apart, gathered. -/
def twoBytes : CopyJob := .strided ⟨0, 12⟩ ⟨0, 4⟩ 2 1 3 true

/-- One block, of which the first half is copied to the second. -/
def oneBlock : Shared :=
  { memory := {
      capacity := 16
      available := 0
      heap := { blocks := #[#[1, 2, 3, 4, 5, 6, 7, 8, 0, 0, 0, 0, 0, 0, 0, 0]] } }
    localMemory := 0
    sink := .recorder }

def firstItem : WorkItem where
  cursor := IndexSpace.first { axes := [{ globalSize := 4, localSize := 2, offset := 0 }] }
  args := []
  localMemory := { start := ⟨0, 0⟩, size := 0 }

def twoCopies : CopyChain :=
  { shared := oneBlock, process := firstItem.chainCopies twoWords [twoBytes] }

/-- The first copy is over before the second event is made, the second one only when the waiter sleeps. -/
def untilLanded : List Turn :=
  [.item, .item, .copy 0, .copy 0, .item, .item, .item, .waiter 0, .waiter 0, .copy 1, .copy 1]

def twoLanded : CopyChain :=
  (twoCopies.play? ⟨0⟩ untilLanded).get (by decide +kernel)

def twoWaited : CopyChain :=
  (twoCopies.play? ⟨0⟩ (untilLanded ++ [.waiter 0, .waiter 0])).get (by decide +kernel)

theorem chained_copies_two :
    (Promised [twoWords, twoBytes] oneBlock twoLanded ∧ twoLanded.Landed [twoWords, twoBytes] ∧
      twoLanded.Waits 0 ∧ twoLanded.shared.events.isBlocked 0 = true) ∧
    Promised [twoWords, twoBytes] oneBlock twoWaited ∧ twoWaited.Returned ∧ twoWaited.alone = true ∧
      twoWaited.heap.read ⟨0, 8⟩ 6 = #[1, 2, 3, 4, 5, 8] := by
  have hwords : twoWords.Valid oneBlock.memory.heap := .of_spans (by decide)
    (Heap.Backs.of_le_size (by decide)) (Heap.Backs.of_le_size (by decide)) (by decide)
  have hbytes : twoBytes.Valid oneBlock.memory.heap := .of_spans (by decide)
    (Heap.Backs.of_le_size (by decide)) (Heap.Backs.of_le_size (by decide)) (by decide)
  have hvalid : CopyJob.AllValid [twoWords, twoBytes] oneBlock.memory.heap :=
    .of_spans (by simp [hwords, hbytes]) (by decide)
  have hlanded : twoCopies.play? ⟨0⟩ untilLanded = some twoLanded := (Option.some_get _).symm
  have hwaited : twoCopies.play? ⟨0⟩ (untilLanded ++ [.waiter 0, .waiter 0]) = some twoWaited :=
    (Option.some_get _).symm
  exact ⟨⟨(chained_copies (by decide) EventTable.wellFormed_empty hvalid (run_of_play? hlanded)).1,
      by decide +kernel, by decide +kernel, by decide +kernel⟩,
    (chained_copies (by decide) EventTable.wellFormed_empty hvalid (run_of_play? hwaited)).1,
    .inr ⟨0, by decide +kernel, by decide +kernel⟩, by decide +kernel, by decide +kernel⟩

end CopyChain

end ComputeCore
