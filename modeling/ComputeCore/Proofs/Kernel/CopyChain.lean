import Mathlib.Data.List.Nodup
import Mathlib.Logic.Relation
import ComputeCore.Kernel.Basic
import ComputeCore.Proofs.Event.Links
import ComputeCore.Proofs.Memory.Copies
import ComputeCore.Scheduling.Shared
/-!
# Chained copies

The first work-item of a group issues copies, the first one under no event and the others under the event
that this one answers, and waits for that event. Each copy runs on a thread of its own, and `CopyChain.Step`
lets these threads, the work-item and everybody else go on in any order. `CopyChain.Tasks` is what is so of
the copies at any time: the event of each is pending until the copy has ended, and from its first step on
its bytes are at their places.
-/

namespace ComputeCore

namespace CopyJob

/-- Neither copy writes what the other reads or writes. -/
def Apart (a b : CopyJob) : Prop :=
  ∀ address, (a.Writes address → ¬ b.Reads address ∧ ¬ b.Writes address) ∧
    (b.Writes address → ¬ a.Reads address)

/-- Some copy reads the byte. -/
def Read (jobs : List CopyJob) (address : Address) : Prop :=
  ∃ job ∈ jobs, job.Reads address

/-- Some copy reads or writes the byte. -/
def Touched (jobs : List CopyJob) (address : Address) : Prop :=
  ∃ job ∈ jobs, job.Reads address ∨ job.Writes address

/-- The copies can be carried out, and none of them minds the others. -/
structure AllValid (jobs : List CopyJob) (heap : Heap) : Prop where
  valid : ∀ job ∈ jobs, job.Valid heap
  apart : jobs.Pairwise Apart

/-- What the copies read is as it was at the start, and what they touch is still there. -/
structure Kept (jobs : List CopyJob) (start heap : Heap) : Prop where
  sources : start.Agrees (Read jobs) heap
  backed : ∀ address, Touched jobs address → (heap.byte? address).isSome = true

section Copies
variable {a b job : CopyJob} {jobs : List CopyJob} {start heap heap' : Heap} {address : Address}

theorem Apart.symm (h : a.Apart b) : b.Apart a := fun address =>
  ⟨fun hb => ⟨(h address).2 hb, fun ha => ((h address).1 ha).2 hb⟩, fun ha => ((h address).1 ha).1⟩

/-- It is enough that the ranges the copies write meet no others. -/
theorem AllValid.of_spans (hvalid : ∀ job ∈ jobs, job.Valid heap)
    (hapart : jobs.Pairwise fun a b => a.targetSpan.overlaps b.sourceSpan = false ∧
      a.targetSpan.overlaps b.targetSpan = false ∧ b.targetSpan.overlaps a.sourceSpan = false) :
    AllValid jobs heap where
  valid := hvalid
  apart := hapart.imp fun ⟨hread, hwritten, hreads⟩ _ =>
    ⟨fun ha => ⟨fun hb => Region.not_holds_of_overlaps hread ha.holds hb.holds,
        fun hb => Region.not_holds_of_overlaps hwritten ha.holds hb.holds⟩,
      fun hb ha => Region.not_holds_of_overlaps hreads hb.holds ha.holds⟩

theorem AllValid.apart_of_ne (h : AllValid jobs heap) {m n : Nat} (hne : m ≠ n) (ha : jobs[m]? = some a)
    (hb : jobs[n]? = some b) : a.Apart b := by
  have hpairwise := List.pairwise_iff_getElem.1 h.apart
  obtain ⟨hm, rfl⟩ := List.getElem?_eq_some_iff.1 ha
  obtain ⟨hn, rfl⟩ := List.getElem?_eq_some_iff.1 hb
  rcases Nat.lt_or_gt_of_ne hne with hlt | hgt
  · exact hpairwise m n hm hn hlt
  · exact (hpairwise n m hn hm hgt).symm

/-- No copy writes what one of them reads. -/
theorem AllValid.not_read (h : AllValid jobs heap) (hjob : job ∈ jobs) (hwrites : job.Writes address) :
    ¬ Read jobs address := by
  rintro ⟨other, hother, hreads⟩
  obtain ⟨m, hm⟩ := List.mem_iff_getElem?.1 hjob
  obtain ⟨n, hn⟩ := List.mem_iff_getElem?.1 hother
  by_cases heq : m = n
  · subst heq
    obtain rfl := Option.some.inj (hm.symm.trans hn)
    exact (h.valid job hjob).apart address hwrites hreads
  · exact ((h.apart_of_ne heq hm hn address).1 hwrites).1 hreads

theorem AllValid.kept (h : AllValid jobs heap) : Kept jobs heap heap where
  sources := .refl _ _
  backed := by
    rintro address ⟨job, hjob, htouched⟩
    exact (h.valid job hjob).backed address htouched

theorem AllValid.valid_of_kept (h : AllValid jobs start) (hkept : Kept jobs start heap) (hjob : job ∈ jobs) :
    job.Valid heap where
  sized := (h.valid job hjob).sized
  backed address htouched := hkept.backed address ⟨job, hjob, htouched⟩
  apart := (h.valid job hjob).apart

theorem Delivered.of_bytes {before after after' : Heap} (h : job.Delivered before after)
    (hbytes : ∀ address, job.Writes address → after'.byte? address = after.byte? address) :
    job.Delivered before after' := fun n hn =>
  (Heap.read_congr fun address haddress => hbytes address ⟨n, hn, haddress⟩).trans (h n hn)

theorem Delivered.of_sources (h : job.Delivered heap heap')
    (hsources : ∀ address, job.Reads address → heap.byte? address = start.byte? address) :
    job.Delivered start heap' := fun n hn =>
  (h n hn).trans (Heap.read_congr fun address haddress => hsources address ⟨n, hn, haddress⟩)

theorem Kept.of_agrees (h : Kept jobs start heap) (hagrees : heap.Agrees (Touched jobs) heap') :
    Kept jobs start heap' where
  sources address hread := by
    obtain ⟨job, hjob, hreads⟩ := hread
    exact (hagrees address ⟨job, hjob, .inl hreads⟩).trans (h.sources address ⟨job, hjob, hreads⟩)
  backed address htouched := by
    rw [hagrees address htouched]
    exact h.backed address htouched

/-- A copy that is carried out leaves the others what they need. -/
theorem Kept.delivered (h : Kept jobs start heap) (hvalid : AllValid jobs start) (hjob : job ∈ jobs)
    (hdelivered : job.Delivered heap heap')
    (hothers : ∀ address, ¬ job.Writes address → heap'.byte? address = heap.byte? address) :
    job.Delivered start heap' ∧ Kept jobs start heap' := by
  refine ⟨hdelivered.of_sources fun address hreads => h.sources address ⟨job, hjob, hreads⟩,
    fun address hread => ?_, fun address htouched => ?_⟩
  · rw [hothers address fun hwrites => hvalid.not_read hjob hwrites hread]
    exact h.sources address hread
  · by_cases hwrites : job.Writes address
    · refine hdelivered.backed (fun other hreads => ?_) hwrites
      exact h.backed other ⟨job, hjob, .inl hreads⟩
    · rw [hothers address hwrites]
      exact h.backed address htouched

end Copies

end CopyJob

/-! ## The work-item -/

namespace WorkItem

/-- Issues copies under an event. -/
def issueUnder (item : WorkItem) (event : Option Event) : List CopyJob → Process Unit
  | [] => .done ()
  | job :: jobs => (item.groupCopy job event).bind fun _ => item.issueUnder event jobs

/-- Issues copies under an event, and then waits for it. -/
def finishChain (item : WorkItem) (event : Option Event) (jobs : List CopyJob) : Process Unit :=
  (item.issueUnder event jobs).bind fun _ => Process.waitForAll [event]

/-- Issues a copy under no event and others under the event that it answers, and then waits for that. -/
def chainCopies (item : WorkItem) (first : CopyJob) (others : List CopyJob) : Process Unit :=
  (item.groupCopy first none).bind fun event => item.finishChain event others

section Processes
variable {item : WorkItem} {event : Event} {job : CopyJob} {jobs : List CopyJob}

/-- A work-item that is not the first of its group starts no copy, and goes on with the event it has. -/
theorem groupCopy_other (h : item.cursor.isGroupStart = false) (job : CopyJob) (event : Option Event) :
    item.groupCopy job event = .done event := by
  simp only [groupCopy, h]
  rfl

theorem chainCopies_eq (h : item.cursor.isGroupStart = true) : item.chainCopies job jobs =
    .ask .newEvent fun (signal : Event) =>
      .ask (.startCopy job signal) fun _ => item.finishChain (some signal) jobs := by
  simp only [chainCopies, groupCopy, h, if_true]
  rfl

theorem finishChain_cons (h : item.cursor.isGroupStart = true) :
    item.finishChain (some event) (job :: jobs) = .ask (.newChildEvent event) fun (signal : Event) =>
      .ask (.startCopy job signal) fun _ => item.finishChain (some event) jobs := by
  simp only [finishChain, issueUnder, groupCopy, h, if_true]
  rfl

theorem finishChain_nil : item.finishChain (some event) [] =
    .ask (.enterWait event) fun waiter => .ask (.leaveWait waiter) fun _ => .done () :=
  rfl

/-- It asks for something, and this is not the end of a wait yet. -/
theorem finishChain_asks (h : item.cursor.isGroupStart = true) (event : Event) (jobs : List CopyJob) :
    ∃ request next, item.finishChain (some event) jobs = .ask request next ∧
      ∀ number, request ≠ .leaveWait number := by
  cases jobs with
  | nil => exact ⟨_, _, finishChain_nil, by simp⟩
  | cons job jobs => exact ⟨_, _, finishChain_cons h, by simp⟩

end Processes

end WorkItem

/-- The event that a request makes. -/
def Request.made : (request : Request) → request.Reply → List Event
  | .newEvent, event => [event]
  | .newChildEvent _, event => [event]
  | _, _ => []

/-! ## Everybody's steps -/

/-- A work-item that issues copies and waits for them, and what it shares with others. -/
structure CopyChain where
  shared : Shared
  /-- What the work-item has still to do. -/
  process : Process Unit
  /-- The events it has made. -/
  events : List Event := []
  /-- The numbers of the copies it has started. -/
  copies : List Nat := []
  /-- Nobody else has used the wait list. -/
  alone : Bool := true

namespace CopyChain

def table (chain : CopyChain) : EventTable :=
  chain.shared.events.table

def heap (chain : CopyChain) : Heap :=
  chain.shared.memory.heap

/-- The number of the waiter as which the work-item waits. -/
def waiter? (chain : CopyChain) : Option Nat :=
  match chain.process with
  | .ask (.leaveWait number) _ => some number
  | _ => none

/-- The work-item waits, as this waiter. -/
def Waits (chain : CopyChain) (number : Nat) : Prop :=
  chain.waiter? = some number

instance (chain : CopyChain) (number : Nat) : Decidable (chain.Waits number) :=
  inferInstanceAs (Decidable (_ = _))

theorem waits_iff {chain : CopyChain} {number : Nat} :
    chain.Waits number ↔ ∃ next, chain.process = .ask (.leaveWait number) next := by
  unfold Waits waiter?
  constructor
  · intro h
    split at h
    · next after hprocess =>
      cases h
      exact ⟨after, hprocess⟩
    · cases h
  · rintro ⟨next, hprocess⟩
    rw [hprocess]

/-- The number of the copy that a request starts. -/
def starts (chain : CopyChain) : Request → List Nat
  | .startCopy _ _ => [chain.shared.copies.size]
  | _ => []

/-- One step of the work-item, of one of the copies' threads, or of somebody else, who leaves alone what is
the work-item's: its events, its wait, its copies and the bytes these are about. -/
inductive Step (command : CommandId) (jobs : List CopyJob) (chain : CopyChain) : CopyChain → Prop
  | ask {request : Request} {next : request.Reply → Process Unit} {reply : request.Reply} {shared : Shared}
      (here : chain.process = .ask request next)
      (answered : chain.shared.perform command request = some (.ok (reply, shared))) :
      Step command jobs chain { chain with
        shared
        process := next reply
        events := chain.events ++ request.made reply
        copies := chain.copies ++ chain.starts request }
  | fault {request : Request} {next : request.Reply → Process Unit} {fault : Fault}
      (here : chain.process = .ask request next)
      (faulted : chain.shared.perform command request = some (.error fault)) :
      Step command jobs chain { chain with process := .fault fault }
  | copy {shared : Shared} (number : Nat) (mine : number ∈ chain.copies)
      (step : chain.shared.stepCopy? number = some shared) :
      Step command jobs chain { chain with shared }
  | wait {events : WaitList} (number : Nat) (mine : chain.Waits number)
      (step : chain.shared.events.stepWaiter? number = some events) :
      Step command jobs chain { chain with shared := { chain.shared with events } }
  /-- Somebody else does something to the wait list. -/
  | others (op : EventOp) (leaves : ∀ event ∈ chain.events, chain.shared.events.Leaves event op)
      (elsewhere : ∀ number, chain.Waits number → op ≠ .stepWaiter number) :
      Step command jobs chain { chain with
        shared := { chain.shared with events := chain.shared.events.apply op }
        alone := false }
  /-- Somebody else does anything else. -/
  | aside (shared : Shared) (events : shared.events = chain.shared.events)
      (copies : ∀ number ∈ chain.copies, shared.copies[number]? = chain.shared.copies[number]?)
      (bytes : chain.heap.Agrees (CopyJob.Touched jobs) shared.memory.heap) :
      Step command jobs chain { chain with shared }

/-- A step after which there are still no more slots for events than numbers for them. -/
def Next (command : CommandId) (jobs : List CopyJob) (chain chain' : CopyChain) : Prop :=
  Step command jobs chain chain' ∧ chain'.table.Numbered

/-- The wait has returned. -/
def Returned (chain : CopyChain) : Prop :=
  chain.process = .done () ∨ ∃ number, chain.Waits number ∧ chain.shared.events.isBlocked number = false

/-- All copies have been started, and their threads have ended. -/
def Landed (jobs : List CopyJob) (chain : CopyChain) : Prop :=
  chain.copies.length = jobs.length ∧
    ∀ number ∈ chain.copies, chain.shared.copies[number]?.map (·.stage) = some .ended

instance (jobs : List CopyJob) (chain : CopyChain) : Decidable (chain.Landed jobs) :=
  inferInstanceAs (Decidable (_ ∧ _))

/-! ## Playing a run -/

/-- Whose turn it is. -/
inductive Turn where
  | item
  | copy (number : Nat)
  | waiter (number : Nat)

/-- A step of the work-item, of a copy or of the waiter, if it can take one. -/
def turn? (command : CommandId) (chain : CopyChain) : Turn → Option CopyChain
  | .item =>
    match chain.process with
    | .ask request next =>
      match chain.shared.perform command request with
      | some (.ok (reply, shared)) => some { chain with
        shared
        process := next reply
        events := chain.events ++ request.made reply
        copies := chain.copies ++ chain.starts request }
      | some (.error fault) => some { chain with process := .fault fault }
      | none => none
    | _ => none
  | .copy number =>
    if number ∈ chain.copies then (chain.shared.stepCopy? number).map fun shared => { chain with shared }
    else none
  | .waiter number =>
    if chain.Waits number then
      (chain.shared.events.stepWaiter? number).map fun events =>
        { chain with shared := { chain.shared with events } }
    else none

/-- These turns, one after the other, if they can all be taken. -/
def play? (command : CommandId) : CopyChain → List Turn → Option CopyChain
  | chain, [] => some chain
  | chain, turn :: turns =>
    match chain.turn? command turn with
    | some chain => if chain.table.Numbered then chain.play? command turns else none
    | none => none

section Playing
variable {command : CommandId} {jobs : List CopyJob} {chain chain' : CopyChain}

theorem step_of_turn? {turn : Turn} (h : chain.turn? command turn = some chain') :
    Step command jobs chain chain' := by
  cases turn with
  | item =>
    simp only [turn?] at h
    split at h
    · next request next here =>
      split at h
      · next answered =>
        cases h
        exact .ask here answered
      · next faulted =>
        cases h
        exact .fault here faulted
      · cases h
    · cases h
  | copy number =>
    simp only [turn?] at h
    split at h
    · next mine =>
      obtain ⟨shared, hstep, rfl⟩ := Option.map_eq_some_iff.1 h
      exact .copy number mine hstep
    · cases h
  | waiter number =>
    simp only [turn?] at h
    split at h
    · next mine =>
      obtain ⟨events, hstep, rfl⟩ := Option.map_eq_some_iff.1 h
      exact .wait number mine hstep
    · cases h

theorem run_of_play? {turns : List Turn} (h : chain.play? command turns = some chain') :
    Relation.ReflTransGen (Next command jobs) chain chain' := by
  induction turns generalizing chain with
  | nil =>
    cases h
    exact .refl
  | cons turn turns ih =>
    simp only [play?] at h
    split at h
    · next after hturn =>
      split at h
      · next hroom => exact .head ⟨step_of_turn? hturn, hroom⟩ (ih h)
      · cases h
    · cases h

end Playing

/-! ## The copies -/

/-- The copy of an event has been started. -/
def Carried (start : Heap) (shared : Shared) (job : CopyJob) (event : Event) (number : Nat) : Prop :=
  ∃ stage, shared.copies[number]? = some { job, signal := event, stage } ∧
    (shared.events.table.Pending event ↔ stage ≠ .ended) ∧
    (stage ≠ .copying → job.Delivered start shared.memory.heap)

/-- Each event is that of one of the copies, and it is pending until the copy has ended. -/
def Tasks (start : Heap) (shared : Shared) (jobs : List CopyJob) (events : List Event)
    (copies : List Nat) : Prop :=
  ∀ (n : Nat) job event, jobs[n]? = some job → events[n]? = some event →
    match copies[n]? with
    | none => shared.events.table.Pending event
    | some number => Carried start shared job event number

/-- Each copy has an event and a number of its own. -/
structure Matched (jobs : List CopyJob) (events : List Event) (copies : List Nat) : Prop where
  issued : copies.length ≤ events.length
  made : events.length ≤ jobs.length
  events : events.Nodup
  copies : copies.Nodup

section Tasks
variable {start : Heap} {shared shared' : Shared} {jobs : List CopyJob} {events : List Event}
  {copies : List Nat} {job : CopyJob} {signal : Event}

theorem Carried.frame {number : Nat} (h : Carried start shared job signal number)
    (hcopies : shared'.copies[number]? = shared.copies[number]?)
    (hpending : shared'.events.table.Pending signal ↔ shared.events.table.Pending signal)
    (hbytes : ∀ address, job.Writes address →
      shared'.memory.heap.byte? address = shared.memory.heap.byte? address) :
    Carried start shared' job signal number := by
  obtain ⟨stage, htask, hstage, hdelivered⟩ := h
  exact ⟨stage, hcopies.trans htask, hpending.trans hstage, fun hmoved => (hdelivered hmoved).of_bytes hbytes⟩

theorem Tasks.frame (h : Tasks start shared jobs events copies)
    (hcopies : ∀ number ∈ copies, shared'.copies[number]? = shared.copies[number]?)
    (hpending : ∀ event ∈ events, shared'.events.table.Pending event ↔ shared.events.table.Pending event)
    (hbytes : ∀ job ∈ jobs, ∀ address, job.Writes address →
      shared'.memory.heap.byte? address = shared.memory.heap.byte? address) :
    Tasks start shared' jobs events copies := by
  intro n job event hjob hevent
  have hold := h n job event hjob hevent
  have hsame := hpending event (List.mem_of_getElem? hevent)
  cases hcopy : copies[n]? with
  | none => simpa only [hcopy, hsame] using hold
  | some number =>
    simp only [hcopy] at hold ⊢
    exact hold.frame (hcopies number (List.mem_of_getElem? hcopy)) hsame
      (hbytes job (List.mem_of_getElem? hjob))

theorem Matched.concat (h : Matched jobs events copies) (hnew : signal ∉ events)
    (hcounted : events.length = copies.length) (hmore : copies.length < jobs.length) :
    Matched jobs (events ++ [signal]) copies where
  issued := by
    rw [List.length_append]
    exact Nat.le_add_right_of_le h.issued
  made := by
    rw [List.length_append, hcounted]
    exact hmore
  events := List.nodup_append.2 ⟨h.events, List.nodup_singleton _, fun event hevent other hother heq =>
    hnew (List.mem_singleton.1 hother ▸ heq ▸ hevent)⟩
  copies := h.copies

/-- A new event is that of a copy that is still to be started. -/
theorem Tasks.made (h : Tasks start shared jobs events copies) {list' : WaitList} {parent : Option Event}
    (hmade : shared.events.Made list' signal parent) (hnew : signal ∉ events)
    (hlength : copies.length = events.length) :
    Tasks start { shared with events := list' } jobs (events ++ [signal]) copies := by
  have hframe : Tasks start { shared with events := list' } jobs events copies := by
    refine h.frame (fun _ _ => rfl) (fun event hevent => ?_) fun _ _ _ _ => rfl
    exact (hmade.pending event).trans (or_iff_right fun heq => hnew (heq ▸ hevent))
  intro n job event hjob hevent
  rcases Nat.lt_or_ge n events.length with hlt | hge
  · exact hframe n job event hjob (by rwa [List.getElem?_append_left hlt] at hevent)
  · rw [List.getElem?_append_right hge, List.getElem?_singleton] at hevent
    obtain ⟨-, rfl⟩ := by simpa using hevent
    rw [List.getElem?_eq_none (hlength ▸ hge)]
    exact (hmade.pending _).2 (.inl rfl)

theorem Tasks.started (h : Tasks start shared jobs events copies)
    (hjob : jobs[copies.length]? = some job) (hsignal : events[copies.length]? = some signal)
    (hlength : events.length = copies.length + 1) :
    Tasks start { shared with copies := shared.copies.push { job, signal } } jobs events
      (copies ++ [shared.copies.size]) := by
  intro n job' event hjob' hevent
  have hold := h n job' event hjob' hevent
  rcases Nat.lt_trichotomy n copies.length with hlt | rfl | hgt
  · rw [List.getElem?_append_left hlt]
    rw [List.getElem?_eq_getElem hlt] at hold ⊢
    obtain ⟨stage, htask, hrest⟩ := hold
    have hnumber := (Array.getElem?_eq_some_iff.1 htask).1
    refine ⟨stage, ?_, hrest⟩
    rwa [Array.getElem?_push_lt hnumber, ← Array.getElem?_eq_getElem]
  · obtain rfl := Option.some.inj (hjob.symm.trans hjob')
    obtain rfl := Option.some.inj (hsignal.symm.trans hevent)
    rw [List.getElem?_eq_none (Nat.le_refl _)] at hold
    simp only [List.getElem?_concat_length]
    exact ⟨.copying, by simp, iff_of_true hold (by simp), fun hmoved => absurd rfl hmoved⟩
  · have := (List.getElem?_eq_some_iff.1 hevent).1
    omega

/-- What becomes of the copies when one of them, number `n`, takes a step. -/
theorem Tasks.moved {n number : Nat} (h : Tasks start shared jobs events copies) (hnodup : copies.Nodup)
    (hn : copies[n]? = some number)
    (hself : ∀ job signal, jobs[n]? = some job → events[n]? = some signal →
      Carried start shared' job signal number)
    (hcopies : ∀ other, other ≠ number → shared'.copies[other]? = shared.copies[other]?)
    (hpending : ∀ m event, m ≠ n → events[m]? = some event →
      (shared'.events.table.Pending event ↔ shared.events.table.Pending event))
    (hbytes : ∀ m job, m ≠ n → jobs[m]? = some job → ∀ address, job.Writes address →
      shared'.memory.heap.byte? address = shared.memory.heap.byte? address) :
    Tasks start shared' jobs events copies := by
  intro m job event hjob hevent
  by_cases heq : m = n
  · subst heq
    simpa only [hn] using hself job event hjob hevent
  have hold := h m job event hjob hevent
  have hsame := hpending m event heq hevent
  cases hcopy : copies[m]? with
  | none => simpa only [hcopy, hsame] using hold
  | some other =>
    simp only [hcopy] at hold ⊢
    have hne : other ≠ number := by
      rintro rfl
      exact heq ((List.getElem?_inj (List.getElem?_eq_some_iff.1 hcopy).1 hnodup).1 (hcopy.trans hn.symm))
    exact hold.frame (hcopies other hne) hsame (hbytes m job heq hjob)

/-- A step of a copy that has been started: it moves its bytes, or completes its event. -/
theorem Carried.stepCopy? {number : Nat} (h : Carried start shared job signal number)
    (hvalid : job.Valid shared.memory.heap) (hstep : shared.stepCopy? number = some shared') :
    shared.events.table.Pending signal ∧
      ((∃ heap', job.Delivered shared.memory.heap heap' ∧
        (∀ address, ¬ job.Writes address → heap'.byte? address = shared.memory.heap.byte? address) ∧
        shared' = { shared with
          memory := { shared.memory with heap := heap' }
          copies := shared.copies.setIfInBounds number { job, signal, stage := .signalling } }) ∨
      (job.Delivered start shared.memory.heap ∧
        shared' = { shared with
          events := shared.events.setCompleted signal true
          copies := shared.copies.setIfInBounds number { job, signal, stage := .ended } })) := by
  obtain ⟨stage, htask, hstage, hdelivered⟩ := h
  simp only [Shared.stepCopy?, htask, Option.bind_eq_bind, Option.bind_some] at hstep
  cases stage with
  | copying =>
    obtain ⟨heap', hrun, hmoved, hothers⟩ := CopyJob.run_copied hvalid
    simp only [hrun, Option.some.injEq] at hstep
    exact ⟨hstage.2 (by simp), .inl ⟨heap', hmoved, hothers, hstep.symm⟩⟩
  | signalling =>
    simp only [Option.some.injEq] at hstep
    exact ⟨hstage.2 (by simp), .inr ⟨hdelivered (by simp), hstep.symm⟩⟩
  | ended => cases hstep

theorem Tasks.carried (h : Tasks start shared jobs events copies) (hmatched : Matched jobs events copies)
    {number : Nat} (hmine : number ∈ copies) : ∃ (n : Nat) (job : CopyJob) (signal : Event),
      copies[n]? = some number ∧ jobs[n]? = some job ∧ events[n]? = some signal ∧
        Carried start shared job signal number := by
  obtain ⟨n, hn⟩ := List.mem_iff_getElem?.1 hmine
  have hlt := (List.getElem?_eq_some_iff.1 hn).1
  have hissued := hmatched.issued
  have hmade := hmatched.made
  have hjob : jobs[n]? = some jobs[n] := List.getElem?_eq_getElem (by omega)
  have hsignal : events[n]? = some events[n] := List.getElem?_eq_getElem (by omega)
  have hcarried := h n _ _ hjob hsignal
  simp only [hn] at hcarried
  exact ⟨n, _, _, hn, hjob, hsignal, hcarried⟩

theorem Carried.lt_size {number : Nat} (h : Carried start shared job signal number) :
    number < shared.copies.size := by
  obtain ⟨stage, htask, -⟩ := h
  exact (Array.getElem?_eq_some_iff.1 htask).1

/-- A step of one of the copies: if it completes an event, this is one that was pending. -/
theorem Tasks.stepCopy? {number : Nat} (h : Tasks start shared jobs events copies)
    (hvalid : CopyJob.AllValid jobs start) (hkept : CopyJob.Kept jobs start shared.memory.heap)
    (hmatched : Matched jobs events copies) (hmine : number ∈ copies)
    (hstep : shared.stepCopy? number = some shared') :
    Tasks start shared' jobs events copies ∧ CopyJob.Kept jobs start shared'.memory.heap ∧
      (shared'.events = shared.events ∨ ∃ signal ∈ events, shared.events.table.Pending signal ∧
        shared'.events = shared.events.setCompleted signal true) := by
  obtain ⟨n, job, signal, hn, hjob, hsignal, hcarried⟩ := h.carried hmatched hmine
  have hmem := List.mem_of_getElem? hjob
  have hsame : ∀ job' signal', jobs[n]? = some job' → events[n]? = some signal' →
      job' = job ∧ signal' = signal := fun job' signal' hjob' hsignal' =>
    ⟨Option.some.inj (hjob'.symm.trans hjob), Option.some.inj (hsignal'.symm.trans hsignal)⟩
  obtain ⟨hpending, ⟨heap', hmoved, hothers, rfl⟩ | ⟨hdelivered, rfl⟩⟩ :=
    hcarried.stepCopy? (hvalid.valid_of_kept hkept hmem) hstep
  · obtain ⟨hdelivered, hkept'⟩ := hkept.delivered hvalid hmem hmoved hothers
    refine ⟨h.moved hmatched.copies hn (fun job' signal' hjob' hsignal' => ?_)
      (fun other hne => Array.getElem?_setIfInBounds_ne (Ne.symm hne)) (fun _ _ _ _ => Iff.rfl)
      fun m job' hne hjob' address hwrites => ?_, hkept', .inl rfl⟩
    · obtain ⟨rfl, rfl⟩ := hsame job' signal' hjob' hsignal'
      exact ⟨.signalling, Array.getElem?_setIfInBounds_self_of_lt hcarried.lt_size,
        iff_of_true hpending (by simp), fun _ => hdelivered⟩
    · exact hothers address ((hvalid.apart_of_ne hne hjob' hjob address).1 hwrites).2
  · refine ⟨h.moved hmatched.copies hn (fun job' signal' hjob' hsignal' => ?_)
      (fun other hne => Array.getElem?_setIfInBounds_ne (Ne.symm hne)) (fun m event hne hevent => ?_)
      fun _ _ _ _ _ _ => rfl, hkept, .inr ⟨signal, List.mem_of_getElem? hsignal, hpending, rfl⟩⟩
    · obtain ⟨rfl, rfl⟩ := hsame job' signal' hjob' hsignal'
      exact ⟨.ended, Array.getElem?_setIfInBounds_self_of_lt hcarried.lt_size,
        iff_of_false (fun h => (WaitList.pending_setCompleted.1 h).1 rfl) (by simp), fun _ => hdelivered⟩
    · refine WaitList.pending_setCompleted.trans (and_iff_right ?_)
      rintro rfl
      exact hne ((List.getElem?_inj (List.getElem?_eq_some_iff.1 hevent).1 hmatched.events).1
        (hevent.trans hsignal.symm))

/-- Once all copies have been started and no event is pending, the bytes are at their places. -/
theorem Tasks.delivered (h : Tasks start shared jobs events copies) (hmatched : Matched jobs events copies)
    (hissued : copies.length = jobs.length)
    (hgone : ∀ event ∈ events, ¬ shared.events.table.Pending event) :
    ∀ job ∈ jobs, job.Delivered start shared.memory.heap := by
  intro job hjob
  obtain ⟨n, hn⟩ := List.mem_iff_getElem?.1 hjob
  have hlt : n < copies.length := hissued ▸ (List.getElem?_eq_some_iff.1 hn).1
  obtain ⟨m, job', signal, hm, hjob', hsignal, stage, -, hpending, hdelivered⟩ :=
    h.carried hmatched (List.getElem_mem hlt)
  obtain rfl : n = m := (List.getElem?_inj hlt hmatched.copies).1 ((List.getElem?_eq_getElem hlt).trans hm.symm)
  obtain rfl := Option.some.inj (hn.symm.trans hjob')
  have hnot := hgone signal (List.mem_of_getElem? hsignal)
  refine hdelivered ?_
  rintro rfl
  exact hnot (hpending.2 (by simp))

/-- Once all copies have ended, no event is pending. -/
theorem Tasks.not_pending (h : Tasks start shared jobs events copies) (hmatched : Matched jobs events copies)
    (hissued : copies.length = jobs.length)
    (hended : ∀ number ∈ copies, shared.copies[number]?.map (·.stage) = some .ended) :
    ∀ event ∈ events, ¬ shared.events.table.Pending event := by
  intro event hevent
  obtain ⟨n, hn⟩ := List.mem_iff_getElem?.1 hevent
  have hlt : n < copies.length := by
    have := (List.getElem?_eq_some_iff.1 hn).1
    have := hmatched.made
    omega
  have hmine := List.getElem_mem hlt
  obtain ⟨m, job, signal, hm, -, hsignal, stage, htask, hpending, -⟩ := h.carried hmatched hmine
  obtain rfl : n = m := (List.getElem?_inj hlt hmatched.copies).1 ((List.getElem?_eq_getElem hlt).trans hm.symm)
  obtain rfl := Option.some.inj (hn.symm.trans hsignal)
  have hstage := hended _ hmine
  rw [htask] at hstage
  exact fun h => hpending.1 h (Option.some.inj hstage)

end Tasks

end CopyChain

end ComputeCore
