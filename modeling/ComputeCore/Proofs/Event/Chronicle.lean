import Mathlib.Data.List.Induction
import ComputeCore.Proofs.Event.Operations
/-!
# Chronicles of a wait list

Handles are reused, so what happened to an event cannot be told from the table. A chronicle numbers
the events in the order in which they are made, and keeps which event each one was linked under,
which event came last into each slot, and which events were set completed.

`Chronicle.Sound` relates this to the table along every run without removals. Its heart is `linked`:
an event that is still there hangs under the event it was linked under, or some thread has taken it
out from there and waits for it.
-/

namespace ComputeCore

/-- A wait list together with what has happened to its events. -/
structure Chronicle where
  list : WaitList := {}
  /-- For each event, in the order in which they were made, the one it was linked under. -/
  parents : List (Option Nat) := []
  /-- The event that came last into a slot. -/
  tenant : UInt32 → Nat := fun _ => 0
  /-- The events that were set completed. -/
  completed : List Nat := []

/-- An event was linked under another one, directly or through others. -/
inductive Under (parents : List (Option Nat)) (top : Nat) : Nat → Prop
  | direct {number} : parents[number]? = some (some top) → Under parents top number
  | through {middle number} : Under parents top middle → parents[number]? = some (some middle) →
      Under parents top number

theorem Under.trans {parents : List (Option Nat)} {top middle number : Nat}
    (h : Under parents top middle) (h' : Under parents middle number) : Under parents top number := by
  induction h' with
  | direct hparent => exact .through h hparent
  | through _ hparent ih => exact .through ih hparent

theorem Under.lt_length {parents : List (Option Nat)} {top number : Nat} (h : Under parents top number) :
    number < parents.length := by
  cases h with
  | direct hparent => exact (List.getElem?_eq_some_iff.1 hparent).1
  | through _ hparent => exact (List.getElem?_eq_some_iff.1 hparent).1

namespace Chronicle

/-! ## Keeping a chronicle -/

/-- The chronicle after an operation that makes an event. -/
def enroll (chronicle : Chronicle) (parent : Option Nat) (op : EventOp) : Chronicle where
  list := chronicle.list.apply op
  parents := chronicle.parents ++ [parent]
  tenant index :=
    if index = chronicle.list.table.insert.1.index then chronicle.parents.length
    else chronicle.tenant index
  completed := chronicle.completed

/-- The chronicle after an operation. -/
def record (chronicle : Chronicle) (op : EventOp) : Chronicle :=
  match op with
  | .newEvent => chronicle.enroll none op
  | .newChild parent =>
    if chronicle.list.table.knows parent then chronicle.enroll (some (chronicle.tenant parent.index)) op
    else chronicle
  | .setCompleted event value =>
    { chronicle with
      list := chronicle.list.apply op
      completed :=
        if value && chronicle.list.table.knows event then
          chronicle.tenant event.index :: chronicle.completed
        else chronicle.completed }
  | _ => { chronicle with list := chronicle.list.apply op }

/-- The chronicle after a run that starts from this one. -/
def recordAll (chronicle : Chronicle) (ops : List EventOp) : Chronicle :=
  ops.foldl record chronicle

/-- The chronicle of a run of a fresh wait list. -/
def of (ops : List EventOp) : Chronicle :=
  recordAll {} ops

/-- A handle names the event with this number. -/
def Names (chronicle : Chronicle) (event : Event) (number : Nat) : Prop :=
  chronicle.list.table.knows event = true ∧ chronicle.tenant event.index = number

/-- Some thread is inside a call for this handle. -/
def Held (chronicle : Chronicle) (event : Event) : Prop :=
  ∃ waiter ∈ chronicle.list.waiters, event ∈ waiter.calls

theorem list_record (chronicle : Chronicle) (op : EventOp) :
    (chronicle.record op).list = chronicle.list.apply op := by
  cases op with
  | newChild parent =>
    simp only [record]
    cases hknows : chronicle.list.table.knows parent with
    | true => rfl
    | false => simp [WaitList.apply_newChild_of_unknown hknows]
  | _ => rfl

theorem list_recordAll (chronicle : Chronicle) (ops : List EventOp) :
    (chronicle.recordAll ops).list = chronicle.list.applyAll ops := by
  induction ops generalizing chronicle with
  | nil => rfl
  | cons op ops ih =>
    refine (ih (chronicle.record op)).trans ?_
    rw [list_record]
    rfl

theorem list_of (ops : List EventOp) : (of ops).list = WaitList.after ops :=
  list_recordAll {} ops

theorem of_append (ops more : List EventOp) : of (ops ++ more) = (of ops).recordAll more :=
  List.foldl_append

/-- A chronicle is never rewritten. -/
theorem parents_record (chronicle : Chronicle) (op : EventOp) :
    chronicle.parents <+: (chronicle.record op).parents := by
  cases op with
  | newEvent => exact List.prefix_append _ _
  | newChild parent =>
    simp only [record]
    split
    · exact List.prefix_append _ _
    · exact List.prefix_refl _
  | _ => exact List.prefix_refl _

theorem parents_recordAll (chronicle : Chronicle) (ops : List EventOp) :
    chronicle.parents <+: (chronicle.recordAll ops).parents := by
  induction ops generalizing chronicle with
  | nil => exact List.prefix_refl _
  | cons op ops ih => exact (parents_record chronicle op).trans (ih (chronicle.record op))

/-! ## The invariant -/

/-- What is true of a chronicle as long as no event is removed. -/
structure Sound (chronicle : Chronicle) : Prop where
  wellFormed : chronicle.list.table.WellFormed
  known : ∀ event number, chronicle.Names event number → number < chronicle.parents.length
  /-- No event has two handles. -/
  unique : ∀ event event' number, chronicle.Names event number → chronicle.Names event' number →
    event = event'
  /-- The flag of an event is set only by setting it completed. -/
  flagged : ∀ event entry, chronicle.list.table.lookup? event = some entry → entry.completed = true →
    chronicle.tenant event.index ∈ chronicle.completed
  /-- Only completed events are reaped. -/
  live : ∀ number < chronicle.parents.length, number ∉ chronicle.completed →
    ∃ event, chronicle.Names event number
  /-- An event hangs under its parent until a thread takes it out to wait for it. -/
  linked : ∀ event number parent, chronicle.Names event number →
    chronicle.parents[number]? = some (some parent) →
    (∃ above entry, chronicle.Names above parent ∧ chronicle.list.table.lookup? above = some entry ∧
      event ∈ entry.linked) ∨ chronicle.Held event

section Soundness
variable {chronicle chronicle' : Chronicle} {event : Event} {number : Nat}

theorem Names.entry (h : chronicle.Names event number) :
    ∃ entry, chronicle.list.table.lookup? event = some entry :=
  EventTable.knows_iff.1 h.1

theorem names_of_entry {entry : EventEntry} (h : chronicle.list.table.lookup? event = some entry) :
    chronicle.Names event (chronicle.tenant event.index) :=
  ⟨EventTable.knows_iff.2 ⟨entry, h⟩, rfl⟩

theorem not_names_empty : ¬ Names {} event number := by
  intro h
  obtain ⟨entry, hentry⟩ := h.entry
  simp [EventTable.lookup?] at hentry

theorem sound_empty : Sound {} where
  wellFormed := EventTable.wellFormed_empty
  known _ _ h := absurd h not_names_empty
  unique _ _ _ h := absurd h not_names_empty
  flagged _ _ hentry := absurd (names_of_entry hentry) not_names_empty
  live number hlt := absurd hlt (Nat.not_lt_zero number)
  linked _ _ _ h := absurd h not_names_empty

/-! ### Making an event -/

/-- Afterwards there is a new event in a slot that was empty; apart from that, events may only gain
links. -/
structure Grows (table table' : EventTable) (new : Event) : Prop where
  fresh : ∀ event entry, table.lookup? event = some entry → event.index ≠ new.index
  born : table'.lookup? new = some {}
  kept : ∀ event entry, table.lookup? event = some entry → ∃ entry', table'.lookup? event = some entry' ∧
    entry'.completed = entry.completed ∧ entry.linked ⊆ entry'.linked
  rest : ∀ event entry', event ≠ new → table'.lookup? event = some entry' →
    ∃ entry, table.lookup? event = some entry

theorem grows_insert {table : EventTable} (h : table.WellFormed) (hroom : table.insert.2.Numbered) :
    Grows table table.insert.2 table.insert.1 where
  fresh event entry hentry := EventTable.insert_fresh h hroom hentry
  born := by rw [EventTable.lookup?_insert h hroom, if_pos rfl]
  kept event entry hentry := by
    have hne : event ≠ table.insert.1 := fun heq =>
      EventTable.insert_fresh h hroom hentry (congrArg Event.index heq)
    exact ⟨entry, by rw [EventTable.lookup?_insert h hroom, if_neg hne, hentry], rfl, fun _ => id⟩
  rest event entry' hne hentry' :=
    ⟨entry', by rwa [EventTable.lookup?_insert h hroom, if_neg hne] at hentry'⟩

theorem Grows.link {table table' : EventTable} {new parent : Event} {entry : EventEntry}
    (h : Grows table table' new) (hne : parent ≠ new) (hparent : table'.lookup? parent = some entry) :
    Grows table (table'.setEntry parent { entry with linked := entry.linked ++ [new] }) new where
  fresh := h.fresh
  born := by rw [EventTable.lookup?_setEntry hparent, if_neg (Ne.symm hne), h.born]
  kept event old hold := by
    obtain ⟨entry', hentry', hflag, hlinks⟩ := h.kept event old hold
    rw [EventTable.lookup?_setEntry hparent]
    by_cases heq : event = parent
    · obtain rfl : entry = entry' := by simpa [heq, hparent] using hentry'
      refine ⟨_, if_pos heq, hflag, fun link hlink => ?_⟩
      exact List.mem_append_left _ (hlinks hlink)
    · exact ⟨entry', by rw [if_neg heq, hentry'], hflag, hlinks⟩
  rest event entry' hnew hentry' := by
    rw [EventTable.lookup?_setEntry hparent] at hentry'
    by_cases heq : event = parent
    · exact h.rest event entry hnew (heq ▸ hparent)
    · rw [if_neg heq] at hentry'
      exact h.rest event entry' hnew hentry'

section Enrolment
variable {parent : Option Nat} {op : EventOp}

/-- The new handle names the new event, and every other one what it named before. -/
theorem names_enroll (h : Grows chronicle.list.table (chronicle.list.apply op).table
    chronicle.list.table.insert.1) :
    (chronicle.enroll parent op).Names event number ↔ chronicle.Names event number ∨
      (event = chronicle.list.table.insert.1 ∧ number = chronicle.parents.length) := by
  constructor
  · intro hnames
    by_cases heq : event = chronicle.list.table.insert.1
    · refine .inr ⟨heq, ?_⟩
      rw [← hnames.2, heq]
      exact if_pos rfl
    · obtain ⟨entry', hentry'⟩ := hnames.entry
      obtain ⟨entry, hentry⟩ := h.rest event entry' heq hentry'
      refine .inl ⟨EventTable.knows_iff.2 ⟨entry, hentry⟩, ?_⟩
      rw [← hnames.2]
      exact (if_neg (h.fresh event entry hentry)).symm
  · rintro (hnames | ⟨rfl, rfl⟩)
    · obtain ⟨entry, hentry⟩ := hnames.entry
      obtain ⟨entry', hentry', -⟩ := h.kept event entry hentry
      refine ⟨EventTable.knows_iff.2 ⟨entry', hentry'⟩, ?_⟩
      rw [← hnames.2]
      exact if_neg (h.fresh event entry hentry)
    · exact ⟨EventTable.knows_iff.2 ⟨_, h.born⟩, if_pos rfl⟩

theorem Sound.enroll (h : chronicle.Sound)
    (hgrows : Grows chronicle.list.table (chronicle.list.apply op).table
      chronicle.list.table.insert.1)
    (hwellFormed : (chronicle.list.apply op).table.WellFormed)
    (hwaiters : (chronicle.list.apply op).waiters = chronicle.list.waiters)
    (hlink : ∀ number ∈ parent, ∃ above entry, chronicle.Names above number ∧
      EventTable.lookup? (chronicle.list.apply op).table above = some entry ∧
      chronicle.list.table.insert.1 ∈ entry.linked) :
    (chronicle.enroll parent op).Sound := by
  have hlength : (chronicle.enroll parent op).parents.length = chronicle.parents.length + 1 :=
    List.length_append
  refine ⟨hwellFormed, ?_, ?_, ?_, ?_, ?_⟩
  · intro other number hother
    rcases (names_enroll hgrows).1 hother with hother | ⟨-, rfl⟩
    · have := h.known other number hother
      omega
    · omega
  · intro first second number hfirst hsecond
    rcases (names_enroll hgrows).1 hfirst with hfirst | ⟨rfl, rfl⟩ <;>
      rcases (names_enroll hgrows).1 hsecond with hsecond | ⟨rfl, heq⟩
    · exact h.unique first second number hfirst hsecond
    · exact absurd (h.known first number hfirst) (by omega)
    · exact absurd (h.known second _ hsecond) (by omega)
    · rfl
  · intro other entry' hentry' hcompleted
    by_cases heq : other = chronicle.list.table.insert.1
    · obtain rfl : {} = entry' := Option.some.inj (hgrows.born.symm.trans (heq ▸ hentry'))
      exact nomatch hcompleted
    · obtain ⟨entry, hentry⟩ := hgrows.rest other entry' heq hentry'
      obtain ⟨entry'', hentry'', hflag, -⟩ := hgrows.kept other entry hentry
      obtain rfl : entry'' = entry' := Option.some.inj (hentry''.symm.trans hentry')
      have htenant : (chronicle.enroll parent op).tenant other.index = chronicle.tenant other.index :=
        if_neg (hgrows.fresh other entry hentry)
      rw [htenant]
      exact h.flagged other entry hentry (hflag ▸ hcompleted)
  · intro number hlt hopen
    by_cases heq : number = chronicle.parents.length
    · exact ⟨_, (names_enroll hgrows).2 (.inr ⟨rfl, heq⟩)⟩
    · obtain ⟨other, hother⟩ := h.live number (by omega) hopen
      exact ⟨other, (names_enroll hgrows).2 (.inl hother)⟩
  · intro other number above hother habove
    rcases (names_enroll hgrows).1 hother with hother | ⟨rfl, rfl⟩
    · have hbefore : chronicle.parents[number]? = some (some above) := by
        simpa [Chronicle.enroll, List.getElem?_append_left (h.known other number hother)] using habove
      rcases h.linked other number above hother hbefore with
        ⟨holder, entry, hholder, hentry, hmem⟩ | ⟨waiter, hwaiter, hmem⟩
      · obtain ⟨entry', hentry', -, hlinks⟩ := hgrows.kept holder entry hentry
        exact .inl ⟨holder, entry', (names_enroll hgrows).2 (.inl hholder), hentry', hlinks hmem⟩
      · exact .inr ⟨waiter, hwaiters.symm ▸ hwaiter, hmem⟩
    · obtain rfl : parent = some above := by simpa [Chronicle.enroll] using habove
      obtain ⟨holder, entry', hholder, hentry', hmem⟩ := hlink above rfl
      exact .inl ⟨holder, entry', (names_enroll hgrows).2 (.inl hholder), hentry', hmem⟩

theorem Sound.newEvent (h : chronicle.Sound)
    (hroom : (chronicle.list.apply .newEvent).table.Numbered) : (chronicle.record .newEvent).Sound :=
  h.enroll (grows_insert h.wellFormed hroom) h.wellFormed.insert rfl (by simp)

theorem Sound.grows_newChild (h : chronicle.Sound) {parent : Event}
    (hknows : chronicle.list.table.knows parent = true)
    (hroom : (chronicle.list.apply (.newChild parent)).table.Numbered) :
    ∃ entry, EventTable.lookup? chronicle.list.table.insert.2 parent = some entry ∧
      Grows chronicle.list.table (chronicle.list.apply (.newChild parent)).table
        chronicle.list.table.insert.1 ∧
      chronicle.list.apply (.newChild parent) = { chronicle.list with
        table := chronicle.list.table.insert.2.setEntry parent
          { entry with linked := entry.linked ++ [chronicle.list.table.insert.1] } } := by
  obtain ⟨old, hold⟩ := EventTable.knows_iff.1 hknows
  obtain ⟨entry, hentry, happly⟩ := WaitList.apply_newChild_of_known hknows
  have hinsert : chronicle.list.table.insert.2.Numbered := by
    refine Nat.le_trans ?_ hroom
    simp [happly]
  have hgrows := grows_insert h.wellFormed hinsert
  have hne : parent ≠ chronicle.list.table.insert.1 := fun heq =>
    hgrows.fresh parent old hold (congrArg Event.index heq)
  exact ⟨entry, hentry, happly ▸ hgrows.link hne hentry, happly⟩

theorem record_newChild {parent : Event} (hknows : chronicle.list.table.knows parent = true) :
    chronicle.record (.newChild parent) =
      chronicle.enroll (some (chronicle.tenant parent.index)) (.newChild parent) := by
  simp [record, hknows]

theorem Sound.newChild (h : chronicle.Sound) (parent : Event)
    (hroom : (chronicle.list.apply (.newChild parent)).table.Numbered) :
    (chronicle.record (.newChild parent)).Sound := by
  cases hknows : chronicle.list.table.knows parent with
  | false => simpa [record, hknows] using h
  | true =>
    obtain ⟨old, hold⟩ := EventTable.knows_iff.1 hknows
    obtain ⟨entry, hentry, hgrows, happly⟩ := h.grows_newChild hknows hroom
    rw [record_newChild hknows]
    refine h.enroll hgrows ?_ (by rw [happly]) fun number hnumber => ?_
    · rw [happly]
      exact h.wellFormed.insert.setEntry hentry
    · obtain rfl : chronicle.tenant parent.index = number := by simpa using hnumber
      refine ⟨parent, { entry with linked := entry.linked ++ [chronicle.list.table.insert.1] },
        names_of_entry hold, ?_, by simp⟩
      rw [happly, EventTable.lookup?_setEntry hentry, if_pos rfl]

end Enrolment

/-! ### Making none -/

/-- Afterwards no handle names anything new; what is gone was completed and had no links, and a link
that is gone is held by a thread. -/
structure Keeps (chronicle chronicle' : Chronicle) : Prop where
  parents : chronicle'.parents = chronicle.parents
  tenant : chronicle'.tenant = chronicle.tenant
  completed : chronicle.completed ⊆ chronicle'.completed
  wellFormed : chronicle'.list.table.WellFormed
  old : ∀ event entry', chronicle'.list.table.lookup? event = some entry' →
    ∃ entry, chronicle.list.table.lookup? event = some entry ∧ (entry'.completed = true →
      entry.completed = true ∨ chronicle.tenant event.index ∈ chronicle'.completed)
  kept : ∀ event entry, chronicle.list.table.lookup? event = some entry →
    (∃ entry', chronicle'.list.table.lookup? event = some entry' ∧
      ∀ link ∈ entry.linked, link ∈ entry'.linked ∨ chronicle'.Held link) ∨
    (entry.completed = true ∧ entry.linked = [])
  held : ∀ event, chronicle.Held event → chronicle'.list.table.knows event = true →
    chronicle'.Held event

theorem Keeps.names (h : Keeps chronicle chronicle') (hnames : chronicle'.Names event number) :
    chronicle.Names event number := by
  obtain ⟨entry', hentry'⟩ := hnames.entry
  obtain ⟨entry, hentry, -⟩ := h.old event entry' hentry'
  exact ⟨EventTable.knows_iff.2 ⟨entry, hentry⟩, h.tenant ▸ hnames.2⟩

theorem Sound.keeps (h : chronicle.Sound) (hkeeps : Keeps chronicle chronicle') :
    chronicle'.Sound := by
  refine ⟨hkeeps.wellFormed, ?_, ?_, ?_, ?_, ?_⟩
  · intro event number hnames
    rw [hkeeps.parents]
    exact h.known event number (hkeeps.names hnames)
  · intro event event' number hnames hnames'
    exact h.unique event event' number (hkeeps.names hnames) (hkeeps.names hnames')
  · intro event entry' hentry' hcompleted
    obtain ⟨entry, hentry, hflag⟩ := hkeeps.old event entry' hentry'
    rw [hkeeps.tenant]
    rcases hflag hcompleted with hcompleted | hmem
    · exact hkeeps.completed (h.flagged event entry hentry hcompleted)
    · exact hmem
  · -- Only completed events are reaped, and what is completed is on record.
    intro number hlt hopen
    obtain ⟨event, hnames⟩ := h.live number (hkeeps.parents ▸ hlt) fun hmem =>
      hopen (hkeeps.completed hmem)
    obtain ⟨entry, hentry⟩ := hnames.entry
    rcases hkeeps.kept event entry hentry with ⟨entry', hentry', -⟩ | ⟨hcompleted, -⟩
    · exact ⟨event, EventTable.knows_iff.2 ⟨entry', hentry'⟩, hkeeps.tenant ▸ hnames.2⟩
    · have hmem := h.flagged event entry hentry hcompleted
      rw [hnames.2] at hmem
      exact absurd (hkeeps.completed hmem) hopen
  · intro event number parent hnames hparent
    rw [hkeeps.parents] at hparent
    rcases h.linked event number parent (hkeeps.names hnames) hparent with
      ⟨above, entry, habove, hentry, hmem⟩ | hheld
    · -- The parent is still there with the link, lost it to a thread, or had none when it went.
      rcases hkeeps.kept above entry hentry with ⟨entry', hentry', hlinks⟩ | ⟨-, hnone⟩
      · rcases hlinks event hmem with hmem' | hheld
        · refine .inl ⟨above, entry', ⟨EventTable.knows_iff.2 ⟨entry', hentry'⟩, ?_⟩, hentry', hmem'⟩
          exact hkeeps.tenant ▸ habove.2
        · exact .inr hheld
      · simp [hnone] at hmem
    · exact .inr (hkeeps.held event hheld hnames.1)

/-- A step that leaves the table and the record alone. -/
theorem Sound.keeps_table (h : chronicle.Sound) (hparents : chronicle'.parents = chronicle.parents)
    (htenant : chronicle'.tenant = chronicle.tenant)
    (hcompleted : chronicle'.completed = chronicle.completed)
    (htable : chronicle'.list.table = chronicle.list.table)
    (hheld : ∀ event, chronicle.Held event → chronicle.list.table.knows event = true →
      chronicle'.Held event) : Keeps chronicle chronicle' where
  parents := hparents
  tenant := htenant
  completed := hcompleted ▸ fun _ => id
  wellFormed := htable ▸ h.wellFormed
  old _ entry' hentry' := ⟨entry', htable ▸ hentry', .inl⟩
  kept _ entry hentry := .inl ⟨entry, htable ▸ hentry, fun _ => .inl⟩
  held event hevent hknows := hheld event hevent (htable ▸ hknows)

/-- Who is held stays held while others act. -/
theorem Held.record {op : EventOp} (h : chronicle.Held event)
    (hop : ∀ number, op ≠ .stepWaiter number) : (chronicle.record op).Held event := by
  obtain ⟨waiter, hwaiter, hmem⟩ := h
  obtain ⟨place, hplace⟩ := Array.mem_iff_getElem?.1 hwaiter
  obtain ⟨waiter', hplace', hcalls, -⟩ := WaitList.waiter_apply (hop place) hplace
  rw [← list_record] at hplace'
  exact ⟨waiter', Array.mem_iff_getElem?.2 ⟨place, hplace'⟩, hcalls ▸ hmem⟩

/-- A flag is set in the table and, if it says that the event is completed, in the record. -/
theorem Sound.keeps_setCompleted (h : chronicle.Sound) (event : Event) (value : Bool) :
    Keeps chronicle (chronicle.record (.setCompleted event value)) := by
  cases hentry : chronicle.list.table.lookup? event with
  | none =>
    have hknows : chronicle.list.table.knows event = false := by simp [EventTable.knows, hentry]
    have hlist : chronicle.list.apply (.setCompleted event value) = chronicle.list :=
      WaitList.setCompleted_of_unknown hentry
    have hrecord : chronicle.record (.setCompleted event value) = chronicle := by
      simp [record, hknows, hlist]
    rw [hrecord]
    exact h.keeps_table rfl rfl rfl rfl fun _ hheld _ => hheld
  | some entry =>
    have hknows : chronicle.list.table.knows event = true := EventTable.knows_iff.2 ⟨entry, hentry⟩
    have htable : (chronicle.record (.setCompleted event value)).list.table =
        chronicle.list.table.setEntry event { entry with completed := value } :=
      WaitList.table_setCompleted hentry
    refine ⟨rfl, rfl, ?_, ?_, ?_, ?_, fun other hheld _ => hheld.record (by simp)⟩
    · cases value <;> simp [record, hknows]
    · exact htable ▸ h.wellFormed.setEntry hentry
    · intro other entry' hentry'
      rw [htable, EventTable.lookup?_setEntry hentry] at hentry'
      by_cases heq : other = event
      · rw [if_pos heq, Option.some.injEq] at hentry'
        refine ⟨entry, heq ▸ hentry, fun hcompleted => .inr ?_⟩
        obtain rfl : value = true := by simpa [← hentry'] using hcompleted
        simp [record, hknows, heq]
      · rw [if_neg heq] at hentry'
        exact ⟨entry', hentry', .inl⟩
    · intro other old hold
      refine .inl ?_
      rw [htable, EventTable.lookup?_setEntry hentry]
      by_cases heq : other = event
      · obtain rfl : entry = old := by simpa [heq, hentry] using hold
        exact ⟨_, if_pos heq, fun _ => .inl⟩
      · exact ⟨old, by rw [if_neg heq, hold], fun _ => .inl⟩

theorem Sound.keeps_enterWait (h : chronicle.Sound) (event : Event) :
    Keeps chronicle (chronicle.record (.enterWait event)) :=
  h.keeps_table rfl rfl rfl rfl fun _ hheld _ => hheld.record (by simp)

/-- What was held still is, if the thread that moved still holds what it held. -/
theorem held_stepWaiter {turn : Nat} {waiter waiter' : Waiter}
    (hwaiter : chronicle.list.waiters[turn]? = some waiter)
    (hwaiters : chronicle'.list.waiters = chronicle.list.waiters.setIfInBounds turn waiter')
    (hcalls : event ∈ waiter.calls → event ∈ waiter'.calls) (hheld : chronicle.Held event) :
    chronicle'.Held event := by
  obtain ⟨holder, hholder, hmem⟩ := hheld
  obtain ⟨place, hplace⟩ := Array.mem_iff_getElem?.1 hholder
  have hplaces := WaitList.getElem?_stepWaiter hwaiter hwaiters
  by_cases heq : turn = place
  · subst heq
    obtain rfl : holder = waiter := by simpa [hplace] using hwaiter
    exact ⟨waiter', Array.mem_iff_getElem?.2 ⟨turn, by rw [hplaces, if_pos rfl]⟩, hcalls hmem⟩
  · exact ⟨holder, Array.mem_iff_getElem?.2 ⟨place, by rw [hplaces, if_neg heq, hplace]⟩, hmem⟩

/-- The steps of a waiter: a link that is taken out is held from then on, and what is reaped was
completed and had no links. -/
theorem Sound.keeps_stepWaiter (h : chronicle.Sound) (turn : Nat) :
    Keeps chronicle (chronicle.record (.stepWaiter turn)) := by
  rcases WaitList.apply_stepWaiter chronicle.list turn with hsame | hstep
  · have hrecord : chronicle.record (.stepWaiter turn) = chronicle := by simp [record, hsame]
    rw [hrecord]
    exact h.keeps_table rfl rfl rfl rfl fun _ hheld _ => hheld
  · obtain ⟨waiter, waiter', hwaiter, hmoved, hwaiters⟩ := WaitList.stepWaiter?_eq_some hstep
    obtain ⟨-, hmove⟩ := Waiter.move hmoved
    have hheld : ∀ event, (event ∈ waiter.calls → event ∈ waiter'.calls) → chronicle.Held event →
        (chronicle.record (.stepWaiter turn)).Held event := fun event hcalls =>
      held_stepWaiter hwaiter hwaiters hcalls
    cases hmove with
    | leave gone outer calls unknown table_eq waiter_eq =>
      refine h.keeps_table rfl rfl rfl table_eq fun event hevent hknows => hheld event ?_ hevent
      have hne : event ≠ gone := by
        rintro rfl
        simp [EventTable.knows, unknown] at hknows
      simp [calls, waiter_eq, hne]
    | fallAsleep event outer calls found table_eq waiter_eq =>
      refine h.keeps_table rfl rfl rfl table_eq fun event hevent _ => hheld event ?_ hevent
      simp [waiter_eq]
    | reap reaped outer calls found table_eq waiter_eq =>
      have hlookup : ∀ event,
          EventTable.lookup? (chronicle.record (.stepWaiter turn)).list.table event =
          if event = reaped then none else chronicle.list.table.lookup? event := fun event =>
        (congrArg (fun table => table.lookup? event) table_eq).trans EventTable.lookup?_remove
      refine ⟨rfl, rfl, fun _ => id, table_eq ▸ h.wellFormed.remove reaped, ?_, ?_, ?_⟩
      · intro event entry' hentry'
        rw [hlookup] at hentry'
        by_cases heq : event = reaped
        · simp [heq] at hentry'
        · exact ⟨entry', by rwa [if_neg heq] at hentry', .inl⟩
      · intro event entry hentry
        by_cases heq : event = reaped
        · obtain rfl : { completed := true, linked := [] } = entry := by
            simpa [heq, found] using hentry
          exact .inr ⟨rfl, rfl⟩
        · exact .inl ⟨entry, by rw [hlookup, if_neg heq, hentry], fun _ => .inl⟩
      · intro event hevent hknows
        refine hheld event ?_ hevent
        have hne : event ≠ reaped := by
          rintro rfl
          simp [EventTable.knows, hlookup] at hknows
        simp [calls, waiter_eq, hne]
    | descend above outer calls completed child rest found table_eq waiter_eq =>
      have hlookup : ∀ event,
          EventTable.lookup? (chronicle.record (.stepWaiter turn)).list.table event =
          if event = above then some { completed, linked := rest }
          else chronicle.list.table.lookup? event := fun event =>
        (congrArg (fun table => table.lookup? event) table_eq).trans (EventTable.lookup?_setEntry found)
      -- The link that leaves the table goes into the calls of the thread that took it.
      have htaken : (chronicle.record (.stepWaiter turn)).Held child := by
        refine ⟨waiter', Array.mem_iff_getElem?.2 ⟨turn, ?_⟩, by simp [waiter_eq]⟩
        exact (WaitList.getElem?_stepWaiter hwaiter hwaiters turn).trans (if_pos rfl)
      refine ⟨rfl, rfl, fun _ => id, table_eq ▸ h.wellFormed.setEntry found, ?_, ?_, ?_⟩
      · intro event entry' hentry'
        rw [hlookup] at hentry'
        by_cases heq : event = above
        · rw [if_pos heq, Option.some.injEq] at hentry'
          exact ⟨_, heq ▸ found, fun hcompleted => .inl (by simpa [← hentry'] using hcompleted)⟩
        · exact ⟨entry', by rwa [if_neg heq] at hentry', .inl⟩
      · intro event entry hentry
        refine .inl ?_
        by_cases heq : event = above
        · obtain rfl : { completed, linked := child :: rest } = entry := by
            simpa [heq, found] using hentry
          refine ⟨_, by rw [hlookup, if_pos heq], fun link hlink => ?_⟩
          rcases List.mem_cons.1 hlink with rfl | hlink
          · exact .inr htaken
          · exact .inl hlink
        · exact ⟨entry, by rw [hlookup, if_neg heq, hentry], fun _ => .inl⟩
      · intro event hevent _
        refine hheld event (fun hmem => ?_) hevent
        rw [waiter_eq]
        exact List.mem_cons_of_mem _ (calls ▸ hmem)

theorem Sound.record (h : chronicle.Sound) {op : EventOp} (hop : ∀ event, op ≠ .remove event)
    (hroom : (chronicle.list.apply op).table.Numbered) : (chronicle.record op).Sound := by
  cases op with
  | newEvent => exact h.newEvent hroom
  | newChild parent => exact h.newChild parent hroom
  | setCompleted event value => exact h.keeps (h.keeps_setCompleted event value)
  | remove event => exact absurd rfl (hop event)
  | enterWait event => exact h.keeps (h.keeps_enterWait event)
  | stepWaiter turn => exact h.keeps (h.keeps_stepWaiter turn)

/-- An event that is gone does not come back: only the new event of an operation gets a name. -/
theorem Sound.names_of_record (h : chronicle.Sound) {op : EventOp}
    (hop : ∀ event, op ≠ .remove event) (hroom : (chronicle.list.apply op).table.Numbered)
    (hnumber : number < chronicle.parents.length) (hnames : (chronicle.record op).Names event number) :
    chronicle.Names event number := by
  cases op with
  | newEvent =>
    -- The new event has a number that none of the old ones has.
    rcases (names_enroll (grows_insert h.wellFormed hroom)).1 hnames with hnames | ⟨-, rfl⟩
    · exact hnames
    · exact absurd hnumber (Nat.lt_irrefl _)
  | newChild parent =>
    cases hknows : chronicle.list.table.knows parent with
    | false => simpa [Chronicle.record, hknows] using hnames
    | true =>
      obtain ⟨-, -, hgrows, -⟩ := h.grows_newChild hknows hroom
      rw [record_newChild hknows] at hnames
      rcases (names_enroll hgrows).1 hnames with hnames | ⟨-, rfl⟩
      · exact hnames
      · exact absurd hnumber (Nat.lt_irrefl _)
  | setCompleted changed value => exact (h.keeps_setCompleted changed value).names hnames
  | remove removed => exact absurd rfl (hop removed)
  | enterWait entered => exact (h.keeps_enterWait entered).names hnames
  | stepWaiter turn => exact (h.keeps_stepWaiter turn).names hnames

/-- Slots are never given up, so a run that ends with room for their numbers had it all along. -/
theorem room_apply {op : EventOp} {ops : List EventOp}
    (hroom : (chronicle.recordAll (op :: ops)).list.table.Numbered) :
    (chronicle.list.apply op).table.Numbered := by
  rw [list_recordAll] at hroom
  exact Nat.le_trans (WaitList.size_applyAll (chronicle.list.apply op) ops) hroom

/-- Along a run without removals, as long as the slots can be numbered. -/
theorem Sound.recordAll (h : chronicle.Sound) {ops : List EventOp}
    (hops : ∀ event, .remove event ∉ ops)
    (hroom : (chronicle.recordAll ops).list.table.Numbered) : (chronicle.recordAll ops).Sound := by
  induction ops generalizing chronicle with
  | nil => exact h
  | cons op ops ih =>
    refine ih (h.record (fun event heq => hops event (by simp [heq])) (room_apply hroom)) ?_ hroom
    exact fun event hmem => hops event (List.mem_cons_of_mem _ hmem)

theorem sound_of {ops : List EventOp} (hops : ∀ event, .remove event ∉ ops)
    (hroom : (WaitList.after ops).table.Numbered) : (of ops).Sound :=
  sound_empty.recordAll hops (by rwa [← list_of] at hroom)

end Soundness

end Chronicle

end ComputeCore
