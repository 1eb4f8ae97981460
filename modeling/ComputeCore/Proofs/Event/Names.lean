import ComputeCore.Proofs.Event.Generations
import ComputeCore.Proofs.Event.NameMap
/-!
# Handles are names

The wait list behaves as if its handles were names that are never used twice, although slots are reused and
handles are made of a slot and a generation. This holds as long as the numbers suffice: a slot that is reaped
`2 ^ 32` times starts its generations over.

The wait list is read as a `NameMap` through what its handles name. `Orderly` is what a run maintains, and
`Orderly.step` says that under it every operation of the list is a step of the map.
-/

namespace ComputeCore

namespace WaitList

def answer (list : WaitList) : EventOp → EventAnswer
  | .newEvent => .name list.newEvent.1
  | .newChild parent =>
    match list.newChildEvent parent with
    | .ok (child, _) => .name child
    | .error fault => .fault fault
  | _ => .done

/-- The handles that a run hands out when it starts here, in order. -/
def givenFrom : WaitList → List EventOp → List Event
  | _, [] => []
  | list, op :: ops => (list.answer op).names ++ givenFrom (list.apply op) ops

def given (ops : List EventOp) : List Event :=
  givenFrom {} ops

/-- The list as a map of names, of which these were given. -/
def names (list : WaitList) (given : List Event) : NameMap where
  lookup? := list.table.lookup?
  given
  waiters := list.waiters

/-- What a run comes to, as a map of names. -/
def namesAfter (ops : List EventOp) : NameMap :=
  (after ops).names (given ops)

/-- No operation knows the handle. -/
structure Unknown (list : WaitList) (event : Event) : Prop where
  isCompleted : list.isCompleted event = false
  setCompleted : ∀ value, list.setCompleted event value = list
  remove : list.remove event = list
  newChildEvent : list.newChildEvent event = .error (.unknownParent event)
  /-- A wait for it returns at its first step, and so does a wait for it inside another one. -/
  wait : ∀ outer, Waiter.step list.table { calls := event :: outer } = some (list.table, { calls := outer })

/-- The numbers suffice: there are at most `2 ^ 32` slots, and none is reaped `2 ^ 32` times. -/
structure InRange (ops : List EventOp) : Prop where
  slots : (after ops).table.Numbered
  reaps : ∀ index, reaps ops index < UInt32.size

/-- The handles given so far are distinct, the table counts those that live, each slot's generation counts how
often it was reaped, and every handle has a live event or is behind its slot's generation. -/
structure Orderly (list : WaitList) (given : List Event) (reaps : Nat → Nat) : Prop where
  tally : list.table.Tally given
  aged : list.table.Aged reaps
  past : ∀ event ∈ given, list.table.Past event

section Runs
variable {list list' : WaitList} {ops before : List EventOp} {op : EventOp} {event : Event} {given : List Event}
  {reaps : Nat → Nat}

theorem givenFrom_append (list : WaitList) (ops more : List EventOp) :
    list.givenFrom (ops ++ more) = list.givenFrom ops ++ (list.applyAll ops).givenFrom more := by
  induction ops generalizing list with
  | nil => rfl
  | cons op ops ih =>
    simp only [List.cons_append, givenFrom, ih, List.append_assoc]
    rfl

theorem given_concat (ops : List EventOp) (op : EventOp) :
    WaitList.given (ops ++ [op]) = WaitList.given ops ++ ((after ops).answer op).names := by
  unfold WaitList.given
  rw [givenFrom_append, givenFrom, givenFrom, List.append_nil]
  rfl

theorem InRange.of_prefix (h : InRange ops) (hbefore : before <+: ops) : InRange before := by
  obtain ⟨later, rfl⟩ := hbefore
  constructor
  · have hsize := size_applyAll (after before) later
    have hslots := h.slots
    unfold EventTable.Numbered at hslots ⊢
    rw [after_append] at hslots
    omega
  · intro index
    have hreaps := h.reaps index
    rw [reaps_append] at hreaps
    omega

theorem unknown_of_lookup? (h : list.table.lookup? event = none) : list.Unknown event where
  isCompleted := by simp [isCompleted, h]
  setCompleted value := setCompleted_of_unknown h
  remove := by rw [WaitList.remove, EventTable.removeTree_of_unknown h]
  newChildEvent := by simp [newChildEvent, EventTable.knows, h]
  wait outer := by simp [Waiter.step, h]

/-! ## What a run maintains -/

theorem Orderly.insert_not_mem (h : list.Orderly given reaps) (hroom : list.table.insert.2.Numbered) :
    list.table.insert.1 ∉ given := fun hmem =>
  EventTable.not_past_insert h.tally.wellFormed hroom (h.past _ hmem)

/-- A new child's parent is an event from before, which nothing has happened to in between. -/
theorem newChild_cases {parent : Event} (h : list.table.WellFormed)
    (hroom : (list.apply (.newChild parent)).table.Numbered) :
    (list.table.lookup? parent = none ∧ list.answer (.newChild parent) = .fault (.unknownParent parent) ∧
      list.apply (.newChild parent) = list) ∨
    ∃ entry, list.table.lookup? parent = some entry ∧ list.table.insert.2.Numbered ∧
      EventTable.lookup? list.table.insert.2 parent = some entry ∧
      list.answer (.newChild parent) = .name list.table.insert.1 ∧
      list.apply (.newChild parent) = { list with
        table := list.table.insert.2.setEntry parent
          { entry with linked := entry.linked ++ [list.table.insert.1] } } := by
  cases hknows : list.table.knows parent with
  | false =>
    refine .inl ⟨EventTable.lookup?_eq_none hknows, ?_, apply_newChild_of_unknown hknows⟩
    simp [answer, newChildEvent, hknows]
  | true =>
    obtain ⟨old, hold⟩ := EventTable.knows_iff.1 hknows
    obtain ⟨entry, hentry, happly⟩ := apply_newChild_of_known hknows
    have hinsert : list.table.insert.2.Numbered := by
      unfold EventTable.Numbered at hroom ⊢
      rwa [happly, EventTable.size_setEntry] at hroom
    -- The new event has a slot of its own, so looking the parent up again finds what was there.
    have hne : parent ≠ list.table.insert.1 := fun heq =>
      EventTable.insert_fresh h hinsert hold (congrArg Event.index heq)
    have hsame : entry = old := by
      rw [EventTable.lookup?_insert h hinsert, if_neg hne, hold] at hentry
      exact (Option.some.inj hentry).symm
    refine .inr ⟨old, hold, hinsert, hsame ▸ hentry, ?_, hsame ▸ happly⟩
    simp [answer, newChildEvent, hknows, hentry]

/-- What an insertion, a removal and a change of an event keep, every operation keeps. A change leaves the
event no links but its own and those that are handed out with it. -/
theorem apply_keeps {P : EventTable → Prop} (hinsert : ∀ table, P table → P table.insert.2)
    (hset : ∀ table event old entry, P table → table.lookup? event = some old →
      (∀ child ∈ entry.linked, child ∈ old.linked ∨ child ∈ (list.answer op).names) → P (table.setEntry event entry))
    (hremove : ∀ table event, P table → P (table.remove event)) (h : P list.table) : P (list.apply op).table := by
  cases op with
  | newEvent => exact hinsert list.table h
  | newChild parent =>
    cases hknows : list.table.knows parent with
    | false => rwa [apply_newChild_of_unknown hknows]
    | true =>
      obtain ⟨entry, hentry, happly⟩ := apply_newChild_of_known hknows
      have hanswer : list.answer (.newChild parent) = .name list.table.insert.1 := by
        simp [answer, newChildEvent, hknows, hentry]
      rw [happly]
      refine hset _ parent entry _ (hinsert list.table h) hentry fun child hchild => ?_
      rw [hanswer]
      exact List.mem_append.1 hchild
  | setCompleted event value =>
    simp only [apply]
    cases hentry : list.table.lookup? event with
    | none => rwa [setCompleted_of_unknown hentry]
    | some entry =>
      rw [table_setCompleted hentry]
      exact hset list.table event entry _ h hentry fun child hchild => .inl hchild
  | remove event => exact EventTable.removeAll_keeps hremove _ list.table [event] h
  | enterWait event => exact h
  | stepWaiter number =>
    rcases apply_stepWaiter list number with hsame | hstep
    · rwa [hsame]
    · obtain ⟨waiter, waiter', -, hmoved, -⟩ := stepWaiter?_eq_some hstep
      cases (Waiter.move hmoved).2 with
      | leave event outer calls unknown table_eq => exact table_eq ▸ h
      | reap event outer calls found table_eq => exact table_eq ▸ hremove list.table event h
      | fallAsleep event outer calls found table_eq => exact table_eq ▸ h
      | descend event outer calls completed child rest found table_eq =>
        rw [table_eq]
        exact hset list.table event _ _ h found fun other hother => .inl (List.mem_cons_of_mem child hother)

theorem tally_apply (h : list.table.Tally given) (hroom : (list.apply op).table.Numbered)
    (hnew : list.table.insert.2.Numbered → list.table.insert.1 ∉ given) :
    (list.apply op).table.Tally (given ++ (list.answer op).names) := by
  cases op with
  | newEvent => exact h.insert hroom (hnew hroom)
  | newChild parent =>
    rcases newChild_cases h.wellFormed hroom with ⟨-, hanswer, happly⟩ |
      ⟨entry, -, hinsert, hparent, hanswer, happly⟩
    · rw [hanswer, happly]
      exact (List.append_nil given).symm ▸ h
    · rw [hanswer, happly]
      exact (h.insert hinsert (hnew hinsert)).setEntry hparent
  | setCompleted event value =>
    refine (List.append_nil given).symm ▸ ?_
    simp only [apply]
    cases hentry : list.table.lookup? event with
    | none => rwa [setCompleted_of_unknown hentry]
    | some entry =>
      rw [table_setCompleted hentry]
      exact h.setEntry hentry
  | remove event => exact (List.append_nil given).symm ▸ h.removeAll _ _
  | enterWait event => exact (List.append_nil given).symm ▸ h
  | stepWaiter number =>
    refine (List.append_nil given).symm ▸ ?_
    rcases apply_stepWaiter list number with hsame | hstep
    · rwa [hsame]
    · obtain ⟨waiter, waiter', -, hmoved, -⟩ := stepWaiter?_eq_some hstep
      cases (Waiter.move hmoved).2 with
      | leave event outer calls unknown table_eq => exact table_eq ▸ h
      | reap event outer calls found table_eq => exact table_eq ▸ h.remove event
      | fallAsleep event outer calls found table_eq => exact table_eq ▸ h
      | descend event outer calls completed child rest found table_eq => exact table_eq ▸ h.setEntry found

/-- A handle that is handed out names the new event. -/
theorem lookup?_of_answer (h : list.table.WellFormed) (hroom : (list.apply op).table.Numbered)
    (hmem : event ∈ (list.answer op).names) : ∃ entry, (list.apply op).table.lookup? event = some entry := by
  cases op with
  | newEvent =>
    obtain rfl := List.mem_singleton.1 hmem
    exact ⟨{}, (EventTable.lookup?_insert h hroom).trans (if_pos rfl)⟩
  | newChild parent =>
    rcases newChild_cases h hroom with ⟨-, hanswer, -⟩ | ⟨entry, -, hinsert, hparent, hanswer, happly⟩
    · rw [hanswer] at hmem
      exact absurd hmem List.not_mem_nil
    · rw [hanswer] at hmem
      obtain rfl := List.mem_singleton.1 hmem
      rw [happly, EventTable.lookup?_setEntry hparent, EventTable.lookup?_insert h hinsert]
      split
      · exact ⟨_, rfl⟩
      · exact ⟨_, if_pos rfl⟩
  | _ => exact absurd hmem List.not_mem_nil

theorem Orderly.apply (h : list.Orderly given reaps) (hroom : (list.apply op).table.Numbered)
    (hreaps : ∀ index, reaps index + (list.vacates op index).toNat < UInt32.size) :
    (list.apply op).Orderly (given ++ (list.answer op).names)
      fun index => reaps index + (list.vacates op index).toNat := by
  have hmoves := apply_moves h.tally.wellFormed op
  constructor
  · exact tally_apply h.tally hroom h.insert_not_mem
  · exact h.aged.move hmoves hreaps
  · intro event hevent
    rcases List.mem_append.1 hevent with hold | hnew
    · exact (h.past event hold).move hmoves h.aged hreaps
    · obtain ⟨entry, hentry⟩ := lookup?_of_answer h.tally.wellFormed hroom hnew
      exact EventTable.past_of_lookup? hentry

theorem orderly_after (h : InRange ops) : (after ops).Orderly (WaitList.given ops) (WaitList.reaps ops) := by
  induction ops using List.reverseRecOn with
  | nil =>
    constructor
    · exact EventTable.tally_empty
    · intro index
      simp [after, applyAll, WaitList.reaps, reapsFrom]
    · simp [WaitList.given, givenFrom]
  | append_singleton ops op ih =>
    have hbefore := ih (h.of_prefix ⟨[op], rfl⟩)
    have hroom := h.slots
    have hreaps := h.reaps
    rw [after_concat] at hroom ⊢
    simp only [reaps_concat] at hreaps
    rw [given_concat, funext (reaps_concat ops op)]
    exact hbefore.apply hroom hreaps

/-! ## One operation is one step of the map -/

theorem names_eq {lookup? : Event → Option EventEntry} {waiters : Array Waiter}
    (hentries : list.table.lookup? = lookup?) (hwaiters : list.waiters = waiters) :
    list.names given = { lookup?, given, waiters } := by
  subst hentries hwaiters
  rfl

/-- A waiter's step is the same step under names. -/
theorem step_move {number : Nat} {waiter waiter' : Waiter} (hwaiter : list.waiters[number]? = some waiter)
    (hawake : waiter.asleep = false) (hmove : waiter.Move list.table list'.table waiter')
    (hwaiters : list'.waiters = list.waiters.setIfInBounds number waiter') :
    (list.names given).Step (.stepWaiter number) .done (list'.names given) := by
  have hturn : ∀ event outer, waiter.calls = event :: outer → (list.names given).Turn number event outer := by
    intro event outer hcalls
    obtain ⟨calls, asleep⟩ := waiter
    obtain rfl : asleep = false := hawake
    obtain rfl : calls = event :: outer := hcalls
    exact hwaiter
  cases hmove with
  | leave event outer calls unknown table_eq waiter_eq =>
    have hmap : list'.names given = (list.names given).move number { calls := outer } :=
      names_eq (congrArg EventTable.lookup? table_eq) (by rw [hwaiters, waiter_eq]; rfl)
    exact hmap ▸ .leave number event outer (hturn event outer calls) unknown
  | reap event outer calls found table_eq waiter_eq =>
    have hmap : list'.names given = ((list.names given).unbind event).move number { calls := outer } :=
      names_eq (by rw [table_eq]; exact funext fun _ => EventTable.lookup?_remove) (by rw [hwaiters, waiter_eq]; rfl)
    exact hmap ▸ .reap number event outer (hturn event outer calls) found
  | fallAsleep event outer calls found table_eq waiter_eq =>
    have hmap : list'.names given = (list.names given).move number { calls := event :: outer, asleep := true } :=
      names_eq (congrArg EventTable.lookup? table_eq) (by rw [hwaiters, waiter_eq, calls]; rfl)
    exact hmap ▸ .fallAsleep number event outer (hturn event outer calls) found
  | descend event outer calls completed child rest found table_eq waiter_eq =>
    have hmap : list'.names given = ((list.names given).bind event { completed, linked := rest }).move number
        { calls := child :: event :: outer } :=
      names_eq (by rw [table_eq]; exact funext fun _ => EventTable.lookup?_setEntry found)
        (by rw [hwaiters, waiter_eq]; rfl)
    exact hmap ▸ .descend number event outer completed child rest (hturn event outer calls) found

theorem Orderly.step (h : list.Orderly given reaps) (hroom : (list.apply op).table.Numbered) :
    (list.names given).Step op (list.answer op) ((list.apply op).names (given ++ (list.answer op).names)) := by
  have hwellFormed := h.tally.wellFormed
  cases op with
  | newEvent =>
    have hmap : names (list.apply .newEvent) (given ++ [list.table.insert.1]) =
        (list.names given).give list.table.insert.1 :=
      names_eq (funext fun _ => EventTable.lookup?_insert hwellFormed hroom) rfl
    exact hmap ▸ .newEvent _ (h.insert_not_mem hroom)
  | newChild parent =>
    rcases newChild_cases hwellFormed hroom with ⟨hunknown, hanswer, happly⟩ |
      ⟨entry, hentry, hinsert, hparent, hanswer, happly⟩
    · rw [hanswer, happly]
      exact (List.append_nil given).symm ▸ .noParent parent hunknown
    · have hmap : names (list.apply (.newChild parent)) (given ++ [list.table.insert.1]) =
          ((list.names given).give list.table.insert.1).bind parent
            { entry with linked := entry.linked ++ [list.table.insert.1] } := by
        refine names_eq (funext fun other => ?_) (by rw [happly]; rfl)
        rw [happly, EventTable.lookup?_setEntry hparent, EventTable.lookup?_insert hwellFormed hinsert]
        rfl
      rw [hanswer]
      exact hmap ▸ .newChild parent _ entry hentry (h.insert_not_mem hinsert)
  | setCompleted event value =>
    refine (List.append_nil given).symm ▸ ?_
    cases hentry : list.table.lookup? event with
    | none =>
      have hsame : list.apply (.setCompleted event value) = list := setCompleted_of_unknown hentry
      rw [hsame]
      exact .setUnknown event value hentry
    | some entry =>
      have hmap : names (list.apply (.setCompleted event value)) given =
          { (list.names given).bind event { entry with completed := value } with
            waiters := if value && !entry.completed then list.waiters.map Waiter.wake else list.waiters } := by
        refine names_eq (funext fun other => ?_) (waiters_setCompleted hentry)
        exact (congrArg (EventTable.lookup? · other) (table_setCompleted hentry)).trans
          (EventTable.lookup?_setEntry hentry)
      exact hmap ▸ .setCompleted event value entry hentry
  | remove event =>
    refine (List.append_nil given).symm ▸ ?_
    exact .remove event _ (fun other => EventTable.lookup?_removeTree_of_linked)
      (fun other => EventTable.lookup?_removeTree_of_not_linked) rfl rfl
  | enterWait event => exact (List.append_nil given).symm ▸ .enterWait event
  | stepWaiter number =>
    refine (List.append_nil given).symm ▸ ?_
    cases hstep : list.stepWaiter? number with
    | some list' =>
      have happly : list.apply (.stepWaiter number) = list' := by simp [WaitList.apply, hstep]
      obtain ⟨waiter, waiter', hwaiter, hmoved, hwaiters⟩ := stepWaiter?_eq_some hstep
      obtain ⟨hawake, hmove⟩ := Waiter.move hmoved
      rw [happly]
      exact step_move hwaiter hawake hmove hwaiters
    | none =>
      have happly : list.apply (.stepWaiter number) = list := by simp [WaitList.apply, hstep]
      rw [happly]
      -- A thread that is awake inside a call always has a step to take.
      refine .idle number fun event outer hturn => ?_
      have hwaiter : list.waiters[number]? = some { calls := event :: outer } := hturn
      cases hmoved : Waiter.step list.table { calls := event :: outer } with
      | none =>
        rcases Waiter.asleep_of_step hmoved with hasleep | hreturned
        · simp at hasleep
        · simp at hreturned
      | some moved => simp [stepWaiter?, hwaiter, hmoved] at hstep

theorem step_after (h : InRange (ops ++ [op])) :
    (namesAfter ops).Step op ((after ops).answer op) (namesAfter (ops ++ [op])) := by
  have horderly := orderly_after (h.of_prefix ⟨[op], rfl⟩)
  have hroom := h.slots
  unfold namesAfter
  rw [given_concat]
  rw [after_concat] at hroom ⊢
  exact horderly.step hroom

/-- By induction on what the run does afterwards: no step of the map brings the name back. -/
theorem lookup?_eq_none_after {more : List EventOp} (h : InRange (ops ++ more)) (hgiven : event ∈ WaitList.given ops)
    (hunknown : (after ops).table.lookup? event = none) : (after (ops ++ more)).table.lookup? event = none := by
  induction more using List.reverseRecOn with
  | nil => rwa [List.append_nil]
  | append_singleton more op ih =>
    rw [← List.append_assoc] at h ⊢
    have hstill := ih (h.of_prefix ⟨[op], rfl⟩)
    have hgivenStill : event ∈ WaitList.given (ops ++ more) := by
      unfold WaitList.given
      rw [givenFrom_append]
      exact List.mem_append_left _ hgiven
    exact (step_after h).unknown hgivenStill hstill

end Runs

/-! ## Whole runs -/

/-- The handles of a run are never confused. -/
structure Unconfused (ops : List EventOp) : Prop where
  start : namesAfter [] = {}
  /-- Every operation is a step of the map, with the same answer. -/
  step : ∀ before op, before ++ [op] <+: ops →
    (namesAfter before).Step op ((after before).answer op) (namesAfter (before ++ [op]))
  /-- The list shows what the map shows. -/
  isCompleted : ∀ now event, now <+: ops → (after now).isCompleted event = (namesAfter now).isCompleted event
  isBlocked : ∀ now number, now <+: ops → (after now).isBlocked number = (namesAfter now).isBlocked number
  size : ∀ now, now <+: ops → (after now).size = (namesAfter now).size
  /-- A handle that is returned differs from all that were returned before. -/
  fresh : (given ops).Nodup
  /-- A handle that was given and names nothing, because its event was removed or reaped, is unknown for good. -/
  stale : ∀ before now event, before <+: now → now <+: ops → event ∈ given before →
    (after before).table.lookup? event = none → (after now).Unknown event
  /-- An operation leaves the flags and the links alone of the live events it is not about. -/
  untouched : ∀ before op event entry, before ++ [op] <+: ops → (after before).table.lookup? event = some entry →
    ¬ (namesAfter before).Touches op event → (after (before ++ [op])).table.lookup? event = some entry

theorem handles_never_confused (ops : List EventOp) (h : InRange ops) : Unconfused ops where
  start := names_eq (funext fun _ => by simp [after, applyAll, EventTable.lookup?]) rfl
  step before op hprefix := step_after (h.of_prefix hprefix)
  isCompleted now event _ := rfl
  isBlocked now number _ := rfl
  size now hprefix := (orderly_after (h.of_prefix hprefix)).tally.live
  fresh := (orderly_after h).tally.nodup
  stale := by
    rintro before now event ⟨more, rfl⟩ hprefix hgiven hunknown
    exact unknown_of_lookup? (lookup?_eq_none_after (h.of_prefix hprefix) hgiven hunknown)
  untouched before op event entry hprefix hentry htouches := by
    have horderly := orderly_after (h.of_prefix ((List.prefix_append before [op]).trans hprefix))
    have hgiven := horderly.tally.known event (EventTable.knows_iff.2 ⟨entry, hentry⟩)
    exact (step_after (h.of_prefix hprefix)).untouched hentry hgiven htouches

/-- A wait reaps an event, another one gets its slot, and the old handle is used again. -/
def reuseRun : List EventOp :=
  [.newEvent, .enterWait ⟨0, 0⟩, .setCompleted ⟨0, 0⟩ true, .stepWaiter 0, .newEvent, .setCompleted ⟨0, 0⟩ true,
    .newChild ⟨0, 0⟩]

theorem unconfused_reuseRun : InRange reuseRun ∧ given reuseRun = [⟨0, 0⟩, ⟨0, 1⟩] ∧ Unconfused reuseRun := by
  have hrange : InRange reuseRun :=
    ⟨by decide +kernel, fun index => Nat.lt_of_le_of_lt (reapsFrom_le_length {} reuseRun index) (by decide)⟩
  exact ⟨hrange, by decide +kernel, handles_never_confused reuseRun hrange⟩

end WaitList

end ComputeCore
