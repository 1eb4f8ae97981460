import ComputeCore.Event.WaitList
import ComputeCore.Proofs.Event.Table
/-!
# Runs of a wait list

A run of a wait list is a list of operations, the steps of the threads inside `wait` among them, so
every interleaving of these threads with all others is a run. On their own the waiters come to rest:
each of their steps lowers `WaitList.work`, and `WaitList.settle` is a run of such steps that ends
at rest.
-/

namespace ComputeCore

/-! ## Operations -/

/-- What a thread can do to a wait list. -/
inductive EventOp where
  | newEvent
  | newChild (parent : Event)
  | setCompleted (event : Event) (value : Bool)
  | remove (event : Event)
  | enterWait (event : Event)
  /-- One step of a thread inside `wait`. -/
  | stepWaiter (number : Nat)
  deriving DecidableEq

namespace WaitList

/-- The wait list after an operation. A link under an unknown event and a step of a waiter that
cannot take one leave it as it is. -/
def apply (list : WaitList) : EventOp → WaitList
  | .newEvent => list.newEvent.2
  | .newChild parent =>
    match list.newChildEvent parent with
    | .ok (_, list) => list
    | .error _ => list
  | .setCompleted event value => list.setCompleted event value
  | .remove event => list.remove event
  | .enterWait event => (list.enterWait event).2
  | .stepWaiter number => (list.stepWaiter? number).getD list

/-- The wait list after a run that starts from this one. -/
def applyAll (list : WaitList) (ops : List EventOp) : WaitList :=
  ops.foldl apply list

/-- What a run of a fresh wait list comes to. -/
def after (ops : List EventOp) : WaitList :=
  applyAll {} ops

/-- Every waiter has run as far as it can. -/
def AtRest (list : WaitList) : Prop :=
  ∀ number, list.stepWaiter? number = none

theorem applyAll_append (list : WaitList) (ops more : List EventOp) :
    list.applyAll (ops ++ more) = (list.applyAll ops).applyAll more :=
  List.foldl_append

theorem after_append (ops more : List EventOp) : after (ops ++ more) = (after ops).applyAll more :=
  applyAll_append {} ops more

theorem after_concat (ops : List EventOp) (op : EventOp) :
    after (ops ++ [op]) = (after ops).apply op := by
  rw [after_append]
  rfl

end WaitList

/-! ## Steps of a waiter -/

/-- All that a waiter can do while it holds the lock. -/
inductive Waiter.Move (table : EventTable) (waiter : Waiter) (table' : EventTable) (waiter' : Waiter) :
    Prop where
  /-- The event is gone, and the call returns. -/
  | leave (event : Event) (outer : List Event) (calls : waiter.calls = event :: outer)
      (unknown : table.lookup? event = none) (table_eq : table' = table)
      (waiter_eq : waiter' = { calls := outer })
  /-- The event is completed, and the call reaps it and returns. -/
  | reap (event : Event) (outer : List Event) (calls : waiter.calls = event :: outer)
      (found : table.lookup? event = some { completed := true, linked := [] })
      (table_eq : table' = table.remove event) (waiter_eq : waiter' = { calls := outer })
  /-- The event is not completed, and the waiter falls asleep. -/
  | fallAsleep (event : Event) (outer : List Event) (calls : waiter.calls = event :: outer)
      (found : table.lookup? event = some { completed := false, linked := [] })
      (table_eq : table' = table) (waiter_eq : waiter' = { waiter with asleep := true })
  /-- The first link is taken out, and waited for in a call of its own. -/
  | descend (event : Event) (outer : List Event) (calls : waiter.calls = event :: outer)
      (completed : Bool) (child : Event) (rest : List Event)
      (found : table.lookup? event = some { completed, linked := child :: rest })
      (table_eq : table' = table.setEntry event { completed, linked := rest })
      (waiter_eq : waiter' = { calls := child :: event :: outer })

section Steps
variable {table table' : EventTable} {waiter waiter' : Waiter} {list list' : WaitList} {number : Nat}

theorem Waiter.move (h : waiter.step table = some (table', waiter')) :
    waiter.asleep = false ∧ waiter.Move table table' waiter' := by
  unfold step at h
  obtain ⟨hawake, h⟩ := by simpa using h
  refine ⟨hawake, ?_⟩
  cases hcalls : waiter.calls with
  | nil => simp [hcalls] at h
  | cons event outer =>
    simp only [hcalls] at h
    cases hentry : table.lookup? event with
    | none =>
      obtain ⟨rfl, rfl⟩ := by simpa [hentry] using h
      exact .leave event outer hcalls hentry rfl rfl
    | some entry =>
      obtain ⟨completed, linked⟩ := entry
      cases linked with
      | nil =>
        cases completed with
        | true =>
          obtain ⟨rfl, rfl⟩ := by simpa [hentry] using h
          exact .reap event outer hcalls hentry rfl rfl
        | false =>
          obtain ⟨rfl, rfl⟩ := by simpa [hentry] using h
          exact .fallAsleep event outer hcalls hentry rfl (by simp [hcalls])
      | cons child rest =>
        obtain ⟨rfl, rfl⟩ := by simpa [hentry] using h
        exact .descend event outer hcalls completed child rest hentry rfl rfl

/-- A waiter that can take no step sleeps or has returned. -/
theorem Waiter.asleep_of_step (h : waiter.step table = none) :
    waiter.asleep = true ∨ waiter.calls = [] := by
  unfold step at h
  cases hasleep : waiter.asleep with
  | true => exact .inl rfl
  | false =>
    cases hcalls : waiter.calls with
    | nil => exact .inr rfl
    | cons event outer =>
      simp only [hasleep, hcalls] at h
      split at h
      · simp_all
      · split at h
        · simp at h
        · split at h <;> simp at h
        · simp at h

namespace WaitList

theorem stepWaiter?_eq_some (h : list.stepWaiter? number = some list') :
    ∃ waiter waiter', list.waiters[number]? = some waiter ∧
      waiter.step list.table = some (list'.table, waiter') ∧
      list'.waiters = list.waiters.setIfInBounds number waiter' := by
  unfold stepWaiter? at h
  cases hwaiter : list.waiters[number]? with
  | none => simp [hwaiter] at h
  | some waiter =>
    cases hstep : waiter.step list.table with
    | none => simp [hwaiter, hstep] at h
    | some stepped =>
      obtain ⟨table, waiter'⟩ := stepped
      obtain rfl := by simpa [hwaiter, hstep] using h
      exact ⟨waiter, waiter', rfl, hstep, rfl⟩

/-- A step of a waiter is a step of its own, or none. -/
theorem apply_stepWaiter (list : WaitList) (number : Nat) : list.apply (.stepWaiter number) = list ∨
    list.stepWaiter? number = some (list.apply (.stepWaiter number)) := by
  simp only [apply]
  cases list.stepWaiter? number with
  | none => exact .inl rfl
  | some list' => exact .inr rfl

theorem step_eq_none (h : list.AtRest) {waiter : Waiter} (hwaiter : waiter ∈ list.waiters) :
    waiter.step list.table = none := by
  obtain ⟨number, hnumber⟩ := Array.mem_iff_getElem?.1 hwaiter
  have hrest := h number
  unfold stepWaiter? at hrest
  cases hstep : waiter.step list.table with
  | none => rfl
  | some stepped => simp [hnumber, hstep] at hrest

/-- Who stands where after a step of the waiter `number`. -/
theorem getElem?_stepWaiter {waiter waiter' : Waiter} (hwaiter : list.waiters[number]? = some waiter)
    (hwaiters : list'.waiters = list.waiters.setIfInBounds number waiter') (place : Nat) :
    list'.waiters[place]? = if number = place then some waiter' else list.waiters[place]? := by
  rw [hwaiters]
  by_cases heq : number = place
  · subst heq
    rw [Array.getElem?_setIfInBounds_self_of_lt (Array.getElem?_eq_some_iff.1 hwaiter).1, if_pos rfl]
  · rw [Array.getElem?_setIfInBounds_ne heq, if_neg heq]

/-! ## The other operations -/

variable {event parent : Event} {value : Bool} {entry : EventEntry}

theorem apply_newChild_of_unknown (h : list.table.knows parent = false) :
    list.apply (.newChild parent) = list := by
  simp [apply, newChildEvent, h]

theorem apply_newChild_of_known (h : list.table.knows parent = true) :
    ∃ entry, EventTable.lookup? list.table.insert.2 parent = some entry ∧
      list.apply (.newChild parent) = { list with
        table := list.table.insert.2.setEntry parent
          { entry with linked := entry.linked ++ [list.table.insert.1] } } := by
  obtain ⟨old, hold⟩ := EventTable.knows_iff.1 h
  -- The parent is still there once the new event is: the code's check for that never fails.
  have hstill : ∃ entry, EventTable.lookup? list.table.insert.2 parent = some entry := by
    rcases EventTable.lookup?_insert_of_some hold with hkept | hfresh
    · exact ⟨old, hkept⟩
    · exact ⟨_, hfresh⟩
  obtain ⟨entry, hentry⟩ := hstill
  exact ⟨entry, hentry, by simp [apply, newChildEvent, h, hentry]⟩

theorem setCompleted_of_unknown (h : list.table.lookup? event = none) :
    list.setCompleted event value = list := by
  simp [setCompleted, h]

theorem table_setCompleted (h : list.table.lookup? event = some entry) :
    (list.setCompleted event value).table =
      list.table.setEntry event { entry with completed := value } := by
  simp [setCompleted, h]

theorem waiters_setCompleted (h : list.table.lookup? event = some entry) :
    (list.setCompleted event value).waiters =
      if value && !entry.completed then list.waiters.map Waiter.wake else list.waiters := by
  simp [setCompleted, h]

/-- What others do to the list leaves a thread inside its calls, and may wake it. -/
theorem waiter_apply {place : Nat} {waiter : Waiter} (hop : op ≠ .stepWaiter place)
    (h : list.waiters[place]? = some waiter) : ∃ waiter', (list.apply op).waiters[place]? = some waiter' ∧
      waiter'.calls = waiter.calls ∧ (waiter'.asleep = true → waiter.asleep = true) := by
  cases op with
  | setCompleted completed value =>
    simp only [apply]
    cases hentry : list.table.lookup? completed with
    | none => exact ⟨waiter, by rw [setCompleted_of_unknown hentry, h], rfl, id⟩
    | some entry =>
      rw [waiters_setCompleted hentry]
      split
      · exact ⟨waiter.wake, by simp [h], rfl, fun hasleep => by simp [Waiter.wake] at hasleep⟩
      · exact ⟨waiter, h, rfl, id⟩
  | newChild parent =>
    refine ⟨waiter, ?_, rfl, id⟩
    cases hknows : list.table.knows parent with
    | false => rwa [apply_newChild_of_unknown hknows]
    | true =>
      obtain ⟨entry, -, happly⟩ := apply_newChild_of_known hknows
      rwa [happly]
  | enterWait awaited =>
    refine ⟨waiter, ?_, rfl, id⟩
    have hlt := (Array.getElem?_eq_some_iff.1 h).1
    simp only [apply, enterWait]
    rw [Array.getElem?_push_lt hlt, ← Array.getElem?_eq_getElem, h]
  | stepWaiter number =>
    refine ⟨waiter, ?_, rfl, id⟩
    rcases apply_stepWaiter list number with hsame | hstep
    · rwa [hsame]
    · obtain ⟨other, other', hother, -, hwaiters⟩ := stepWaiter?_eq_some hstep
      rw [getElem?_stepWaiter hother hwaiters, if_neg fun heq => hop (congrArg EventOp.stepWaiter heq), h]
  | newEvent | remove removed => exact ⟨waiter, h, rfl, id⟩

/-! ## Slots -/

theorem size_apply (list : WaitList) (op : EventOp) :
    list.table.slots.size ≤ (list.apply op).table.slots.size := by
  cases op with
  | newEvent => exact EventTable.size_insert list.table
  | newChild parent =>
    cases hknows : list.table.knows parent with
    | false => simp [apply_newChild_of_unknown hknows]
    | true =>
      obtain ⟨entry, -, happly⟩ := apply_newChild_of_known hknows
      simpa [happly] using EventTable.size_insert list.table
  | setCompleted event value =>
    simp only [apply]
    cases hentry : list.table.lookup? event with
    | none => simp [setCompleted_of_unknown hentry]
    | some entry => simp [table_setCompleted hentry]
  | remove event => exact Nat.le_of_eq (EventTable.size_removeAll _ list.table [event]).symm
  | enterWait event => exact Nat.le_refl _
  | stepWaiter number =>
    rcases apply_stepWaiter list number with hsame | hstep
    · simp [hsame]
    · obtain ⟨waiter, waiter', -, hmoved, -⟩ := stepWaiter?_eq_some hstep
      obtain ⟨-, hmove⟩ := Waiter.move hmoved
      cases hmove with
      | leave event outer calls unknown table_eq waiter_eq => simp [table_eq]
      | fallAsleep event outer calls found table_eq waiter_eq => simp [table_eq]
      | reap event outer calls found table_eq waiter_eq => simp [table_eq]
      | descend event outer calls completed child rest found table_eq waiter_eq => simp [table_eq]

theorem size_applyAll (list : WaitList) (ops : List EventOp) :
    list.table.slots.size ≤ (list.applyAll ops).table.slots.size := by
  induction ops generalizing list with
  | nil => exact Nat.le_refl _
  | cons op ops ih => exact Nat.le_trans (size_apply list op) (ih (list.apply op))

/-! ## Coming to rest -/

/-- Each step of a waiter on its own lowers the bound on the steps to come. -/
theorem work_stepWaiter? (h : list.stepWaiter? number = some list') : list'.work < list.work := by
  obtain ⟨waiter, waiter', hwaiter, hstep, hwaiters⟩ := stepWaiter?_eq_some h
  -- The other waiters weigh what they weighed, so only the mover and the links have to be compared.
  have hsum := fun base => foldr_set Waiter.weight base waiter'
    (by rwa [← Array.getElem?_toList] at hwaiter)
  have hbase : ∀ (waiters : List Waiter) (links : Nat),
      waiters.foldr (fun w steps => w.weight + steps) links =
        waiters.foldr (fun w steps => w.weight + steps) 0 + links := by
    intro waiters links
    induction waiters with
    | nil => simp
    | cons head tail ih => simp [ih, Nat.add_assoc]
  have hkey : waiter'.weight + 3 * list'.table.linkCount < waiter.weight + 3 * list.table.linkCount := by
    obtain ⟨hawake, hmove⟩ := Waiter.move hstep
    cases hmove with
    | leave event outer calls unknown table_eq waiter_eq =>
      simp only [table_eq, waiter_eq, Waiter.weight, calls, hawake, List.length_cons]
      simp
    | reap event outer calls found table_eq waiter_eq =>
      have hlinks := EventTable.linkCount_remove found
      simp only [table_eq, waiter_eq, Waiter.weight, calls, hawake, List.length_cons, List.length_nil] at *
      simp
      omega
    | fallAsleep event outer calls found table_eq waiter_eq =>
      simp [table_eq, waiter_eq, Waiter.weight, calls, hawake]
    | descend event outer calls completed child rest found table_eq waiter_eq =>
      have hlinks := EventTable.linkCount_setEntry found { completed, linked := rest }
      simp only [table_eq, waiter_eq, Waiter.weight, calls, hawake, List.length_cons] at *
      simp
      omega
  have hold := hsum 0
  unfold work
  rw [hwaiters, Array.toList_setIfInBounds, hbase, hbase list.waiters.toList]
  omega

theorem atRest_of_stepFirst? (h : list.stepFirst? = none) : list.AtRest := by
  intro number
  unfold stepFirst? at h
  by_cases hlt : number < list.waiters.size
  · exact List.findSome?_eq_none_iff.1 h number (List.mem_range.2 hlt)
  · simp [stepWaiter?, Nat.le_of_not_lt hlt]

theorem stepFirst?_eq_some (h : list.stepFirst? = some list') :
    ∃ number, list.stepWaiter? number = some list' := by
  obtain ⟨number, -, hstep⟩ := List.exists_of_findSome?_eq_some h
  exact ⟨number, hstep⟩

theorem atRest_settleFor (steps : Nat) (list : WaitList) (h : list.work ≤ steps) :
    (settleFor steps list).AtRest := by
  induction steps generalizing list with
  | zero =>
    -- No work is left, so no step can lower it.
    intro number
    cases hstep : list.stepWaiter? number with
    | none => exact hstep
    | some list' =>
      have := work_stepWaiter? hstep
      omega
  | succ steps ih =>
    unfold settleFor
    cases hfirst : list.stepFirst? with
    | none => exact atRest_of_stepFirst? hfirst
    | some list' =>
      obtain ⟨number, hstep⟩ := stepFirst?_eq_some hfirst
      have := work_stepWaiter? hstep
      exact ih list' (by omega)

theorem atRest_settle (list : WaitList) : list.settle.AtRest :=
  atRest_settleFor list.work list (Nat.le_refl _)

/-- Settling is a run of steps of the waiters alone. -/
theorem settleFor_eq_applyAll (steps : Nat) (list : WaitList) :
    ∃ turns : List Nat, settleFor steps list = list.applyAll (turns.map EventOp.stepWaiter) := by
  induction steps generalizing list with
  | zero => exact ⟨[], rfl⟩
  | succ steps ih =>
    unfold settleFor
    cases hfirst : list.stepFirst? with
    | none => exact ⟨[], rfl⟩
    | some list' =>
      obtain ⟨number, hstep⟩ := stepFirst?_eq_some hfirst
      obtain ⟨turns, hturns⟩ := ih list'
      refine ⟨number :: turns, ?_⟩
      simp only [applyAll, List.map_cons, List.foldl_cons, apply, hstep, Option.getD_some] at hturns ⊢
      exact hturns

theorem exists_rest (list : WaitList) :
    ∃ turns : List Nat, (list.applyAll (turns.map EventOp.stepWaiter)).AtRest := by
  obtain ⟨turns, hturns⟩ := settleFor_eq_applyAll list.work list
  exact ⟨turns, hturns ▸ atRest_settle list⟩

end WaitList

end Steps

end ComputeCore
