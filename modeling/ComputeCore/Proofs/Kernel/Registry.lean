import Mathlib.Algebra.BigOperators.Intervals
import Mathlib.Logic.Relation
import ComputeCore.Kernel.Registry
import ComputeCore.Proofs.Dict
/-!
# Registries among threads

Looking a name up, building a kernel, and filing it are three steps of a call of `getOrRegister`, and
other calls come in between. `Traffic` is a registry with the calls on it, and `Runs` any interleaving
of their steps. Still every call takes effect at one moment, with all the others before or after it
(`Runs.getOrRegister_agrees`): the step by which it returns does what the whole call would do there,
and its other steps do nothing to the registry.
-/

namespace ComputeCore.KernelRegistry

section Filing
variable {registry : KernelRegistry} {name : String} {kernel existing : Kernel}

theorem fileIfAbsent_of_bound (h : registry.find? name = some existing) (kernel : Kernel) :
    registry.fileIfAbsent name kernel = (existing, registry) := by
  simp only [fileIfAbsent, h]

theorem fileIfAbsent_of_unbound (h : registry.find? name = none) (kernel : Kernel) :
    registry.fileIfAbsent name kernel = (kernel, { entries := registry.entries.insert name kernel }) := by
  simp only [fileIfAbsent, h]

theorem find?_fileIfAbsent (registry : KernelRegistry) (name : String) (kernel : Kernel) (other : String) :
    (registry.fileIfAbsent name kernel).2.find? other =
      if other = name then some (registry.fileIfAbsent name kernel).1 else registry.find? other := by
  cases h : registry.find? name with
  | some existing =>
    rw [fileIfAbsent_of_bound h]
    split
    · next heq => rw [heq, h]
    · rfl
  | none =>
    rw [fileIfAbsent_of_unbound h]
    exact Dict.find?_insert _ _ _ _

theorem find?_register (registry : KernelRegistry) (kernel : Kernel) (other : String) :
    (registry.register kernel).find? other = if other = kernel.name then some kernel else registry.find? other :=
  Dict.find?_insert _ _ _ _

theorem find?_remove (registry : KernelRegistry) (name other : String) :
    (registry.remove name).2.find? other = if other = name then none else registry.find? other :=
  Dict.find?_erase _ _ _

/-- What a call of `getOrRegister` does to the registry if nobody comes in between. -/
def Atomically (registry : KernelRegistry) (name : String) (kernel : Kernel) (registry' : KernelRegistry) :
    Prop :=
  ∃ build asked, registry.getOrRegister name build = .ok (kernel, asked, registry')

theorem atomically_of_bound (h : registry.find? name = some kernel) :
    registry.Atomically name kernel registry :=
  ⟨.ok kernel, false, by simp only [getOrRegister, h]⟩

theorem atomically_fileIfAbsent (registry : KernelRegistry) (name : String) (built : Kernel) :
    registry.Atomically name (registry.fileIfAbsent name built).1 (registry.fileIfAbsent name built).2 := by
  cases h : registry.find? name with
  | some existing =>
    rw [fileIfAbsent_of_bound h]
    exact atomically_of_bound h
  | none => exact ⟨.ok built, true, by simp only [getOrRegister, h]; rfl⟩

end Filing

/-! ## The calls -/

/-- How far a call of `getOrRegister` has come. -/
inductive LookupStage where
  | looking
  /-- It has found nothing. -/
  | building
  | filing (built : Kernel)
  | returned (kernel : Kernel)
  /-- Building has failed. -/
  | faulted (fault : Fault)

/-- The most steps the call has before it. -/
def LookupStage.left : LookupStage → Nat
  | .looking => 3
  | .building => 2
  | .filing _ => 1
  | .returned _ | .faulted _ => 0

/-- A call of `getOrRegister`. -/
structure Lookup where
  name : String
  stage : LookupStage := .looking

/-- One step of a call: what becomes of the registry, and of the call. -/
inductive LookupStep (registry : KernelRegistry) (name : String) :
    LookupStage → KernelRegistry → LookupStage → Prop
  | find {kernel : Kernel} (bound : registry.find? name = some kernel) :
      LookupStep registry name .looking registry (.returned kernel)
  | miss (unbound : registry.find? name = none) : LookupStep registry name .looking registry .building
  | build (built : Kernel) : LookupStep registry name .building registry (.filing built)
  | fault (fault : Fault) : LookupStep registry name .building registry (.faulted fault)
  | file (built : Kernel) :
      LookupStep registry name (.filing built) (registry.fileIfAbsent name built).2
        (.returned (registry.fileIfAbsent name built).1)

namespace LookupStep

variable {registry registry' : KernelRegistry} {name : String} {stage stage' : LookupStage}

/-- No step of a call replaces or removes an entry. -/
theorem kept (h : LookupStep registry name stage registry' stage') {other : String} {kernel : Kernel}
    (hbound : registry.find? other = some kernel) : registry'.find? other = some kernel := by
  cases h with
  | find | miss | build | fault => exact hbound
  | file built =>
    rw [find?_fileIfAbsent]
    split
    · next heq =>
      subst heq
      rw [fileIfAbsent_of_bound hbound]
    · exact hbound

theorem left_lt (h : LookupStep registry name stage registry' stage') : stage'.left < stage.left := by
  cases h <;> simp [LookupStage.left]

/-- The step by which a call returns does all of its work, the others nothing. -/
theorem effect (h : LookupStep registry name stage registry' stage') :
    (∃ kernel, stage' = .returned kernel ∧ registry.Atomically name kernel registry' ∧
      registry'.find? name = some kernel) ∨
    (∀ kernel, stage' ≠ .returned kernel) ∧ registry' = registry := by
  cases h with
  | @find kernel bound => exact .inl ⟨kernel, rfl, atomically_of_bound bound, bound⟩
  | miss | build | fault => exact .inr ⟨nofun, rfl⟩
  | file built =>
    refine .inl ⟨_, rfl, atomically_fileIfAbsent registry name built, ?_⟩
    rw [find?_fileIfAbsent, if_pos rfl]

/-- Whatever the registry holds, a call that is not over can go on. -/
theorem exists_of_left (registry : KernelRegistry) (name : String) (h : stage.left ≠ 0) :
    ∃ registry' stage', LookupStep registry name stage registry' stage' ∧ ∀ fault, stage' ≠ .faulted fault := by
  cases stage with
  | looking =>
    cases hfind : registry.find? name with
    | some kernel => exact ⟨registry, _, .find hfind, nofun⟩
    | none => exact ⟨registry, _, .miss hfind, nofun⟩
  | building => exact ⟨registry, _, .build default, nofun⟩
  | filing built => exact ⟨_, _, .file built, nofun⟩
  | returned | faulted => exact absurd rfl h

end LookupStep

/-! ## All calls on one registry -/

/-- A registry, and the calls of `getOrRegister` on it in the order in which they began. -/
structure Traffic where
  registry : KernelRegistry
  lookups : List Lookup := []
  deriving Inhabited

/-- What some thread does next. -/
inductive Action where
  | begin (name : String)
  | advance (n : Nat)
  | register (kernel : Kernel)
  | remove (name : String)

/-- The action registers or removes this name. -/
def Action.Disturbs (name : String) : Action → Prop
  | .register kernel => kernel.name = name
  | .remove other => other = name
  | .begin _ | .advance _ => False

/-- The call whose step this is. -/
def Action.caller? : Action → Option Nat
  | .advance n => some n
  | .begin _ | .register _ | .remove _ => none

namespace Traffic

inductive Step (traffic : Traffic) : Action → Traffic → Prop
  | begin (name : String) :
      Step traffic (.begin name) { traffic with lookups := traffic.lookups ++ [{ name }] }
  | advance {n : Nat} {name : String} {stage stage' : LookupStage} {registry : KernelRegistry}
      (here : traffic.lookups[n]? = some { name, stage })
      (step : LookupStep traffic.registry name stage registry stage') :
      Step traffic (.advance n)
        { registry, lookups := traffic.lookups.set n { name, stage := stage' } }
  | register (kernel : Kernel) :
      Step traffic (.register kernel) { traffic with registry := traffic.registry.register kernel }
  | remove (name : String) :
      Step traffic (.remove name) { traffic with registry := (traffic.registry.remove name).2 }

section Steps
variable {traffic traffic' : Traffic} {action : Action} {n : Nat} {name : String} {stage : LookupStage}
  {kernel : Kernel}

/-- An entry stays until its name is registered or removed. -/
theorem Step.kept (h : Step traffic action traffic') (hquiet : ¬ action.Disturbs name)
    (hbound : traffic.registry.find? name = some kernel) : traffic'.registry.find? name = some kernel := by
  cases h with
  | begin => exact hbound
  | advance here step => exact step.kept hbound
  | register other =>
    rw [find?_register, if_neg fun heq => hquiet heq.symm]
    exact hbound
  | remove other =>
    rw [find?_remove, if_neg fun heq => hquiet heq.symm]
    exact hbound

/-- A call takes steps of its own, and nothing else changes it. -/
theorem Step.lookup (h : Step traffic action traffic') (here : traffic.lookups[n]? = some { name, stage }) :
    (action.caller? ≠ some n ∧ traffic'.lookups[n]? = some { name, stage }) ∨
    (action.caller? = some n ∧ ∃ stage', traffic'.lookups[n]? = some { name, stage := stage' } ∧
      LookupStep traffic.registry name stage traffic'.registry stage') := by
  cases h with
  | begin =>
    refine .inl ⟨nofun, ?_⟩
    rw [List.getElem?_append_left (List.getElem?_eq_some_iff.1 here).1, here]
  | register | remove => exact .inl ⟨nofun, here⟩
  | @advance m other stage₀ stage' registry here' step =>
    by_cases heq : m = n
    · subst heq
      obtain ⟨rfl, rfl⟩ := Lookup.mk.inj (Option.some.inj (here.symm.trans here'))
      refine .inr ⟨rfl, stage', ?_, step⟩
      exact List.getElem?_set_self (List.getElem?_eq_some_iff.1 here).1
    · refine .inl ⟨fun hcaller => heq (Option.some.inj hcaller), ?_⟩
      rwa [List.getElem?_set_ne heq]

/-- At the moment it returns, the kernel a call returns is filed. -/
theorem Step.returned (h : Step traffic action traffic')
    (hreturned : traffic'.lookups[n]? = some { name, stage := .returned kernel }) :
    traffic.lookups[n]? = some { name, stage := .returned kernel } ∨
      traffic'.registry.find? name = some kernel := by
  cases h with
  | begin other =>
    rw [List.getElem?_append] at hreturned
    split at hreturned
    · exact .inl hreturned
    · cases List.mem_singleton.1 (List.mem_of_getElem? hreturned)
  | register | remove => exact .inl hreturned
  | @advance m other stage stage' registry here step =>
    by_cases heq : m = n
    · subst heq
      rw [List.getElem?_set_self (List.getElem?_eq_some_iff.1 here).1] at hreturned
      obtain ⟨rfl, rfl⟩ := Lookup.mk.inj (Option.some.inj hreturned)
      obtain ⟨_, hkernel, _, hbound⟩ | ⟨hnone, _⟩ := step.effect
      · exact .inr (LookupStage.returned.inj hkernel ▸ hbound)
      · exact absurd rfl (hnone kernel)
    · exact .inl (by rwa [List.getElem?_set_ne heq] at hreturned)

/-- A call that nobody interrupts does what `getOrRegister` does. -/
theorem advance_alone (here : traffic.lookups[n]? = some { name }) (build : Except Fault Kernel) :
    ∃ stage registry, Relation.ReflTransGen (Step · (.advance n) ·) traffic
        { registry, lookups := traffic.lookups.set n { name, stage } } ∧
      match traffic.registry.getOrRegister name build with
      | .ok (kernel, _, registry') => stage = .returned kernel ∧ registry = registry'
      | .error fault => stage = .faulted fault ∧ registry = traffic.registry := by
  have hnext : ∀ {stage stage' registry registry'}, LookupStep registry name stage registry' stage' →
      Step { registry, lookups := traffic.lookups.set n { name, stage } } (.advance n)
        { registry := registry', lookups := traffic.lookups.set n { name, stage := stage' } } := by
    intro stage stage' registry registry' step
    have hstep : Step { registry, lookups := traffic.lookups.set n { name, stage } } (.advance n) _ :=
      .advance (List.getElem?_set_self (List.getElem?_eq_some_iff.1 here).1) step
    rwa [List.set_set] at hstep
  cases hfind : traffic.registry.find? name with
  | some kernel =>
    refine ⟨_, _, .single (.advance here (.find hfind)), ?_⟩
    simp only [getOrRegister, hfind, and_self]
  | none =>
    have hmiss := Step.advance here (.miss hfind)
    cases build with
    | error fault =>
      refine ⟨_, _, .tail (.single hmiss) (hnext (.fault fault)), ?_⟩
      simp only [getOrRegister, hfind, bind, Except.bind, and_self]
    | ok built =>
      refine ⟨_, _, .tail (.tail (.single hmiss) (hnext (.build built))) (hnext (.file built)), ?_⟩
      simp only [getOrRegister, hfind, bind, Except.bind, pure, Except.pure, and_self]

end Steps

end Traffic

/-! ## Runs -/

/-- The calls go on step by step, each step by whichever thread comes next. -/
def Runs (traffic : Nat → Traffic) (action : Nat → Action) (steps : Nat) : Prop :=
  ∀ t < steps, (traffic t).Step (action t) (traffic (t + 1))

/-- How many steps between these moments were the call's own. -/
def ownSteps (action : Nat → Action) (n first last : Nat) : Nat :=
  ∑ t ∈ Finset.Ico first last, if (action t).caller? = some n then 1 else 0

/-- Between these moments the call does all that `getOrRegister` would do at moment `t`, and nothing else. -/
structure TakesEffect (traffic : Nat → Traffic) (action : Nat → Action) (n : Nat) (name : String)
    (kernel : Kernel) (first last t : Nat) : Prop where
  begun : first ≤ t
  ended : t < last
  own : (action t).caller? = some n
  atomically : (traffic t).registry.Atomically name kernel (traffic (t + 1)).registry
  bound : (traffic (t + 1)).registry.find? name = some kernel
  others : ∀ s, first ≤ s → s < last → s ≠ t → (action s).caller? = some n →
    (traffic (s + 1)).registry = (traffic s).registry

/-- What becomes of a call between these moments. -/
structure Underway (traffic : Nat → Traffic) (action : Nat → Action) (n : Nat) (name : String)
    (stage : LookupStage) (first last : Nat) : Prop where
  here : (traffic last).lookups[n]? = some { name, stage }
  spent : ownSteps action n first last + stage.left ≤ 3
  effect : ∀ kernel, stage = .returned kernel → ∃ t, TakesEffect traffic action n name kernel first last t
  untouched : (∀ kernel, stage ≠ .returned kernel) → ∀ s, first ≤ s → s < last →
    (action s).caller? = some n → (traffic (s + 1)).registry = (traffic s).registry

section Runs
variable {traffic : Nat → Traffic} {action : Nat → Action} {steps first last n : Nat} {name : String}
  {stage : LookupStage} {kernel : Kernel}

theorem ownSteps_succ (h : first ≤ last) :
    ownSteps action n first (last + 1) =
      ownSteps action n first last + if (action last).caller? = some n then 1 else 0 :=
  Finset.sum_Ico_succ_top h _

theorem underway_start (here : (traffic first).lookups[n]? = some { name }) :
    Underway traffic action n name .looking first first where
  here := here
  spent := by simp [ownSteps, LookupStage.left]
  effect := nofun
  untouched _ s hfirst hlast := absurd hlast (by omega)

theorem Underway.pass (h : Underway traffic action n name stage first last) (hle : first ≤ last)
    (hcaller : (action last).caller? ≠ some n) (here : (traffic (last + 1)).lookups[n]? = some { name, stage }) :
    Underway traffic action n name stage first (last + 1) := by
  have hother : ∀ s, s < last + 1 → (action s).caller? = some n → s < last := fun s hs hown => by
    rcases Nat.lt_succ_iff_lt_or_eq.1 hs with hlt | rfl
    · exact hlt
    · exact absurd hown hcaller
  refine ⟨here, ?_, fun kernel hstage => ?_, fun hstage s hfirst hs hown => ?_⟩
  · rw [ownSteps_succ hle, if_neg hcaller]
    exact h.spent
  · obtain ⟨t, ht⟩ := h.effect kernel hstage
    exact ⟨t, ht.begun, Nat.lt_succ_of_lt ht.ended, ht.own, ht.atomically, ht.bound,
      fun s hfirst hs hne hown => ht.others s hfirst (hother s hs hown) hne hown⟩
  · exact h.untouched hstage s hfirst (hother s hs hown) hown

theorem Underway.advance {stage' : LookupStage} (h : Underway traffic action n name stage first last)
    (hle : first ≤ last) (hcaller : (action last).caller? = some n)
    (here : (traffic (last + 1)).lookups[n]? = some { name, stage := stage' })
    (hstep : LookupStep (traffic last).registry name stage (traffic (last + 1)).registry stage') :
    Underway traffic action n name stage' first (last + 1) := by
  have hleft := hstep.left_lt
  -- A call that has returned takes no further step.
  have hopen : ∀ kernel, stage ≠ .returned kernel := by
    rintro kernel rfl
    exact absurd hleft (Nat.not_lt_zero _)
  have hbefore : ∀ s, first ≤ s → s < last + 1 → s ≠ last → (action s).caller? = some n →
      (traffic (s + 1)).registry = (traffic s).registry := fun s hfirst hs hne =>
    h.untouched hopen s hfirst (by omega)
  refine ⟨here, ?_, fun kernel hstage => ?_, fun hstage s hfirst hs hown => ?_⟩
  · have hspent := h.spent
    rw [ownSteps_succ hle, if_pos hcaller]
    omega
  · obtain ⟨returned, hreturned, hatom, hbound⟩ | ⟨hnone, _⟩ := hstep.effect
    · obtain rfl : returned = kernel := LookupStage.returned.inj (hreturned.symm.trans hstage)
      exact ⟨last, hle, Nat.lt_succ_self last, hcaller, hatom, hbound, hbefore⟩
    · exact absurd hstage (hnone kernel)
  · obtain ⟨returned, hreturned, _⟩ | ⟨_, hsame⟩ := hstep.effect
    · exact absurd hreturned (hstage returned)
    · by_cases heq : s = last
      · rw [heq, hsame]
      · exact hbefore s hfirst hs heq hown

theorem Runs.underway (run : Runs traffic action steps) (here : (traffic first).lookups[n]? = some { name })
    (hle : first ≤ last) (hlast : last ≤ steps) :
    ∃ stage, Underway traffic action n name stage first last := by
  induction last, hle using Nat.le_induction with
  | base => exact ⟨_, underway_start here⟩
  | succ last hle ih =>
    obtain ⟨stage, h⟩ := ih (by omega)
    obtain ⟨hcaller, hsame⟩ | ⟨hcaller, stage', hnew, hstep⟩ := (run last hlast).lookup h.here
    · exact ⟨stage, h.pass hle hcaller hsame⟩
    · exact ⟨stage', h.advance hle hcaller hnew hstep⟩

/-- As long as nobody registers or removes the name, whatever a call returns is filed and stays so. -/
theorem Runs.returned_bound (run : Runs traffic action steps) (hle : first ≤ last) (hlast : last ≤ steps)
    (hquiet : ∀ t, first ≤ t → t < last → ¬ (action t).Disturbs name)
    (hopen : (traffic first).lookups[n]? ≠ some { name, stage := .returned kernel })
    (hreturned : (traffic last).lookups[n]? = some { name, stage := .returned kernel }) :
    (traffic last).registry.find? name = some kernel := by
  induction last, hle using Nat.le_induction with
  | base => exact absurd hreturned hopen
  | succ last hle ih =>
    obtain hold | hbound := (run last hlast).returned hreturned
    · have hbound := ih (by omega) (fun t hfirst ht => hquiet t hfirst (by omega)) hold
      exact (run last hlast).kept (hquiet last hle (Nat.lt_succ_self last)) hbound
    · exact hbound

/-- However the steps of the calls fall:

* an entry stays under its name until that name is registered or removed, so no step of `getOrRegister`
  replaces one;
* a call of `getOrRegister` takes at most three steps of its own and is never in want of one until it is
  over, and the kernel it returns was filed under the name at the moment it took effect, between its begin and
  its end;
* while nobody registers or removes a name, all calls for it that return give the one kernel that is then
  filed. -/
theorem Runs.getOrRegister_agrees (run : Runs traffic action steps) :
    (∀ t < steps, ∀ (name : String) (kernel : Kernel), ¬ (action t).Disturbs name →
      (traffic t).registry.find? name = some kernel → (traffic (t + 1)).registry.find? name = some kernel) ∧
    (∀ (n : Nat) (name : String) (first last : Nat), first ≤ last → last ≤ steps →
      (traffic first).lookups[n]? = some { name } →
      ∃ stage, (traffic last).lookups[n]? = some { name, stage } ∧
        ownSteps action n first last + stage.left ≤ 3 ∧
        (stage.left ≠ 0 → ∃ stage' traffic', (traffic last).Step (.advance n) traffic' ∧
          traffic'.lookups[n]? = some { name, stage := stage' } ∧ ∀ fault, stage' ≠ .faulted fault) ∧
        ∀ kernel, stage = .returned kernel → ∃ t, TakesEffect traffic action n name kernel first last t) ∧
    (∀ (name : String) (first last : Nat), first ≤ last → last ≤ steps →
      (∀ t, first ≤ t → t < last → ¬ (action t).Disturbs name) →
      ∀ (n : Nat) (kernel : Kernel), (traffic first).lookups[n]? ≠ some { name, stage := .returned kernel } →
        (traffic last).lookups[n]? = some { name, stage := .returned kernel } →
        (traffic last).registry.find? name = some kernel) := by
  refine ⟨fun t ht name kernel => (run t ht).kept, fun n name first last hle hlast here => ?_,
    fun name first last hle hlast hquiet n kernel => run.returned_bound hle hlast hquiet⟩
  obtain ⟨stage, h⟩ := run.underway here hle hlast
  refine ⟨stage, h.here, h.spent, fun hleft => ?_, h.effect⟩
  obtain ⟨registry', stage', hstep, hfault⟩ :=
    LookupStep.exists_of_left (traffic last).registry name hleft
  exact ⟨stage', _, .advance h.here hstep,
    List.getElem?_set_self (List.getElem?_eq_some_iff.1 h.here).1, hfault⟩

/-- Two calls that both find nothing and build a kernel each. The one that comes last to file its kernel gets
that of the other. -/
theorem getOrRegister_agrees_rivals : ∃ traffic action one two, Runs traffic action 7 ∧
    (traffic 0).lookups = [{ name := "k" }, { name := "k" }] ∧
    (traffic 4).lookups = [{ name := "k", stage := .filing one }, { name := "k", stage := .filing two }] ∧
    one.name ≠ two.name ∧ (traffic 7).registry.find? "k" = some two ∧
    (∃ t, TakesEffect traffic action 0 "k" two 0 7 t) ∧ ∃ t, TakesEffect traffic action 1 "k" two 0 7 t := by
  let one : Kernel := { (default : Kernel) with name := "one" }
  let two : Kernel := { (default : Kernel) with name := "two" }
  let filed : KernelRegistry := (KernelRegistry.fileIfAbsent {} "k" two).2
  let calls (stage stage' : LookupStage) : List Lookup := [{ name := "k", stage }, { name := "k", stage := stage' }]
  let states : List Traffic := [
    { registry := {}, lookups := calls .looking .looking },
    { registry := {}, lookups := calls .building .looking },
    { registry := {}, lookups := calls .building .building },
    { registry := {}, lookups := calls (.filing one) .building },
    { registry := {}, lookups := calls (.filing one) (.filing two) },
    { registry := filed, lookups := calls (.filing one) (.returned two) },
    { registry := filed.register one, lookups := calls (.filing one) (.returned two) },
    { registry := filed.register one, lookups := calls (.returned two) (.returned two) }]
  let actions : List Action :=
    [.advance 0, .advance 1, .advance 0, .advance 1, .advance 1, .register one, .advance 0]
  have hfiled : (filed.register one).find? "k" = some two := by
    rw [find?_register, if_neg (by decide), find?_fileIfAbsent, if_pos rfl]
    rfl
  have hlast := fileIfAbsent_of_bound hfiled one
  have hrun : Runs (fun t => states.getD t default) (fun t => actions.getD t (.begin "")) 7 := by
    intro t ht
    match t, ht with
    | 0, _ => exact .advance (n := 0) rfl (.miss rfl)
    | 1, _ => exact .advance (n := 1) rfl (.miss rfl)
    | 2, _ => exact .advance (n := 0) rfl (.build one)
    | 3, _ => exact .advance (n := 1) rfl (.build two)
    | 4, _ => exact .advance (n := 1) rfl (.file two)
    | 5, _ => exact .register one
    | 6, _ =>
      have hstep : Traffic.Step (states.getD 6 default) (.advance 0) _ := .advance (n := 0) rfl (.file one)
      rwa [show (states.getD 6 default).registry = filed.register one from rfl, hlast] at hstep
  obtain ⟨_, hcalls, hagree⟩ := hrun.getOrRegister_agrees
  obtain ⟨stage, hstage, -, -, heffect⟩ := hcalls 0 "k" 0 7 (by decide) (by decide) rfl
  obtain ⟨stage', hstage', -, -, heffect'⟩ := hcalls 1 "k" 0 7 (by decide) (by decide) rfl
  obtain rfl : .returned two = stage := congrArg Lookup.stage (Option.some.inj hstage)
  obtain rfl : .returned two = stage' := congrArg Lookup.stage (Option.some.inj hstage')
  refine ⟨_, _, one, two, hrun, rfl, rfl, by decide, ?_, heffect two rfl, heffect' two rfl⟩
  refine hagree "k" 0 7 (by decide) (by decide) (fun t _ ht => ?_) 0 two nofun rfl
  match t, ht with
  | 0, _ | 1, _ | 2, _ | 3, _ | 4, _ | 6, _ => exact id
  | 5, _ => exact (by decide : ¬ one.name = "k")

end Runs

end ComputeCore.KernelRegistry
