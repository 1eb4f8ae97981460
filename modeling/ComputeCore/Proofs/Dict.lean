import Mathlib.Algebra.GroupWithZero.Nat
import Mathlib.Data.List.Nodup
import ComputeCore.Dict
/-!
# Finite maps with distinct keys

The operations of `Dict` keep its keys distinct. With distinct keys a lookup finds every binding, so
changing or dropping bindings does to each lookup what it does to the binding, and a sum over the
values changes by the value that comes or goes.
-/

namespace ComputeCore.Dict

variable {κ α : Type}

/-- No key is bound twice. -/
def Distinct (dict : Dict κ α) : Prop :=
  dict.keys.Nodup

/-- The sum of what the values weigh. -/
def total (weight : α → Nat) (dict : Dict κ α) : Nat :=
  (dict.entries.map fun entry => weight entry.2).sum

theorem distinct_empty : Distinct ({} : Dict κ α) := List.nodup_nil

theorem Distinct.filterMap {dict : Dict κ α} (h : dict.Distinct) (f : α → Option α) :
    (dict.filterMap f).Distinct := by
  refine List.Nodup.sublist (?_ : (dict.filterMap f).keys.Sublist dict.keys) h
  simp only [keys, Dict.filterMap]
  induction dict.entries with
  | nil => simp
  | cons entry rest ih =>
    cases hf : f entry.2 with
    | none => simpa [hf] using ih.cons entry.1
    | some value => simpa [hf] using ih

section Keys
variable [DecidableEq κ] {dict : Dict κ α} {key : κ} {value : α} {entries : List (κ × α)}

/-- The bindings of all other keys. -/
def without (dict : Dict κ α) (keys : List κ) : Dict κ α :=
  { entries := dict.entries.filter (·.1 ∉ keys) }

/-! ## Lookups -/

theorem find?_insert (dict : Dict κ α) (key other : κ) (value : α) :
    (dict.insert key value).find? other = if other = key then some value else dict.find? other := by
  by_cases h : other = key
  · rw [if_pos h, h, find?_insert_self]
  · rw [if_neg h, find?_insert_other dict value h]

theorem find?_erase (dict : Dict κ α) (key other : κ) :
    (dict.erase key).find? other = if other = key then none else dict.find? other := by
  by_cases h : other = key
  · rw [if_pos h, h, find?_erase_self]
  · rw [if_neg h, find?_erase_other dict h]

theorem find?_without (dict : Dict κ α) (keys : List κ) (other : κ) :
    (dict.without keys).find? other = if other ∈ keys then none else dict.find? other := by
  simp only [find?, without]
  induction dict.entries with
  | nil => simp [search]
  | cons entry rest ih =>
    by_cases hgone : entry.1 ∈ keys <;> by_cases hkey : entry.1 = other
    · simp_all
    · simpa [hgone, search, hkey] using ih
    · simp_all [search]
    · simpa [hgone, search, hkey] using ih

theorem search_eq_none_iff : search key entries = none ↔ key ∉ entries.map (·.1) := by
  induction entries with
  | nil => simp [search]
  | cons entry rest ih =>
    by_cases h : entry.1 = key
    · simp [search, h]
    · simp only [search, if_neg h, ih, List.map_cons, List.mem_cons, not_or]
      exact ⟨fun hrest => ⟨Ne.symm h, hrest⟩, fun hboth => hboth.2⟩

theorem mem_of_search (h : search key entries = some value) : (key, value) ∈ entries := by
  induction entries with
  | nil => simp [search] at h
  | cons entry rest ih =>
    by_cases hkey : entry.1 = key
    · obtain rfl : entry.2 = value := by simpa [search, hkey] using h
      exact List.mem_cons.2 (.inl (by rw [← hkey]))
    · exact List.mem_cons_of_mem _ (ih (by simpa [search, hkey] using h))

theorem Distinct.find?_filterMap (h : dict.Distinct) (f : α → Option α) (key : κ) :
    (dict.filterMap f).find? key = (dict.find? key).bind f := by
  obtain ⟨entries⟩ := dict
  induction entries with
  | nil => rfl
  | cons entry rest ih =>
    obtain ⟨hnew, hrest⟩ := List.nodup_cons.1 h
    have ih := ih hrest
    simp only [find?, Dict.filterMap] at ih ⊢
    by_cases hkey : entry.1 = key
    · -- Dropping the binding must not uncover another one of the same key.
      subst hkey
      rw [search_eq_none_iff.2 hnew] at ih
      cases hf : f entry.2 <;> simp_all [search]
    · cases hf : f entry.2 <;> simp_all [search]

/-! ## Distinct keys -/

theorem store_of_unbound (h : search key entries = none) :
    store key value entries = entries ++ [(key, value)] := by
  induction entries with
  | nil => rfl
  | cons entry rest ih =>
    by_cases hkey : entry.1 = key
    · simp [search, hkey] at h
    · simp only [search, if_neg hkey] at h
      simp [store, hkey, ih h]

theorem keys_store_of_bound (h : search key entries ≠ none) :
    (store key value entries).map (·.1) = entries.map (·.1) := by
  induction entries with
  | nil => simp [search] at h
  | cons entry rest ih =>
    by_cases hkey : entry.1 = key
    · simp [store, hkey]
    · simp only [search, if_neg hkey] at h
      simp [store, hkey, ih h]

theorem Distinct.insert (h : dict.Distinct) (key : κ) (value : α) : (dict.insert key value).Distinct := by
  unfold Distinct keys at *
  simp only [Dict.insert]
  by_cases hbound : search key dict.entries = none
  · have hnew := search_eq_none_iff.1 hbound
    rw [store_of_unbound hbound, List.map_append]
    refine List.nodup_append.2 ⟨h, by simp, ?_⟩
    intro a ha b hb heq
    obtain rfl : b = key := by simpa using hb
    exact hnew (heq ▸ ha)
  · rwa [keys_store_of_bound hbound]

theorem Distinct.without (h : dict.Distinct) (keys : List κ) : (dict.without keys).Distinct :=
  h.sublist (List.filter_sublist.map _)

theorem erase_eq_without (dict : Dict κ α) (key : κ) : dict.erase key = dict.without [key] := by
  simp [erase, Dict.without]

theorem without_without (dict : Dict κ α) (keys more : List κ) :
    (dict.without keys).without more = dict.without (keys ++ more) := by
  simp only [Dict.without, List.filter_filter, List.mem_append, not_or, Bool.decide_and]
  simp only [Bool.and_comm]

theorem without_nil (dict : Dict κ α) : dict.without [] = dict := by
  simp [Dict.without]

/-- Only which keys are dropped matters, not their order. -/
theorem without_congr {keys keys' : List κ} (dict : Dict κ α) (h : ∀ key, key ∈ keys ↔ key ∈ keys') :
    dict.without keys = dict.without keys' := by
  simp only [Dict.without, h]

theorem Distinct.erase (h : dict.Distinct) (key : κ) : (dict.erase key).Distinct :=
  erase_eq_without dict key ▸ h.without [key]

/-! ## Sizes and sums -/

theorem size_without_le (dict : Dict κ α) (keys : List κ) : (dict.without keys).size ≤ dict.size :=
  List.length_filter_le _ _

theorem size_erase_lt (h : dict.find? key = some value) : (dict.erase key).size < dict.size := by
  refine List.length_filter_lt_length_iff_exists.2 ⟨(key, value), mem_of_search h, ?_⟩
  simp

theorem size_insert (h : dict.find? key = none) (value : α) :
    (dict.insert key value).size = dict.size + 1 := by
  simp [size, Dict.insert, store_of_unbound h]

theorem total_insert (weight : α → Nat) (h : dict.find? key = none) (value : α) :
    (dict.insert key value).total weight = dict.total weight + weight value := by
  simp [total, Dict.insert, store_of_unbound h]

theorem erase_of_unbound (h : dict.find? key = none) : dict.erase key = dict := by
  have hnew := search_eq_none_iff.1 h
  have hkept : dict.entries.filter (·.1 ≠ key) = dict.entries := by
    refine List.filter_eq_self.2 fun entry hentry => ?_
    have hne : entry.1 ≠ key := fun heq => hnew (heq ▸ List.mem_map_of_mem hentry)
    simpa using hne
  simp only [Dict.erase, hkept]

theorem erase_insert (h : dict.find? key = none) (value : α) : (dict.insert key value).erase key = dict := by
  have hkept : dict.entries.filter (·.1 ≠ key) = dict.entries := congrArg entries (erase_of_unbound h)
  unfold Dict.erase Dict.insert
  rw [store_of_unbound h, List.filter_append, hkept]
  simp

theorem eq_empty_of_forall (h : ∀ key, dict.find? key = none) : dict = {} := by
  obtain ⟨entries⟩ := dict
  cases entries with
  | nil => rfl
  | cons entry rest =>
    have hfirst := h entry.1
    simp [find?, search] at hfirst

/-- Dropping a binding takes its weight away. -/
theorem Distinct.total_erase (h : dict.Distinct) (weight : α → Nat) (hkey : dict.find? key = some value) :
    (dict.erase key).total weight + weight value = dict.total weight := by
  obtain ⟨entries⟩ := dict
  induction entries with
  | nil => simp [find?, search] at hkey
  | cons entry rest ih =>
    obtain ⟨hnew, hrest⟩ := List.nodup_cons.1 h
    by_cases heq : entry.1 = key
    · subst heq
      obtain rfl : entry.2 = value := by simpa [find?, search] using hkey
      -- No other binding of the key is dropped with the first one.
      have hkept : Dict.erase ⟨rest⟩ entry.1 = ⟨rest⟩ := erase_of_unbound (search_eq_none_iff.2 hnew)
      simp only [Dict.erase, Dict.mk.injEq] at hkept
      simp only [total, Dict.erase, ne_eq, not_true_eq_false, decide_false, Bool.false_eq_true,
        not_false_eq_true, List.filter_cons_of_neg, List.map_cons, List.sum_cons] at hkept ⊢
      rw [hkept]
      omega
    · have ih := ih hrest (by simpa [find?, search, heq] using hkey)
      simp only [total, Dict.erase, ne_eq, heq, not_false_eq_true, decide_true,
        List.filter_cons_of_pos, List.map_cons, List.sum_cons] at ih ⊢
      omega

theorem Distinct.size_erase (h : dict.Distinct) (hkey : dict.find? key = some value) :
    (dict.erase key).size + 1 = dict.size := by
  simpa [total, size] using h.total_erase (fun _ => 1) hkey

theorem Distinct.le_total (h : dict.Distinct) (weight : α → Nat) (hkey : dict.find? key = some value) :
    weight value ≤ dict.total weight := by
  have := h.total_erase weight hkey
  omega

end Keys

end ComputeCore.Dict
