/-!
# Finite maps in insertion order

The runtime's tables are small and keyed by ids: objects to mappings, commands to statuses, names
to kernels. A `Dict` keeps its entries in the order their keys first came in; the operations below
never bind a key twice.

The main facts are the lookup laws of `insert` and `erase`: an update decides the value of its own
key and of no other.
-/

namespace ComputeCore

/-- A finite map from `κ` to `α`. -/
structure Dict (κ α : Type) where
  /-- The bindings, oldest key first. -/
  entries : List (κ × α) := []
  deriving DecidableEq

namespace Dict

variable {κ α : Type} [DecidableEq κ]

instance : Inhabited (Dict κ α) := ⟨{}⟩

/-- The value of the first binding of `key`. -/
def search (key : κ) : List (κ × α) → Option α
  | [] => none
  | entry :: rest => if entry.1 = key then some entry.2 else search key rest

/-- Updates the first binding of `key`, or appends one if there is none. -/
def store (key : κ) (value : α) : List (κ × α) → List (κ × α)
  | [] => [(key, value)]
  | entry :: rest => if entry.1 = key then (key, value) :: rest else entry :: store key value rest

/-- The map without bindings. -/
def empty : Dict κ α := {}

/-- The value bound to `key`. -/
def find? (dict : Dict κ α) (key : κ) : Option α :=
  search key dict.entries

/-- Whether `key` is bound. -/
def contains (dict : Dict κ α) (key : κ) : Bool :=
  (dict.find? key).isSome

/-- The value bound to `key`, or `fallback` if there is none. -/
def findD (dict : Dict κ α) (key : κ) (fallback : α) : α :=
  (dict.find? key).getD fallback

/-- Binds `key` to `value`, in place if the key is already bound. -/
def insert (dict : Dict κ α) (key : κ) (value : α) : Dict κ α :=
  { entries := store key value dict.entries }

/-- Drops the binding of `key`. -/
def erase (dict : Dict κ α) (key : κ) : Dict κ α :=
  { entries := dict.entries.filter (·.1 ≠ key) }

/-- The number of bindings. -/
def size (dict : Dict κ α) : Nat :=
  dict.entries.length

/-- The bound keys, oldest first. -/
def keys (dict : Dict κ α) : List κ :=
  dict.entries.map (·.1)

/-- Changes every value, dropping the bindings for which `f` answers none. -/
def filterMap (dict : Dict κ α) (f : α → Option α) : Dict κ α :=
  { entries := dict.entries.filterMap fun entry => (f entry.2).map (entry.1, ·) }

/-! ## Lookup after an update -/

theorem find?_insert_self (dict : Dict κ α) (key : κ) (value : α) :
    (dict.insert key value).find? key = some value := by
  show search key (store key value dict.entries) = some value
  induction dict.entries with
  | nil => simp [store, search]
  | cons entry rest ih =>
    by_cases h : entry.1 = key
    · simp [store, search, h]
    · simp [store, search, h, ih]

theorem find?_insert_other (dict : Dict κ α) {key other : κ} (value : α) (hne : other ≠ key) :
    (dict.insert key value).find? other = dict.find? other := by
  show search other (store key value dict.entries) = search other dict.entries
  induction dict.entries with
  | nil => simp [store, search, Ne.symm hne]
  | cons entry rest ih =>
    by_cases h : entry.1 = key
    · simp [store, search, h, Ne.symm hne]
    · simp [store, search, h, ih]

theorem find?_erase_self (dict : Dict κ α) (key : κ) : (dict.erase key).find? key = none := by
  show search key (dict.entries.filter (·.1 ≠ key)) = none
  induction dict.entries with
  | nil => rfl
  | cons entry rest ih =>
    by_cases h : entry.1 = key
    · simpa [h] using ih
    · simpa [h, search] using ih

theorem find?_erase_other (dict : Dict κ α) {key other : κ} (hne : other ≠ key) :
    (dict.erase key).find? other = dict.find? other := by
  show search other (dict.entries.filter (·.1 ≠ key)) = search other dict.entries
  induction dict.entries with
  | nil => rfl
  | cons entry rest ih =>
    by_cases h : entry.1 = key
    · have ho : ¬ entry.1 = other := fun e => hne (e.symm.trans h)
      simpa [h, search, ho, Ne.symm hne] using ih
    · by_cases ho : entry.1 = other
      · simp [search, ho, hne]
      · simpa [h, search, ho] using ih

end Dict

end ComputeCore
