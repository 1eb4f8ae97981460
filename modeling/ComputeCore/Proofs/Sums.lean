import Mathlib.Algebra.GroupWithZero.Nat
/-!
# Sums over lists

A total is kept by replacing one summand at a time.
-/

namespace ComputeCore

variable {α : Type} {list : List α} {n : Nat} {old : α}

/-- Replacing one element of a list changes a sum over it by the difference of the two. -/
theorem foldr_set (weight : α → Nat) (base : Nat) (new : α) (h : list[n]? = some old) :
    (list.set n new).foldr (fun x sum => weight x + sum) base + weight old =
      list.foldr (fun x sum => weight x + sum) base + weight new := by
  induction list generalizing n with
  | nil => simp at h
  | cons head tail ih =>
    cases n with
    | zero =>
      obtain rfl : head = old := by simpa using h
      simp only [List.set_cons_zero, List.foldr_cons]
      omega
    | succ n =>
      have := ih (n := n) (by simpa using h)
      simp only [List.set_cons_succ, List.foldr_cons]
      omega

theorem sum_map_set (weight : α → Nat) (new : α) (h : list[n]? = some old) :
    ((list.set n new).map weight).sum + weight old = (list.map weight).sum + weight new := by
  simpa only [List.sum, List.foldr_map] using foldr_set weight 0 new h

end ComputeCore
