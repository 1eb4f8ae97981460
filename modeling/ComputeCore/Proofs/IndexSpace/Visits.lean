import Mathlib.Data.List.Nodup
import ComputeCore.Proofs.IndexSpace.Steps
/-!
# Visiting an index space

`Cursor.Visits` is what a loop over `Cursor.next?` gets to see. From the first work-item of an index
space it sees `IndexSpace.items`, the places of the space in the order of groups and of items in a
group (`first_visits`), and no place twice (`items_nodup`).
-/

namespace ComputeCore

/-- The work-items a cursor visits, from the one it is on to the last one. -/
inductive Cursor.Visits : Cursor → List ItemId → Prop
  | ended {cursor : Cursor} : cursor.next? = none → cursor.Visits []
  | next {cursor following : Cursor} {item : ItemId} {items : List ItemId} :
      cursor.next? = some (item, following) → following.Visits items → cursor.Visits (item :: items)

namespace IndexSpace

/-- The work-items, group by group. -/
def items (space : IndexSpace) : List ItemId :=
  (List.range space.count).map fun n => (space.placeAt n).item

section Visits
variable {space : IndexSpace}

/-! ## The whole visit -/

theorem next?_placeAt (h : space.WellFormed) (hcount : space.count < Size.limit) {n : Nat}
    (hn : n < space.count) :
    (space.placeAt n).next? = some ((space.placeAt n).item, space.after (n + 1)) := by
  have hspills := Radix.not_spills (radices_pos h) (show n + 1 < Size.limit by omega)
  simp [Cursor.next?, atEnd_placeAt h, advance_placeAt h hn hspills]

theorem visits_placeAt (h : space.WellFormed) (hcount : space.count < Size.limit) (rest : Nat) :
    ∀ n, n + (rest + 1) = space.count → (space.placeAt n).Visits
      ((List.range' n (rest + 1)).map fun n => (space.placeAt n).item) := by
  induction rest with
  | zero =>
    intro n hn
    have hnext := next?_placeAt h hcount (show n < space.count by omega)
    rw [after_of_le (by omega)] at hnext
    exact .next hnext (.ended (by simp [Cursor.next?, atEnd_sentinel]))
  | succ rest ih =>
    intro n hn
    have hnext := next?_placeAt h hcount (show n < space.count by omega)
    rw [after_of_lt (by omega)] at hnext
    exact .next hnext (ih (n + 1) (by omega))

/-- From the first work-item a cursor visits the items of the space. -/
theorem first_visits (h : space.WellFormed) (hcount : space.count < Size.limit) :
    space.first.Visits space.items := by
  have hpos := h.count_pos
  have hvisits := visits_placeAt h hcount (space.count - 1) 0 (by omega)
  rwa [show space.count - 1 + 1 = space.count by omega, ← List.range_eq_range', placeAt_zero] at hvisits

/-- The position of a work-item is the number of those before it. -/
theorem position_place (h : space.WellFormed) (hcount : space.count < Size.limit) {group item : Nat}
    (hgroup : group < space.groupCounts.prod) (hitem : item < space.localSizes.prod) :
    (space.place group item).position = .ok (group * space.localSizes.prod + item) := by
  have hlocal := Nat.lt_of_le_of_lt h.localSizes_le_count hcount
  have hgroups := Nat.lt_of_le_of_lt h.groupCounts_le_count hcount
  have hlt := linear_lt_count hgroup hitem
  have hcursor : (space.place group item).space = space := rfl
  simp only [Cursor.position, atEnd_place h, Bool.false_eq_true, if_false, hcursor,
    groupLinear_place space item hgroup hgroups, localLinear_place space group hitem hlocal,
    h.itemsPerGroup_eq hlocal, bind, Except.bind]
  rw [Size.mul_eq_ok (by omega)]
  exact Size.add_eq_ok (by omega)

theorem item_place_inj {group item group' item' : Nat} (hgroup : group < space.groupCounts.prod)
    (hitem : item < space.localSizes.prod) (hgroup' : group' < space.groupCounts.prod)
    (hitem' : item' < space.localSizes.prod)
    (heq : (space.place group item).item = (space.place group' item').item) :
    group = group' ∧ item = item' := by
  simp only [Cursor.item, place, ItemId.mk.injEq] at heq
  rw [← Radix.amount_digits hgroup, ← Radix.amount_digits hitem, heq.1, heq.2,
    Radix.amount_digits hgroup', Radix.amount_digits hitem']
  exact ⟨rfl, rfl⟩

theorem mem_items {item : ItemId} : item ∈ space.items ↔ ∃ group < space.groupCounts.prod,
    ∃ index < space.localSizes.prod, (space.place group index).item = item := by
  constructor
  · intro hitem
    obtain ⟨n, hn, rfl⟩ := List.mem_map.1 hitem
    obtain ⟨group, index, rfl, hgroup, hindex⟩ := exists_linear (List.mem_range.1 hn)
    exact ⟨group, hgroup, index, hindex, by rw [placeAt_linear hindex]⟩
  · rintro ⟨group, hgroup, index, hindex, rfl⟩
    exact List.mem_map.2 ⟨group * space.localSizes.prod + index,
      List.mem_range.2 (linear_lt_count hgroup hindex), by rw [placeAt_linear hindex]⟩

theorem items_nodup (space : IndexSpace) : space.items.Nodup := by
  refine List.Nodup.map_on (fun a ha b hb heq => ?_) List.nodup_range
  obtain ⟨group, index, rfl, hgroup, hindex⟩ := exists_linear (List.mem_range.1 ha)
  obtain ⟨group', index', rfl, hgroup', hindex'⟩ := exists_linear (List.mem_range.1 hb)
  rw [placeAt_linear hindex, placeAt_linear hindex'] at heq
  obtain ⟨rfl, rfl⟩ := item_place_inj hgroup hindex hgroup' hindex' heq
  rfl

end Visits

end IndexSpace

end ComputeCore
