import Mathlib.Algebra.BigOperators.Group.List.Basic
import Mathlib.Algebra.Order.Ring.Nat
import ComputeCore.IndexSpace.Radix
/-!
# Numerals in mixed radix

What the checked operations on sizes and numerals come to. `Radix.amount` is the exact value of a
numeral, which is what `Radix.value` computes whenever it is a size (`Radix.value_eq_ok`); a numeral
whose digits are below their radices and its amount determine each other (`Radix.digits_amount`,
`Radix.amount_digits`). Adding to the digits of a number gives the digits of the sum, and carries out
how often the product of the radices goes into it, unless the addition spills: `Radix.Spills` says in
exact numbers that a digit and its carry are not a size (`Radix.addCarry_digits_of_spills`).
-/

namespace ComputeCore

/-! ## Checked sizes -/

namespace Size

theorem add_eq_ok {a b : Nat} (h : a + b < limit) : add a b = .ok (a + b) := by
  simp [add, h]

theorem mul_eq_ok {a b : Nat} (h : a * b < limit) : mul a b = .ok (a * b) := by
  simp [mul, h]

/-- The product of sizes that are not zero is computed whenever it is a size: no product on the way
is larger than the last one. -/
theorem foldlM_mul (sizes : List Nat) (hpos : ∀ size ∈ sizes, 0 < size) :
    ∀ acc, acc * sizes.prod < limit → sizes.foldlM mul acc = .ok (acc * sizes.prod) := by
  induction sizes with
  | nil => intro acc _; simp only [List.foldlM_nil, List.prod_nil, Nat.mul_one]; rfl
  | cons size sizes ih =>
    intro acc h
    rw [List.prod_cons, ← Nat.mul_assoc] at h
    have hrest : 0 < sizes.prod :=
      List.prod_pos_iff_forall_pos_nat.2 fun s hs => hpos s (by simp [hs])
    have hacc : acc * size < limit := Nat.lt_of_le_of_lt (Nat.le_mul_of_pos_right _ hrest) h
    rw [List.foldlM_cons, mul_eq_ok hacc, List.prod_cons, ← Nat.mul_assoc]
    exact ih (fun s hs => hpos s (by simp [hs])) _ h

/-- A product that is not a size is a fault, whatever comes after the factor that left the range. -/
theorem foldlM_mul_error (sizes : List Nat) :
    ∀ acc, acc < limit → limit ≤ acc * sizes.prod → sizes.foldlM mul acc = .error .mulOverflow := by
  induction sizes with
  | nil => intro acc hacc h; simp at h; omega
  | cons size sizes ih =>
    intro acc _ h
    rw [List.prod_cons, ← Nat.mul_assoc] at h
    rw [List.foldlM_cons]
    by_cases hnext : acc * size < limit
    · rw [mul_eq_ok hnext]
      exact ih _ hnext h
    · rw [mul, if_neg hnext]
      rfl

theorem product_eq_ok {sizes : List Nat} (hpos : ∀ size ∈ sizes, 0 < size)
    (h : sizes.prod < limit) : product sizes = .ok sizes.prod := by
  have := foldlM_mul sizes hpos 1 (by simpa using h)
  simpa [product] using this

/-- The product of sizes that are not zero is computed exactly when it is a size. -/
theorem product_eq {sizes : List Nat} (hpos : ∀ size ∈ sizes, 0 < size) :
    product sizes = if sizes.prod < limit then .ok sizes.prod else .error .mulOverflow := by
  split
  case isTrue h => exact product_eq_ok hpos h
  case isFalse h => exact foldlM_mul_error sizes 1 (by decide) (by omega)

end Size

/-! ## Rows and columns -/

theorem linear_lt {rows columns row column : Nat} (hrow : row < rows) (hcolumn : column < columns) :
    row * columns + column < rows * columns := by
  have : (row + 1) * columns ≤ rows * columns := Nat.mul_le_mul_right _ hrow
  rw [Nat.add_mul] at this
  omega

theorem linear_div {columns row column : Nat} (hcolumn : column < columns) :
    (row * columns + column) / columns = row := by
  rw [Nat.mul_comm, Nat.mul_add_div (by omega), Nat.div_eq_of_lt hcolumn, Nat.add_zero]

theorem linear_inj {columns row column row' column' : Nat} (hcolumn : column < columns)
    (hcolumn' : column' < columns) (h : row * columns + column = row' * columns + column') :
    row = row' ∧ column = column' := by
  have hrow := congrArg (· / columns) h
  have hplace := congrArg (· % columns) h
  simp only [linear_div hcolumn, linear_div hcolumn', Nat.mul_add_mod_of_lt hcolumn,
    Nat.mul_add_mod_of_lt hcolumn'] at hrow hplace
  exact ⟨hrow, hplace⟩

/-- What is carried out of a column goes to the whole columns before it. -/
theorem div_add_carry {columns : Nat} (hpos : 0 < columns) (n carry : Nat) :
    n / columns + (n % columns + carry) / columns = (n + carry) / columns := by
  rw [← Nat.mul_add_div hpos, ← Nat.add_assoc, Nat.div_add_mod]

/-! ## Digits -/

namespace Radix

theorem digits_zero (radices : List Nat) : digits radices 0 = radices.map fun _ => 0 := by
  induction radices with
  | nil => rfl
  | cons radix radices ih => simp [digits, ih]

/-- The exact value of the numeral `digits`, which need not be a size. -/
def amount : List Nat → List Nat → Nat
  | radix :: radices, digit :: digits => amount radices digits * radix + digit
  | _, _ => 0

theorem amount_lt {radices ds : List Nat} (h : List.Forall₂ (· < ·) ds radices) :
    amount radices ds < radices.prod := by
  induction h with
  | nil => simp [amount]
  | cons hdigit _ ih =>
    rw [List.prod_cons, Nat.mul_comm, amount]
    exact linear_lt ih hdigit

/-- A numeral has the digits of what it amounts to. -/
theorem digits_amount {radices ds : List Nat} (h : List.Forall₂ (· < ·) ds radices) :
    digits radices (amount radices ds) = ds := by
  induction h with
  | nil => rfl
  | cons hdigit _ ih => rw [amount, digits, Nat.mul_add_mod_of_lt hdigit, linear_div hdigit, ih]

/-- The digits of a number amount to it. -/
theorem amount_digits {radices : List Nat} {n : Nat} (h : n < radices.prod) :
    amount radices (digits radices n) = n := by
  induction radices generalizing n with
  | nil =>
    obtain rfl : n = 0 := by simpa using h
    rfl
  | cons radix radices ih =>
    rw [List.prod_cons] at h
    rw [digits, amount, ih (Nat.div_lt_of_lt_mul h), Nat.mul_comm, Nat.div_add_mod]

theorem digits_lt {radices : List Nat} (hpos : ∀ radix ∈ radices, 0 < radix) (n : Nat) :
    List.Forall₂ (· < ·) (digits radices n) radices := by
  induction radices generalizing n with
  | nil => exact .nil
  | cons radix radices ih =>
    exact .cons (Nat.mod_lt _ (hpos radix (by simp))) (ih (fun r hr => hpos r (by simp [hr])) _)

/-- A numeral that amounts to a size has a value: what its higher digits come to is never more. -/
theorem value_eq_ok {radices ds : List Nat} (hpos : ∀ radix ∈ radices, 0 < radix)
    (h : amount radices ds < Size.limit) : value radices ds = .ok (amount radices ds) := by
  induction radices generalizing ds with
  | nil => rfl
  | cons radix radices ih =>
    cases ds with
    | nil => rfl
    | cons digit ds =>
      rw [amount] at h
      have hscaled : amount radices ds * radix < Size.limit := by omega
      have hhigher : amount radices ds ≤ amount radices ds * radix :=
        Nat.le_mul_of_pos_right _ (hpos radix (by simp))
      rw [value, ih (fun r hr => hpos r (by simp [hr])) (by omega)]
      show (do let scaled ← Size.mul (amount radices ds) radix; Size.add scaled digit) = _
      rw [Size.mul_eq_ok hscaled]
      exact Size.add_eq_ok h

theorem radix_pos_of_lt_prod {radices : List Nat} {n : Nat} (h : n < radices.prod) :
    ∀ radix ∈ radices, 0 < radix :=
  List.prod_pos_iff_forall_pos_nat.1 (by omega)

theorem value_digits {radices : List Nat} {n : Nat} (h : n < radices.prod) (hn : n < Size.limit) :
    value radices (digits radices n) = .ok n := by
  rw [value_eq_ok (radix_pos_of_lt_prod h) (by rwa [amount_digits h]), amount_digits h]

/-! ## Carrying -/

theorem addCarry_zero (radices ds : List Nat) : addCarry radices ds 0 = some (ds, 0) := by
  cases radices <;> cases ds <;> simp [addCarry]

/-- Adding `carry` to the digits of `n` leaves the range of sizes on the way: in units of some digit,
what the digits up to this one and the carry come to is no size. -/
def Spills (radices : List Nat) (n carry : Nat) : Prop :=
  ∃ place < radices.length,
    Size.limit * (radices.take place).prod ≤ n % (radices.take (place + 1)).prod + carry

instance (radices : List Nat) (n carry : Nat) : Decidable (Spills radices n carry) :=
  inferInstanceAs (Decidable (∃ place, place < radices.length ∧ _))

theorem prod_take_pos {radices : List Nat} (hpos : ∀ radix ∈ radices, 0 < radix) (place : Nat) :
    0 < (radices.take place).prod :=
  List.prod_pos_iff_forall_pos_nat.2 fun radix hradix => hpos radix (List.mem_of_mem_take hradix)

theorem not_spills {radices : List Nat} {n carry : Nat} (hpos : ∀ radix ∈ radices, 0 < radix)
    (h : n + carry < Size.limit) : ¬ Spills radices n carry := by
  rintro ⟨place, -, hspill⟩
  have hunit := Nat.le_mul_of_pos_right Size.limit (prod_take_pos hpos place)
  have hmod := Nat.mod_le n (radices.take (place + 1)).prod
  omega

theorem Spills.mono {radices : List Nat} {n a b : Nat} (h : Spills radices n a) (hle : a ≤ b) :
    Spills radices n b := by
  obtain ⟨place, hplace, hspill⟩ := h
  exact ⟨place, hplace, by omega⟩

/-- What spills from further on spills from here over the longer distance. -/
theorem Spills.of_add {radices : List Nat} {n a b : Nat} (h : Spills radices (n + a) b) :
    Spills radices n (a + b) := by
  obtain ⟨place, hplace, hspill⟩ := h
  have hmod := Nat.mod_le (n % (radices.take (place + 1)).prod + a) (radices.take (place + 1)).prod
  rw [Nat.mod_add_mod] at hmod
  exact ⟨place, hplace, by omega⟩

/-- No single step spills: a digit and one more are at most its radix. -/
theorem not_spills_of_le_one {radices : List Nat} {carry : Nat}
    (hpos : ∀ radix ∈ radices, 0 < radix) (hlt : ∀ radix ∈ radices, radix < Size.limit)
    (hcarry : carry ≤ 1) (n : Nat) : ¬ Spills radices n carry := by
  rintro ⟨place, hplace, hspill⟩
  have hdigit := Nat.mod_lt n (prod_take_pos hpos (place + 1))
  have hradix := Nat.mul_le_mul_left (radices.take place).prod (hlt _ (List.getElem_mem hplace))
  rw [Nat.succ_eq_add_one, Nat.mul_add_one, ← List.prod_take_succ radices place hplace,
    Nat.mul_comm] at hradix
  have hunit := prod_take_pos hpos place
  omega

/-- An addition spills at its first digit, or later on. -/
theorem spills_cons {radix : Nat} {radices : List Nat} {n carry : Nat} (hpos : 0 < radix) :
    Spills (radix :: radices) n carry ↔ Size.limit ≤ n % radix + carry ∨
      Spills radices (n / radix) ((n % radix + carry) / radix) := by
  have hlater (place : Nat) :
      Size.limit * (radix * (radices.take place).prod) ≤
          n % (radix * (radices.take (place + 1)).prod) + carry ↔
        Size.limit * (radices.take place).prod ≤
          n / radix % (radices.take (place + 1)).prod + (n % radix + carry) / radix := by
    rw [Nat.mod_mul, Nat.add_right_comm, Nat.add_comm _ (_ / radix),
      ← Nat.add_mul_div_left _ _ hpos, Nat.le_div_iff_mul_le hpos, Nat.mul_left_comm, Nat.mul_comm radix]
  unfold Spills
  rw [List.length_cons, Nat.exists_lt_succ_left]
  simp only [List.take_zero, List.prod_nil, Nat.mul_one, List.take_succ_cons, List.prod_cons, hlater]

/-- An addition spills at the lower digits, or where these carry into the upper ones. -/
theorem spills_append {lower upper : List Nat} {n carry : Nat} (hpos : ∀ radix ∈ lower, 0 < radix) :
    Spills (lower ++ upper) n carry ↔ Spills lower (n % lower.prod) carry ∨
      Spills upper (n / lower.prod) ((n % lower.prod + carry) / lower.prod) := by
  induction lower generalizing n carry with
  | nil => simp [Spills, Nat.mod_one]
  | cons radix lower ih =>
    have hradix : 0 < radix := hpos radix (by simp)
    have hcarry : (n % (radix * lower.prod) + carry) / (radix * lower.prod) =
        (n / radix % lower.prod + (n % radix + carry) / radix) / lower.prod := by
      rw [← Nat.div_div_eq_div_mul, Nat.mod_mul, Nat.add_right_comm,
        Nat.add_mul_div_left _ _ hradix, Nat.add_comm (_ / radix)]
    rw [List.cons_append, spills_cons hradix, spills_cons hradix, or_assoc,
      ih (fun r hr => hpos r (by simp [hr])), List.prod_cons, Nat.div_div_eq_div_mul, hcarry,
      Nat.mod_mul_right_mod, Nat.mod_mul_right_div_self]

/-- Adding to the digits of a number gives the digits of the sum, and what does not fit them carries
out, as long as nothing spills. -/
theorem addCarry_digits_of_not_spills {radices : List Nat} {n carry : Nat} (h : n < radices.prod)
    (hspills : ¬ Spills radices n carry) :
    addCarry radices (digits radices n) carry =
      some (digits radices (n + carry), (n + carry) / radices.prod) := by
  induction radices generalizing n carry with
  | nil =>
    obtain rfl : n = 0 := by simpa using h
    simp [digits, addCarry]
  | cons radix radices ih =>
    have hpos : 0 < radix := radix_pos_of_lt_prod h radix (by simp)
    rw [List.prod_cons] at h
    rw [spills_cons hpos, not_or, Nat.not_le] at hspills
    by_cases hc : carry = 0
    · subst hc
      rw [addCarry_zero, Nat.add_zero, List.prod_cons, Nat.div_eq_of_lt h]
    · have hquot := div_add_carry hpos n carry
      have hrest := ih (Nat.div_lt_of_lt_mul h) hspills.2
      simp only [digits, addCarry, if_neg hc, if_pos hspills.1, hrest, hquot]
      simp [Nat.add_mod, Nat.div_div_eq_div_mul]

/-- No digit and its carry exceed the sum itself, so it is enough that the sum is a size. -/
theorem addCarry_digits {radices : List Nat} {n carry : Nat} (h : n < radices.prod)
    (hl : n + carry < Size.limit) :
    addCarry radices (digits radices n) carry =
      some (digits radices (n + carry), (n + carry) / radices.prod) :=
  addCarry_digits_of_not_spills h (not_spills (radix_pos_of_lt_prod h) hl)

/-- An addition that spills has no answer. -/
theorem addCarry_digits_of_spills {radices : List Nat} {n carry : Nat} (h : n < radices.prod)
    (hlt : ∀ radix ∈ radices, radix < Size.limit) (hspills : Spills radices n carry) :
    addCarry radices (digits radices n) carry = none := by
  induction radices generalizing n carry with
  | nil =>
    obtain ⟨place, hplace, -⟩ := hspills
    exact absurd hplace (Nat.not_lt_zero place)
  | cons radix radices ih =>
    have hpos := radix_pos_of_lt_prod h
    have hc : carry ≠ 0 := by
      rintro rfl
      exact not_spills_of_le_one hpos hlt (Nat.zero_le 1) n hspills
    rw [List.prod_cons] at h
    rw [spills_cons (hpos radix (by simp))] at hspills
    simp only [digits, addCarry, if_neg hc]
    by_cases hfirst : n % radix + carry < Size.limit
    · have hlater := hspills.resolve_left (Nat.not_le.2 hfirst)
      rw [if_pos hfirst, ih (Nat.div_lt_of_lt_mul h) (fun r hr => hlt r (by simp [hr])) hlater]
      rfl
    · rw [if_neg hfirst]

/-- The digits of a number say nothing about multiples of the product of the radices. -/
theorem digits_mod (radices : List Nat) (n : Nat) :
    digits radices (n % radices.prod) = digits radices n := by
  induction radices generalizing n with
  | nil => rfl
  | cons radix radices ih =>
    rw [List.prod_cons, digits, digits, Nat.mod_mul_right_mod, Nat.mod_mul_right_div_self, ih]

end Radix

end ComputeCore
