import Mathlib.Algebra.Order.Field.Basic
import Mathlib.Tactic.NormNum
import Optima.Proofs.Scalar.Arithmetic

/-!
Exact scalars: the numbers of an ordered field, two infinities, and an undefined value.

* `Elementary`: the constants and functions that a field may have beside its operations, where a
  function can be undefined at a number.
* `Exact`: the scalars over such a field. An infinity stands for a missing bound: it can be compared
  and moved by a number, and everything else that is done to it is undefined.
* `finite_add`, …, `finite_lt`: on numbers the operations are those of the field.
* `add_eq_finite`, …, `div_eq_finite`: an operation gives a number only on numbers.
* `mul_finite_or_undefined`: a product is never infinite.
* `max_eq_finite`, `min_eq_finite`: a number stays if the other one, also an infinity, is on its side.
* `lt_sub_finite`, …, `lt_abs_of_lt`: differences with numbers, and distances, in comparisons.
* `sum_map_finite`, `foldl_max_map_finite`: the sum and the largest of several numbers.
-/

namespace Optima

/-- The elementary functions on a field; `none` where a function is undefined. -/
class Elementary (F : Type) where
  pi : F
  euler : F
  sqrt : F → Option F
  sin : F → Option F
  cos : F → Option F
  tan : F → Option F
  exp : F → Option F
  ln : F → Option F
  pow : F → F → Option F

inductive Exact (F : Type)
  | finite (x : F)
  | infinite (negative : Bool)
  | undefined
  deriving DecidableEq, Repr

namespace Exact

variable {F : Type}

/-! ## Operations -/

/-- What a function that may be undefined gives. -/
def ofOption : Option F → Exact F
  | some x => finite x
  | none => undefined

def lift (f : F → Option F) : Exact F → Exact F
  | finite x => ofOption (f x)
  | _ => undefined

def lift₂ (f : F → F → Option F) : Exact F → Exact F → Exact F
  | finite x, finite y => ofOption (f x y)
  | _, _ => undefined

protected def neg [Neg F] : Exact F → Exact F
  | finite x => finite (-x)
  | infinite n => infinite !n
  | undefined => undefined

protected def add [Add F] : Exact F → Exact F → Exact F
  | finite x, finite y => finite (x + y)
  | finite _, infinite n => infinite n
  | infinite n, finite _ => infinite n
  | infinite n, infinite m => if n = m then infinite n else undefined
  | _, _ => undefined

protected def sub [Sub F] : Exact F → Exact F → Exact F
  | finite x, finite y => finite (x - y)
  | finite _, infinite n => infinite !n
  | infinite n, finite _ => infinite n
  | infinite n, infinite m => if n = m then undefined else infinite n
  | _, _ => undefined

/-! ## Order -/

def Less [LT F] : Exact F → Exact F → Prop
  | finite x, finite y => x < y
  | finite _, infinite n => n = false
  | infinite n, finite _ => n = true
  | infinite n, infinite m => n = true ∧ m = false
  | _, _ => False

def AtMost [LE F] : Exact F → Exact F → Prop
  | finite x, finite y => x ≤ y
  | finite _, infinite n => n = false
  | infinite n, finite _ => n = true
  | infinite n, infinite m => n = true ∨ m = false
  | _, _ => False

instance [LT F] [DecidableLT F] : (a b : Exact F) → Decidable (Less a b)
  | finite x, finite y => inferInstanceAs (Decidable (x < y))
  | finite _, infinite n => inferInstanceAs (Decidable (n = false))
  | infinite n, finite _ => inferInstanceAs (Decidable (n = true))
  | infinite n, infinite m => inferInstanceAs (Decidable (n = true ∧ m = false))
  | undefined, _ => inferInstanceAs (Decidable False)
  | finite _, undefined => inferInstanceAs (Decidable False)
  | infinite _, undefined => inferInstanceAs (Decidable False)

instance [LE F] [DecidableLE F] : (a b : Exact F) → Decidable (AtMost a b)
  | finite x, finite y => inferInstanceAs (Decidable (x ≤ y))
  | finite _, infinite n => inferInstanceAs (Decidable (n = false))
  | infinite n, finite _ => inferInstanceAs (Decidable (n = true))
  | infinite n, infinite m => inferInstanceAs (Decidable (n = true ∨ m = false))
  | undefined, _ => inferInstanceAs (Decidable False)
  | finite _, undefined => inferInstanceAs (Decidable False)
  | infinite _, undefined => inferInstanceAs (Decidable False)

variable [Field F] [LinearOrder F] [Elementary F]

instance : Scalar (Exact F) where
  zero := finite 0
  one := finite 1
  add := Exact.add
  sub := Exact.sub
  mul := lift₂ fun x y => some (x * y)
  div := lift₂ fun x y => if y = 0 then none else some (x / y)
  neg := Exact.neg
  lt := Less
  le := AtMost
  beq
    | finite x, finite y => decide (x = y)
    | infinite n, infinite m => n == m
    | _, _ => false
  decidableLT := fun a b => inferInstanceAs (Decidable (Less a b))
  decidableLE := fun a b => inferInstanceAs (Decidable (AtMost a b))
  ofDecimal digits exponent := finite ((digits : F) * (10 : F) ^ exponent)
  infinity := infinite false
  nan := undefined
  pi := finite Elementary.pi
  euler := finite Elementary.euler
  sqrt := lift Elementary.sqrt
  abs
    | finite x => finite |x|
    | infinite _ => infinite false
    | undefined => undefined
  sin := lift Elementary.sin
  cos := lift Elementary.cos
  tan := lift Elementary.tan
  exp := lift Elementary.exp
  ln := lift Elementary.ln
  pow := lift₂ Elementary.pow

/-! ## Numbers -/

section

variable (x y : F)

theorem zero_def : (0 : Exact F) = finite 0 := rfl
theorem one_def : (1 : Exact F) = finite 1 := rfl

@[simp] theorem finite_add : finite x + finite y = finite (x + y) := rfl
@[simp] theorem finite_sub : finite x - finite y = finite (x - y) := rfl
@[simp] theorem finite_mul : finite x * finite y = finite (x * y) := rfl
@[simp] theorem neg_finite : -finite x = finite (-x) := rfl
@[simp] theorem finite_lt : finite x < finite y ↔ x < y := Iff.rfl
@[simp] theorem finite_le : finite x ≤ finite y ↔ x ≤ y := Iff.rfl
@[simp] theorem finite_beq : (finite x == finite y) = decide (x = y) := rfl

theorem neg_eq_finite {a : Exact F} {x : F} : -a = finite x ↔ a = finite (-x) := by
  constructor
  · intro h
    cases a with
    | finite y =>
      cases h
      rw [neg_neg]
    | infinite n => cases h
    | undefined => cases h
  · rintro rfl
    rw [neg_finite, neg_neg]

theorem finite_div {y : F} (h : y ≠ 0) : finite x / finite y = finite (x / y) := by
  change ofOption (if y = 0 then none else some (x / y)) = _
  rw [if_neg h, ofOption]

theorem pow_finite {x y z : F} (h : Elementary.pow x y = some z) :
    Scalar.pow (finite x) (finite y) = finite z :=
  congrArg ofOption h

theorem ofDecimal_zero_exponent (n : ℕ) : (Scalar.ofDecimal n 0 : Exact F) = finite (n : F) := by
  change finite ((n : F) * (10 : F) ^ (0 : ℤ)) = finite (n : F)
  rw [zpow_zero, mul_one]

theorem two_def : (Scalar.two : Exact F) = finite 2 := by
  rw [Scalar.two, ofDecimal_zero_exponent, Nat.cast_ofNat]

theorem half_def [IsStrictOrderedRing F] : (Scalar.half : Exact F) = finite (1 / 2) := by
  change finite (((5 : ℕ) : F) * (10 : F) ^ (-1 : ℤ)) = _
  norm_num

end

/-! ## Comparison -/

@[simp] theorem finite_lt_infinite (x : F) (n : Bool) : finite x < infinite n ↔ n = false := Iff.rfl
@[simp] theorem infinite_lt_finite (x : F) (n : Bool) : infinite n < finite x ↔ n = true := Iff.rfl
@[simp] theorem infinite_lt_infinite (n m : Bool) :
    (infinite n : Exact F) < infinite m ↔ n = true ∧ m = false := Iff.rfl
@[simp] theorem finite_le_infinite (x : F) (n : Bool) : finite x ≤ infinite n ↔ n = false := Iff.rfl
@[simp] theorem infinite_le_finite (x : F) (n : Bool) : infinite n ≤ finite x ↔ n = true := Iff.rfl
@[simp] theorem infinite_le_infinite (n m : Bool) :
    (infinite n : Exact F) ≤ infinite m ↔ n = true ∨ m = false := Iff.rfl

@[simp] theorem not_undefined_lt (a : Exact F) : ¬ undefined < a := fun h => h

@[simp] theorem not_lt_undefined (a : Exact F) : ¬ a < undefined := by
  cases a <;> exact fun h => h

@[simp] theorem not_undefined_le (a : Exact F) : ¬ undefined ≤ a := fun h => h

@[simp] theorem not_le_undefined (a : Exact F) : ¬ a ≤ undefined := by
  cases a <;> exact fun h => h

@[simp] theorem isNaN_finite (x : F) : Scalar.isNaN (finite x) = false := by
  simp [Scalar.isNaN]

@[simp] theorem isNaN_infinite (n : Bool) : Scalar.isNaN (infinite n : Exact F) = false := by
  cases n <;> rfl

@[simp] theorem isNaN_undefined : Scalar.isNaN (undefined : Exact F) = true := rfl

theorem infinity_def : (Scalar.infinity : Exact F) = infinite false := rfl

theorem neg_infinite (n : Bool) : -(infinite n : Exact F) = infinite !n := rfl

theorem isFinite_iff {a : Exact F} : Scalar.isFinite a = true ↔ ∃ x, a = finite x := by
  cases a with
  | finite x => simp [Scalar.isFinite, infinity_def, neg_infinite]
  | infinite n => cases n <;> simp [Scalar.isFinite, infinity_def, neg_infinite]
  | undefined => simp [Scalar.isFinite]

@[simp] theorem isFinite_finite (x : F) : Scalar.isFinite (finite x) = true :=
  isFinite_iff.2 ⟨x, rfl⟩

@[simp] theorem isFinite_infinite (n : Bool) : Scalar.isFinite (infinite n : Exact F) = false :=
  Bool.eq_false_iff.2 fun h => nomatch isFinite_iff.1 h

@[simp] theorem infinite_beq (n m : Bool) :
    ((infinite n : Exact F) == infinite m) = (n == m) := rfl

@[simp] theorem finite_beq_infinite (x : F) (n : Bool) : (finite x == infinite n) = false := rfl

@[simp] theorem infinite_beq_finite (x : F) (n : Bool) : (infinite n == finite x) = false := rfl

@[simp] theorem undefined_beq (a : Exact F) : (undefined == a) = false := rfl

@[simp] theorem beq_undefined (a : Exact F) : (a == undefined) = false := by cases a <;> rfl

theorem beq_finite_iff {a : Exact F} {x : F} : (a == finite x) = true ↔ a = finite x := by
  cases a <;> simp

theorem max_finite (x y : F) : Scalar.max (finite x) (finite y) = finite (max x y) := by
  rw [Scalar.max]
  rcases lt_or_ge y x with h | h
  · simp [h, max_eq_left (le_of_lt h)]
  · simp [not_lt.2 h, max_eq_right h]

theorem min_finite (x y : F) : Scalar.min (finite x) (finite y) = finite (min x y) := by
  rw [Scalar.min]
  rcases lt_or_ge x y with h | h
  · simp [h, min_eq_left (le_of_lt h)]
  · simp [not_lt.2 h, min_eq_right h]

theorem max_undefined_finite (y : F) : Scalar.max undefined (finite y) = finite y := by
  simp [Scalar.max]

theorem min_undefined_left {a : Exact F} (h : Scalar.isNaN a = false) :
    Scalar.min undefined a = a := by
  simp [Scalar.min, h]

theorem max_eq_finite {a : Exact F} {z : F} (h : a ≤ finite z) :
    Scalar.max (finite z) a = finite z := by
  cases a with
  | finite y => rw [max_finite, max_eq_left h]
  | infinite n =>
    obtain rfl : n = true := h
    simp [Scalar.max]
  | undefined => exact absurd h (not_undefined_le _)

theorem min_eq_finite {a : Exact F} {z : F} (h : finite z ≤ a) :
    Scalar.min (finite z) a = finite z := by
  cases a with
  | finite y => rw [min_finite, min_eq_left h]
  | infinite n =>
    obtain rfl : n = false := h
    simp [Scalar.min]
  | undefined => exact absurd h (not_le_undefined _)

instance : Ordered (Exact F) where
  le_trans {a b c} hab hbc := by
    cases a <;> cases b <;> cases c <;> simp_all
    case finite.finite.finite => exact hab.trans hbc
    case infinite.infinite.infinite n m k => cases n <;> cases m <;> cases k <;> simp_all
  le_total {a b} ha hb := by
    cases a <;> cases b <;> simp_all [le_total]
    case infinite.infinite n m => cases n <;> cases m <;> simp
  defined_of_le {a b} h := by
    cases a <;> cases b <;> simp_all
  lt_iff {a b} := by
    cases a <;> cases b <;> simp
    case finite.finite x y => exact le_of_lt
    case infinite.infinite n m => cases n <;> cases m <;> simp
  beq_iff {a b} := by
    cases a <;> cases b <;> simp
    case finite.finite x y => exact le_antisymm_iff
    case infinite.infinite n m => cases n <;> cases m <;> simp

/-! ## Differences and distances -/

section

theorem isNaN_sub_finite (a : Exact F) (x : F) :
    Scalar.isNaN (a - finite x) = Scalar.isNaN a := by
  cases a with
  | finite y => simp
  | infinite n => exact (isNaN_infinite n).trans (isNaN_infinite n).symm
  | undefined => rfl

theorem isNaN_finite_sub (a : Exact F) (x : F) :
    Scalar.isNaN (finite x - a) = Scalar.isNaN a := by
  cases a with
  | finite y => simp
  | infinite n => exact (isNaN_infinite _).trans (isNaN_infinite _).symm
  | undefined => rfl

theorem isNaN_abs (a : Exact F) : Scalar.isNaN (Scalar.abs a) = Scalar.isNaN a := by
  cases a with
  | finite y => exact (isNaN_finite _).trans (isNaN_finite _).symm
  | infinite n => exact (isNaN_infinite _).trans (isNaN_infinite _).symm
  | undefined => rfl

variable {a : Exact F} {x z : F}

theorem lt_abs_of_lt (h : finite z < a) : finite z < Scalar.abs a := by
  cases a with
  | finite y => exact lt_of_lt_of_le h (le_abs_self y)
  | infinite n => rfl
  | undefined => exact h

variable [IsStrictOrderedRing F]

theorem lt_abs_of_lt_neg (h : a < finite (-z)) : finite z < Scalar.abs a := by
  cases a with
  | finite y => exact lt_of_lt_of_le (lt_neg_of_lt_neg h) (neg_le_abs y)
  | infinite n => rfl
  | undefined => exact h

theorem lt_finite_of_lt_neg (h : finite x < -a) : a < finite (-x) := by
  cases a with
  | finite y => exact lt_neg_of_lt_neg h
  | infinite n =>
    change (!n) = false at h
    rwa [Bool.not_eq_false'] at h
  | undefined => exact absurd h (not_lt_undefined _)

theorem lt_sub_finite : finite z < a - finite x ↔ finite (z + x) < a := by
  cases a with
  | finite y => exact lt_sub_iff_add_lt
  | infinite n => exact Iff.rfl
  | undefined => exact Iff.rfl

theorem sub_finite_lt : a - finite x < finite z ↔ a < finite (z + x) := by
  cases a with
  | finite y => exact sub_lt_iff_lt_add
  | infinite n => exact Iff.rfl
  | undefined => exact Iff.rfl

theorem lt_finite_sub : finite z < finite x - a ↔ a < finite (x - z) := by
  cases a with
  | finite y => exact lt_sub_comm
  | infinite n =>
    change (!n) = false ↔ n = true
    rw [Bool.not_eq_false']
  | undefined => exact Iff.rfl

end

/-! ## Where the numbers come from -/

section

variable {a b : Exact F} {z : F}

theorem add_eq_finite : a + b = finite z ↔ ∃ x y, a = finite x ∧ b = finite y ∧ z = x + y := by
  constructor
  · intro h
    cases a with
    | finite x =>
      cases b with
      | finite y => exact ⟨x, y, rfl, rfl, (finite.inj h).symm⟩
      | infinite n => cases h
      | undefined => cases h
    | infinite n =>
      cases b with
      | finite y => cases h
      | infinite m => cases n <;> cases m <;> cases h
      | undefined => cases h
    | undefined => cases b <;> cases h
  · rintro ⟨x, y, rfl, rfl, rfl⟩
    rfl

theorem sub_eq_finite : a - b = finite z ↔ ∃ x y, a = finite x ∧ b = finite y ∧ z = x - y := by
  constructor
  · intro h
    cases a with
    | finite x =>
      cases b with
      | finite y => exact ⟨x, y, rfl, rfl, (finite.inj h).symm⟩
      | infinite n => cases h
      | undefined => cases h
    | infinite n =>
      cases b with
      | finite y => cases h
      | infinite m => cases n <;> cases m <;> cases h
      | undefined => cases h
    | undefined => cases b <;> cases h
  · rintro ⟨x, y, rfl, rfl, rfl⟩
    rfl

omit [LinearOrder F] [Elementary F] in
theorem lift₂_eq_finite {f : F → F → Option F} :
    lift₂ f a b = finite z ↔ ∃ x y, a = finite x ∧ b = finite y ∧ f x y = some z := by
  cases a with
  | finite x =>
    cases b with
    | finite y => cases hf : f x y <;> simp [lift₂, hf, ofOption]
    | infinite n => simp [lift₂]
    | undefined => simp [lift₂]
  | infinite n => cases b <;> simp [lift₂]
  | undefined => cases b <;> simp [lift₂]

theorem mul_eq_finite : a * b = finite z ↔ ∃ x y, a = finite x ∧ b = finite y ∧ z = x * y := by
  refine lift₂_eq_finite.trans ?_
  simp only [Option.some.injEq, eq_comm]

theorem mul_finite_or_undefined (a b : Exact F) : (∃ z, a * b = finite z) ∨ a * b = undefined := by
  cases a with
  | finite x =>
    cases b with
    | finite y => exact .inl ⟨x * y, rfl⟩
    | infinite n => exact .inr rfl
    | undefined => exact .inr rfl
  | infinite n => exact .inr (by cases b <;> rfl)
  | undefined => exact .inr (by cases b <;> rfl)

theorem div_eq_finite :
    a / b = finite z ↔ ∃ x y, a = finite x ∧ b = finite y ∧ y ≠ 0 ∧ z = x / y := by
  refine lift₂_eq_finite.trans ?_
  simp only [Option.ite_none_left_eq_some, Option.some.injEq, ne_eq, @eq_comm F z]

theorem foldl_add_eq_finite {as : List (Exact F)} (h : as.foldl (· + ·) a = finite z) :
    (∃ x, a = finite x) ∧ ∀ b ∈ as, ∃ y, b = finite y := by
  induction as generalizing a with
  | nil => exact ⟨⟨z, h⟩, nofun⟩
  | cons b as ih =>
    obtain ⟨⟨w, hw⟩, hall⟩ := ih h
    obtain ⟨x, y, hx, hy, -⟩ := add_eq_finite.1 hw
    exact ⟨⟨x, hx⟩, List.forall_mem_cons.2 ⟨⟨y, hy⟩, hall⟩⟩

end

/-! ## Several numbers -/

section

theorem exists_map_finite {as : List (Exact F)} (h : ∀ a ∈ as, Scalar.isFinite a = true) :
    ∃ xs : List F, as = xs.map finite := by
  induction as with
  | nil => exact ⟨[], rfl⟩
  | cons a as ih =>
    obtain ⟨ha, has⟩ := List.forall_mem_cons.1 h
    obtain ⟨x, rfl⟩ := isFinite_iff.1 ha
    obtain ⟨xs, rfl⟩ := ih has
    exact ⟨x :: xs, rfl⟩

theorem foldl_add_map_finite (xs : List F) (a : F) :
    (xs.map finite).foldl (· + ·) (finite a) = finite (a + xs.sum) := by
  induction xs generalizing a with
  | nil => rw [List.map_nil, List.foldl_nil, List.sum_nil, add_zero]
  | cons x xs ih =>
    rw [List.map_cons, List.foldl_cons, finite_add, ih, List.sum_cons, add_assoc]

theorem sum_map_finite (xs : List F) : Scalar.sum (xs.map finite) = finite xs.sum := by
  have hzero : (-0 : Exact F) = finite 0 := congrArg finite neg_zero
  rw [Scalar.sum, hzero, foldl_add_map_finite, zero_add]

theorem foldl_max_map_finite (xs : List F) (a : F) :
    (xs.map finite).foldl Scalar.max (finite a) = finite (xs.foldl max a) := by
  induction xs generalizing a with
  | nil => rfl
  | cons x xs ih => rw [List.map_cons, List.foldl_cons, max_finite, ih, List.foldl_cons]

end

instance : Arithmetic (Exact F) where
  isFinite_zero := isFinite_finite 0
  isFinite_neg {a} h := by
    obtain ⟨x, rfl⟩ := isFinite_iff.1 h
    exact isFinite_finite (-x)
  finite_of_add {a b} h := by
    obtain ⟨z, hz⟩ := isFinite_iff.1 h
    obtain ⟨x, y, rfl, rfl, -⟩ := add_eq_finite.1 hz
    exact ⟨isFinite_finite x, isFinite_finite y⟩
  isNaN_sub {a b} h ha hb := by
    rcases h with h | h
    · obtain ⟨x, rfl⟩ := isFinite_iff.1 h
      rwa [isNaN_finite_sub]
    · obtain ⟨y, rfl⟩ := isFinite_iff.1 h
      rwa [isNaN_sub_finite]

end Exact

end Optima
