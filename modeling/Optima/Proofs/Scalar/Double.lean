import Mathlib
import Optima.Proofs.Scalar.Arithmetic
import Optima.Scalar.Double

/-!
The doubles satisfy what is assumed of scalars.

* `rank`: the place of a number among all numbers; `le_iff`, `lt_iff`, `beq_iff`: comparison is
  that of the places.
* `rounded`: the parts of a number after rounding. An infinity, an undefined value and a zero stay
  what they are, and a finite number stays finite or becomes infinite.
* `finite_of_add`, `finite_of_sub`, `finite_of_abs_lt`: a finite result comes of finite operands.
* `instOrdered`, `instArithmetic`, `instZeroLaws`: the laws.
-/

namespace Optima.Double

open Float.Model (UnpackedFloat)
open Float.Model.UnpackedFloat

/-! ## Places -/

/-- The place of a number among all numbers: by its sign, then by its exponent, then by its
mantissa. -/
def rank : UnpackedFloat → Option (ℤ ×ₗ ℤ ×ₗ ℤ)
  | .notANumber => none
  | .infinity .negative => some (toLex (-2, toLex (0, 0)))
  | .finite .negative m e _ => some (toLex (-1, toLex (-e, -m)))
  | .zero _ => some (toLex (0, toLex (0, 0)))
  | .finite .positive m e _ => some (toLex (1, toLex (e, m)))
  | .infinity .positive => some (toLex (2, toLex (0, 0)))

theorem compare_cast (m m' : ℕ) : compare (m : ℤ) (m' : ℤ) = compare m m' := by
  rcases lt_trichotomy m m' with h | h | h
  · rw [compare_lt_iff_lt.2 h, compare_lt_iff_lt.2 (Int.ofNat_lt.2 h)]
  · rw [h, compare_eq_iff_eq.2 rfl, compare_eq_iff_eq.2 rfl]
  · rw [compare_gt_iff_gt.2 h, compare_gt_iff_gt.2 (Int.ofNat_lt.2 h)]

theorem compare_neg (x y : ℤ) : compare (-x) (-y) = (compare x y).swap := by
  rw [Int.compare_swap]
  rcases lt_trichotomy y x with h | h | h
  · rw [compare_lt_iff_lt.2 h, compare_lt_iff_lt.2 (Int.neg_lt_neg h)]
  · rw [h, compare_eq_iff_eq.2 rfl, compare_eq_iff_eq.2 rfl]
  · rw [compare_gt_iff_gt.2 h, compare_gt_iff_gt.2 (Int.neg_lt_neg h)]

theorem compare_toLex (k e m e' m' : ℤ) :
    compare (toLex (k, toLex (e, m))) (toLex (k, toLex (e', m'))) =
      (compare e e').then (compare m m') := by
  simp [Prod.Lex.compare_def, compareLex, compareOn]

theorem compare_rank {u v : UnpackedFloat} {a b : ℤ ×ₗ ℤ ×ₗ ℤ} (hu : rank u = some a)
    (hv : rank v = some b) : u.compare v = some (compare a b) := by
  cases u with
  | notANumber => cases hu
  | infinity s =>
    cases v with
    | notANumber => cases hv
    | infinity t => cases s <;> cases t <;> cases hu <;> cases hv <;> rfl
    | zero t => cases s <;> cases hu <;> cases hv <;> rfl
    | finite t m e hm => cases s <;> cases t <;> cases hu <;> cases hv <;> rfl
  | zero s =>
    cases v with
    | notANumber => cases hv
    | infinity t => cases t <;> cases hu <;> cases hv <;> rfl
    | zero t => cases hu; cases hv; rfl
    | finite t m e hm => cases t <;> cases hu <;> cases hv <;> rfl
  | finite s m e hm =>
    cases v with
    | notANumber => cases hv
    | infinity t => cases s <;> cases t <;> cases hu <;> cases hv <;> rfl
    | zero t => cases s <;> cases hu <;> cases hv <;> rfl
    | finite t m' e' hm' =>
      cases s <;> cases t <;> cases hu <;> cases hv
      · rw [compare_toLex, compare_neg, compare_neg, compare_cast, ← Ordering.swap_then]
        rfl
      · rfl
      · rfl
      · rw [compare_toLex, compare_cast]
        rfl

theorem compare_eq (u v : UnpackedFloat) :
    u.compare v = (rank u).bind fun a => (rank v).map fun b => compare a b := by
  cases hu : rank u with
  | none =>
    cases u with
    | notANumber => rfl
    | infinity s | finite s => cases s <;> cases hu
    | zero s => cases hu
  | some a =>
    cases hv : rank v with
    | none =>
      cases v with
      | notANumber => cases u <;> rfl
      | infinity s | finite s => cases s <;> cases hv
      | zero s => cases hv
    | some b => exact compare_rank hu hv

/-! ## Comparison -/

/-- The parts that a double is made of. -/
def parts (a : Float) : UnpackedFloat := a.toModel.unpack

theorem le_iff {a b : Float} :
    a ≤ b ↔ ∃ x y, rank (parts a) = some x ∧ rank (parts b) = some y ∧ x ≤ y := by
  have h : a ≤ b ↔ ((parts a).compare (parts b)).any (·.isLE) = true := by
    change decide _ = true ↔ _
    exact decide_eq_true_iff
  rw [h, compare_eq]
  cases rank (parts a) <;> cases rank (parts b) <;>
    simp [← compare_le_iff_le, Ordering.isLE_iff_ne_gt]

theorem lt_iff {a b : Float} :
    a < b ↔ ∃ x y, rank (parts a) = some x ∧ rank (parts b) = some y ∧ x < y := by
  have h : a < b ↔ ((parts a).compare (parts b) == some .lt) = true := by
    change decide _ = true ↔ _
    exact decide_eq_true_iff
  rw [h, compare_eq]
  cases rank (parts a) <;> cases rank (parts b) <;> simp [compare_lt_iff_lt]

theorem beq_iff {a b : Float} :
    (a == b) = true ↔ ∃ x, rank (parts a) = some x ∧ rank (parts b) = some x := by
  have h : (a == b) = ((parts a).compare (parts b) == some .eq) := rfl
  rw [h, compare_eq]
  cases rank (parts a) <;> cases rank (parts b) <;> simp [compare_eq_iff_eq]
  exact eq_comm

theorem isNaN_eq_false_iff {a : Float} :
    Scalar.isNaN a = false ↔ ∃ x, rank (parts a) = some x := by
  have h : Scalar.isNaN a = false ↔ (a == a) = true := by simp [Scalar.isNaN]
  rw [h, beq_iff]
  simp

instance instOrdered : Ordered Float where
  le_trans h h' := by
    obtain ⟨x, y, hx, hy, hxy⟩ := le_iff.1 h
    obtain ⟨y', z, hy', hz, hyz⟩ := le_iff.1 h'
    rw [hy] at hy'
    cases hy'
    exact le_iff.2 ⟨x, z, hx, hz, hxy.trans hyz⟩
  le_total ha hb := by
    obtain ⟨x, hx⟩ := isNaN_eq_false_iff.1 ha
    obtain ⟨y, hy⟩ := isNaN_eq_false_iff.1 hb
    rcases le_total x y with h | h
    · exact .inl (le_iff.2 ⟨x, y, hx, hy, h⟩)
    · exact .inr (le_iff.2 ⟨y, x, hy, hx, h⟩)
  defined_of_le h := by
    obtain ⟨x, y, hx, hy, -⟩ := le_iff.1 h
    exact ⟨isNaN_eq_false_iff.2 ⟨x, hx⟩, isNaN_eq_false_iff.2 ⟨y, hy⟩⟩
  lt_iff {a b} := by
    rw [Double.lt_iff, le_iff, le_iff]
    cases rank (parts a) <;> cases rank (parts b) <;> simp
    exact le_of_lt
  beq_iff {a b} := by
    rw [Double.beq_iff, le_iff, le_iff]
    cases rank (parts a) <;> cases rank (parts b) <;> simp
    rw [le_antisymm_iff, and_comm]

/-! ## Rounding -/

/-- The parts of a number after it has been rounded to a double. -/
def rounded (u : UnpackedFloat) : UnpackedFloat := (Float.Model.pack u).unpack

theorem parts_add (a b : Float) :
    parts (a + b) = rounded (UnpackedFloat.add .binary64 (parts a) (parts b)) := rfl

theorem parts_sub (a b : Float) :
    parts (a - b) = rounded (UnpackedFloat.sub .binary64 (parts a) (parts b)) := rfl

theorem parts_mul (a b : Float) :
    parts (a * b) = rounded (UnpackedFloat.mul .binary64 (parts a) (parts b)) := rfl

theorem parts_div (a b : Float) :
    parts (a / b) = rounded (UnpackedFloat.div .binary64 (parts a) (parts b)) := rfl

theorem parts_neg (a : Float) : parts (-a) = rounded (UnpackedFloat.neg (parts a)) := rfl

theorem rounded_notANumber : rounded .notANumber = .notANumber := rfl

theorem rounded_infinity (s : Sign) : rounded (.infinity s) = .infinity s := by cases s <;> rfl

theorem rounded_zero (s : Sign) : rounded (.zero s) = .zero s := by cases s <;> rfl

theorem exponentBias_binary64 : Float.Model.Format.binary64.exponentBias = 1023 := rfl

/-- Only an exponent of ones makes a double infinite or undefined. -/
theorem isFinite_unpack {b : BitVec Float.Model.Format.binary64.numBits}
    (h : unpackExponent b ≠ -1#11) : (UnpackedFloat.unpack .binary64 b).isFinite = true := by
  unfold UnpackedFloat.unpack
  rw [if_neg h]
  split
  · split <;> rfl
  · rfl

theorem isFinite_packComponents (s : Sign) {k : ℕ} (h : k < 2047) (mantissa : BitVec 52) :
    (UnpackedFloat.unpack .binary64
      (packComponents .binary64 s (BitVec.ofNat 11 k) mantissa)).isFinite = true := by
  refine isFinite_unpack fun he => ?_
  rw [unpackExponent_packComponents] at he
  have hk := congrArg BitVec.toNat he
  have hones : (-1#11).toNat = 2047 := rfl
  rw [hones, BitVec.toNat_ofNat, Nat.mod_eq_of_lt (by omega)] at hk
  omega

theorem isFinite_rounded_finite (s : Sign) (m : ℕ) {e : ℤ} (hm : 0 < m) (he : e ≤ 971) :
    (rounded (.finite s m e hm)).isFinite = true := by
  unfold rounded Float.Model.pack Float.Model.unpack UnpackedFloat.pack
  dsimp only
  rw [if_neg (by rw [exponentBias_binary64]; omega)]
  split
  · exact isFinite_packComponents s (by rw [exponentBias_binary64]; omega) _
  · exact isFinite_packComponents s (by omega) _

theorem rounded_large (s : Sign) (m : ℕ) {e : ℤ} (hm : 0 < m) (he : 971 < e) :
    rounded (.finite s m e hm) = .infinity s := by
  unfold rounded Float.Model.pack Float.Model.unpack UnpackedFloat.pack
  dsimp only
  rw [if_pos (by rw [exponentBias_binary64]; omega)]
  cases s <;> rfl

theorem rounded_finite (s : Sign) (m : ℕ) (e : ℤ) (hm : 0 < m) :
    rounded (.finite s m e hm) = .infinity s ∨ (rounded (.finite s m e hm)).isFinite = true := by
  by_cases he : e ≤ 971
  · exact .inr (isFinite_rounded_finite s m hm he)
  · exact .inl (rounded_large s m hm (by omega))

/-- A finite double has a mantissa of 53 bits and an exponent of limited size. -/
theorem bounds_of_unpack {b : BitVec Float.Model.Format.binary64.numBits} {s : Sign} {m : ℕ}
    {e : ℤ} {hm : 0 < m} (h : UnpackedFloat.unpack .binary64 b = .finite s m e hm) :
    m < 2 ^ 53 ∧ -1074 ≤ e ∧ e ≤ 971 := by
  unfold UnpackedFloat.unpack at h
  dsimp only at h
  split at h
  · split at h <;> cases h
  · next hne =>
    split at h
    · next hz =>
      split at h
      · cases h
      · cases h
        refine ⟨Nat.lt_of_lt_of_le (unpackMantissa b).isLt (by decide), ?_⟩
        rw [hz, exponentBias_binary64]
        decide
    · next hz =>
      cases h
      have hlt : (unpackExponent b).toNat < 2048 := (unpackExponent b).isLt
      have hmax : (unpackExponent b).toNat ≠ 2047 := fun hk => hne (BitVec.eq_of_toNat_eq hk)
      have hmin : (unpackExponent b).toNat ≠ 0 := fun hk => hz (BitVec.eq_of_toNat_eq hk)
      refine ⟨(1#1 ++ unpackMantissa b).isLt, ?_⟩
      rw [exponentBias_binary64]
      omega

theorem bounds {a : Float} {s : Sign} {m : ℕ} {e : ℤ} {hm : 0 < m}
    (h : parts a = .finite s m e hm) : m < 2 ^ 53 ∧ -1074 ≤ e ∧ e ≤ 971 := bounds_of_unpack h

theorem roundWithAccuracy_cases (s : Sign) (m : ℕ) (e : ℤ) (accuracy : Accuracy) :
    roundWithAccuracy .binary64 s m e accuracy = .zero s ∨
      ∃ m' e' hm', roundWithAccuracy .binary64 s m e accuracy = .finite s m' e' hm' := by
  unfold roundWithAccuracy
  dsimp only
  split
  · exact .inl rfl
  · next h => exact .inr ⟨_, _, Nat.pos_of_ne_zero h, rfl⟩

theorem normalize_cases (m e : ℤ) :
    (∃ s, UnpackedFloat.normalize .binary64 m e .positive = .zero s) ∨
      ∃ s m' e' hm', UnpackedFloat.normalize .binary64 m e .positive = .finite s m' e' hm' := by
  have hround (s : Sign) (m : ℕ) (e : ℤ) :
      (∃ t, round .binary64 s m e = .zero t) ∨
        ∃ t m' e' hm', round .binary64 s m e = .finite t m' e' hm' := by
    rcases roundWithAccuracy_cases s _ _ .exact with h | ⟨m', e', hm', h⟩
    · exact .inl ⟨s, h⟩
    · exact .inr ⟨s, m', e', hm', h⟩
  unfold UnpackedFloat.normalize
  split
  · exact hround _ _ _
  · exact .inl ⟨_, rfl⟩
  · exact hround _ _ _

/-- An exact sum or difference of finite numbers is not undefined. -/
theorem isNaN_normalize (m e : ℤ) :
    (UnpackedFloat.normalize .binary64 m e .positive).isNaN = false := by
  rcases normalize_cases m e with ⟨s, h⟩ | ⟨s, m', e', hm', h⟩ <;> rw [h] <;> rfl

theorem isNaN_rounded {u : UnpackedFloat} (h : u.isNaN = false) : (rounded u).isNaN = false := by
  cases u with
  | notANumber => cases h
  | infinity s =>
    rw [rounded_infinity]
    rfl
  | zero s =>
    rw [rounded_zero]
    rfl
  | finite s m e hm =>
    rcases rounded_finite s m e hm with hr | hr
    · rw [hr]
      rfl
    · cases hp : rounded (.finite s m e hm) with
      | notANumber =>
        rw [hp] at hr
        cases hr
      | _ => rfl

theorem rounded_of_notANumber {u : UnpackedFloat} (h : u = .notANumber) :
    rounded u = .notANumber := by
  rw [h, rounded_notANumber]

/-! ## Kinds of numbers -/

theorem parts_zero : parts 0 = .zero .positive := rfl

theorem parts_infinity : parts Scalar.infinity = .infinity .positive := rfl

theorem parts_neg_infinity : parts (-Scalar.infinity) = .infinity .negative := rfl

theorem isFinite_eq (a : Float) : Scalar.isFinite a = (parts a).isFinite := by
  have h : Scalar.isFinite a = true ↔ -Scalar.infinity < a ∧ a < Scalar.infinity := by
    simp [Scalar.isFinite]
  rw [Bool.eq_iff_iff, h, lt_iff, lt_iff, parts_infinity, parts_neg_infinity]
  cases parts a with
  | notANumber => simp [rank, UnpackedFloat.isFinite]
  | infinity s => cases s <;> simp [rank, UnpackedFloat.isFinite]
  | zero s => simp [rank, UnpackedFloat.isFinite, Prod.Lex.toLex_lt_toLex]
  | finite s m e hm => cases s <;> simp [rank, UnpackedFloat.isFinite, Prod.Lex.toLex_lt_toLex]

theorem isNaN_eq (a : Float) : Scalar.isNaN a = (parts a).isNaN := by
  rw [Bool.eq_iff_iff, ← not_iff_not, Bool.not_eq_true, Bool.not_eq_true, isNaN_eq_false_iff]
  cases parts a with
  | notANumber => simp [rank, UnpackedFloat.isNaN]
  | infinity s => cases s <;> simp [rank, UnpackedFloat.isNaN]
  | zero s => simp [rank, UnpackedFloat.isNaN]
  | finite s m e hm => cases s <;> simp [rank, UnpackedFloat.isNaN]

theorem isNaN_iff {a : Float} : Scalar.isNaN a = true ↔ parts a = .notANumber := by
  rw [isNaN_eq]
  cases parts a <;> simp [UnpackedFloat.isNaN]

theorem beq_zero_iff {a : Float} : (a == 0) = true ↔ ∃ s, parts a = .zero s := by
  rw [beq_iff, parts_zero]
  cases parts a with
  | notANumber => simp [rank]
  | infinity s => cases s <;> simp [rank]
  | zero s => simp [rank]
  | finite s m e hm => cases s <;> simp [rank]

/-! ## The laws -/

theorem isFinite_neg {a : Float} (h : Scalar.isFinite a = true) : Scalar.isFinite (-a) = true := by
  rw [isFinite_eq] at h ⊢
  rw [parts_neg]
  cases hp : parts a with
  | notANumber | infinity s =>
    rw [hp] at h
    cases h
  | zero s =>
    rw [UnpackedFloat.neg, rounded_zero]
    rfl
  | finite s m e hm => exact isFinite_rounded_finite (-s) m hm (bounds hp).2.2

/-- A sum with an infinite or undefined term is infinite or undefined. -/
theorem add_infinite {u v : UnpackedFloat} (h : u.isFinite = false ∨ v.isFinite = false) :
    UnpackedFloat.add .binary64 u v = .notANumber ∨
      ∃ s, UnpackedFloat.add .binary64 u v = .infinity s := by
  cases u with
  | notANumber => exact .inl rfl
  | infinity s =>
    cases v with
    | notANumber => exact .inl rfl
    | infinity t =>
      cases s <;> cases t <;> first | exact .inl rfl | exact .inr ⟨_, rfl⟩
    | _ => exact .inr ⟨s, rfl⟩
  | zero s | finite s =>
    cases v with
    | notANumber => exact .inl rfl
    | infinity t => exact .inr ⟨t, rfl⟩
    | _ => simp [UnpackedFloat.isFinite] at h

theorem isFinite_of_rounded_add {u v : UnpackedFloat}
    (h : (rounded (UnpackedFloat.add .binary64 u v)).isFinite = true) :
    u.isFinite = true ∧ v.isFinite = true := by
  by_contra huv
  have hinf : u.isFinite = false ∨ v.isFinite = false := by
    cases hu : u.isFinite with
    | false => exact .inl rfl
    | true => exact .inr (by simpa [hu] using huv)
  rcases add_infinite hinf with hadd | ⟨s, hadd⟩
  · rw [hadd, rounded_notANumber] at h
    cases h
  · rw [hadd, rounded_infinity] at h
    cases h

theorem finite_of_add {a b : Float} (h : Scalar.isFinite (a + b) = true) :
    Scalar.isFinite a = true ∧ Scalar.isFinite b = true := by
  rw [isFinite_eq, parts_add] at h
  rw [isFinite_eq, isFinite_eq]
  exact isFinite_of_rounded_add h

/-- A difference is the sum with the opposite. -/
theorem sub_eq_add (u v : UnpackedFloat) :
    UnpackedFloat.sub .binary64 u v = UnpackedFloat.add .binary64 u (UnpackedFloat.neg v) := by
  cases u with
  | notANumber => rfl
  | infinity s | zero s => cases v <;> rfl
  | finite s m e hm =>
    cases v with
    | finite t m' e' hm' =>
      cases t <;> simp [UnpackedFloat.sub, UnpackedFloat.add, UnpackedFloat.neg, Sign.apply,
        Int.sub_eq_add_neg]
    | _ => rfl

theorem finite_of_sub {a b : Float} (h : Scalar.isFinite (a - b) = true) :
    Scalar.isFinite a = true ∧ Scalar.isFinite b = true := by
  rw [isFinite_eq, parts_sub, sub_eq_add] at h
  rw [isFinite_eq, isFinite_eq]
  refine (isFinite_of_rounded_add h).imp_right fun hb => ?_
  cases hp : parts b with
  | notANumber | infinity s =>
    rw [hp] at hb
    cases hb
  | _ => rfl

theorem isNaN_sub {a b : Float} (hf : Scalar.isFinite a = true ∨ Scalar.isFinite b = true)
    (ha : Scalar.isNaN a = false) (hb : Scalar.isNaN b = false) : Scalar.isNaN (a - b) = false := by
  rw [isFinite_eq, isFinite_eq] at hf
  rw [isNaN_eq] at ha hb ⊢
  rw [parts_sub]
  apply isNaN_rounded
  generalize parts a = u at *
  generalize parts b = v at *
  cases u with
  | notANumber => cases ha
  | infinity s =>
    cases v with
    | notANumber => cases hb
    | infinity t => simp [UnpackedFloat.isFinite] at hf
    | _ => rfl
  | zero s =>
    cases v with
    | notANumber => cases hb
    | zero t => cases s <;> cases t <;> rfl
    | _ => rfl
  | finite s m e hm =>
    cases v with
    | notANumber => cases hb
    | finite t m' e' hm' => exact isNaN_normalize _ _
    | _ => rfl

theorem not_lt_of_infinity {a : Float} (h : parts a = .infinity .positive) (b : Float) :
    ¬ a < b := by
  rw [lt_iff, h]
  cases parts b with
  | notANumber => simp [rank]
  | infinity s => cases s <;> simp [rank, Prod.Lex.toLex_lt_toLex]
  | zero s => simp [rank, Prod.Lex.toLex_lt_toLex]
  | finite s m e hm => cases s <;> simp [rank, Prod.Lex.toLex_lt_toLex]

/-- The size of what is infinite or undefined is below no number. -/
theorem finite_of_abs_lt {a b : Float} (h : Scalar.abs a < b) : Scalar.isFinite a = true := by
  have hparts : parts (Scalar.abs a) = rounded (UnpackedFloat.abs (parts a)) := rfl
  rw [isFinite_eq]
  cases hp : parts a with
  | notANumber =>
    rw [hp, UnpackedFloat.abs, rounded_notANumber] at hparts
    rw [← isNaN_iff, (Ordered.defined_of_lt h).1] at hparts
    cases hparts
  | infinity s =>
    rw [hp, UnpackedFloat.abs, rounded_infinity] at hparts
    exact absurd h (not_lt_of_infinity hparts b)
  | _ => rfl
instance instArithmetic : Arithmetic Float where
  isFinite_zero := by
    rw [isFinite_eq, parts_zero]
    rfl
  isFinite_neg := isFinite_neg
  finite_of_add := finite_of_add
  isNaN_sub := isNaN_sub

theorem mul_zero_finite {u v : UnpackedFloat} (s : Sign)
    (h : u = .zero s ∧ v.isFinite = true ∨ u.isFinite = true ∧ v = .zero s) :
    ∃ t, UnpackedFloat.mul .binary64 u v = .zero t := by
  rcases h with ⟨rfl, hv⟩ | ⟨hu, rfl⟩
  · cases v with
    | notANumber | infinity t => cases hv
    | zero t | finite t => exact ⟨s * t, rfl⟩
  · cases u with
    | notANumber | infinity t => cases hu
    | zero t | finite t => exact ⟨t * s, rfl⟩

/-! ## Products with one -/

theorem shiftRight_exact (m k : ℕ) :
    ExtendedMantissa.mk (m * 2 ^ k) false false >>> k = ⟨m, false, false⟩ := by
  induction k generalizing m with
  | zero =>
    rw [Nat.pow_zero, Nat.mul_one]
    rfl
  | succ k ih =>
    have hstep : ExtendedMantissa.mk (m * 2 ^ (k + 1)) false false >>> (k + 1) =
        (ExtendedMantissa.mk (2 * m * 2 ^ k) false false >>> k).shiftRightOne := by
      rw [Nat.pow_succ, Nat.mul_comm _ 2, ← Nat.mul_assoc, Nat.mul_comm m 2]
      rfl
    rw [hstep, ih, ExtendedMantissa.shiftRightOne]
    simp

/-- How far a mantissa that has its bits below `2 ^ k` is shifted, at most. -/
theorem shift_le {m k : ℕ} {e : ℤ} (hm : 0 < m) (hlt : m < 2 ^ k) (he : -1074 ≤ e + (k - 53 : ℤ))
    (hk : 53 ≤ k) :
    (Float.Model.Format.binary64.targetExponent (Float.Model.totalExponent m e) - e).toNat ≤
      k - 53 := by
  have hlog : m.log2 < k := (Nat.log2_lt hm.ne').2 hlt
  have hmin : Float.Model.Format.binary64.minExponent = -1074 := rfl
  have hbits : Float.Model.Format.binary64.mantissaBits = 53 := rfl
  rw [Float.Model.Format.targetExponent, Float.Model.totalExponent, hmin, hbits]
  omega

/-- A mantissa of 53 bits that has been shifted up by 52 bits is rounded to a number whose exponent
is at most the old one: the bits that are cut off are zeros. -/
theorem exponent_roundWithAccuracy (s : Sign) {m : ℕ} {e : ℤ} (hm : 0 < m) (hlt : m < 2 ^ 53)
    (he : -1074 ≤ e) :
    roundWithAccuracy .binary64 s (m * 2 ^ 52) (e + -52) .exact = .zero s ∨
      ∃ m' e' hm', roundWithAccuracy .binary64 s (m * 2 ^ 52) (e + -52) .exact =
        .finite s m' e' hm' ∧ e' ≤ e := by
  have hpos : 0 < m * 2 ^ 52 := Nat.mul_pos hm (Nat.two_pow_pos 52)
  have hk := shift_le (k := 105) (e := e + -52) hpos (by omega) (by omega) (by decide)
  unfold roundWithAccuracy shiftToTargetExponent shiftToExponent
  dsimp only
  generalize (Float.Model.Format.binary64.targetExponent
    (Float.Model.totalExponent (m * 2 ^ 52) (e + -52)) - (e + -52)).toNat = k at hk ⊢
  have hsplit : m * 2 ^ 52 = m * 2 ^ (52 - k) * 2 ^ k := by
    rw [Nat.mul_assoc, ← Nat.pow_add, Nat.sub_add_cancel hk]
  have hshift : ExtendedMantissa.ofMantissaAndAccuracy (m * 2 ^ 52) .exact >>> k =
      ⟨m * 2 ^ (52 - k), false, false⟩ := by
    rw [hsplit]
    exact shiftRight_exact _ k
  have hrounded : ExtendedMantissa.roundedMantissa ⟨m * 2 ^ (52 - k), false, false⟩ =
      m * 2 ^ (52 - k) := rfl
  have hlt' : m * 2 ^ (52 - k) < 2 ^ (105 - k) := by
    have h105 : 105 - k = 53 + (52 - k) := by omega
    rw [h105, Nat.pow_add]
    exact Nat.mul_lt_mul_of_pos_right hlt (Nat.two_pow_pos _)
  have hk' := shift_le (k := 105 - k) (e := e + -52 + k)
    (Nat.mul_pos hm (Nat.two_pow_pos _)) hlt' (by omega) (by omega)
  rw [hshift, hrounded]
  split
  · exact .inl rfl
  · next hne => exact .inr ⟨_, _, Nat.pos_of_ne_zero hne, rfl, by omega⟩

theorem isFinite_mul_one {a : Float} (h : Scalar.isFinite a = true) :
    Scalar.isFinite (a * 1) = true := by
  rw [isFinite_eq] at h ⊢
  rw [parts_mul]
  have hone : parts 1 = .finite .positive (2 ^ 52) (-52) (by decide) := rfl
  rw [hone]
  cases hp : parts a with
  | notANumber | infinity s =>
    rw [hp] at h
    cases h
  | zero s => cases s <;> rfl
  | finite s m e hm =>
    obtain ⟨hlt, hmin, hmax⟩ := bounds hp
    rcases exponent_roundWithAccuracy (s * .positive) hm hlt hmin with
      hr | ⟨m', e', hm', hr, hle⟩
    · rw [UnpackedFloat.mul, hr, rounded_zero]
      rfl
    · rw [UnpackedFloat.mul, hr]
      exact isFinite_rounded_finite _ m' hm' (hle.trans hmax)

/-! ## Undefined operands -/

instance instZeroLaws : ZeroLaws Float where
  add_zero {a b} ha hb := by
    obtain ⟨s, hs⟩ := beq_zero_iff.1 ha
    obtain ⟨t, ht⟩ := beq_zero_iff.1 hb
    rw [beq_zero_iff, parts_add, hs, ht]
    cases s <;> cases t <;> exact ⟨_, rfl⟩
  sub_zero {a b} ha hb := by
    obtain ⟨s, hs⟩ := beq_zero_iff.1 ha
    obtain ⟨t, ht⟩ := beq_zero_iff.1 hb
    rw [beq_zero_iff, parts_sub, hs, ht]
    cases s <;> cases t <;> exact ⟨_, rfl⟩
  zero_mul {a b} ha hb := by
    obtain ⟨s, hs⟩ := beq_zero_iff.1 ha
    rw [isFinite_eq] at hb
    obtain ⟨t, ht⟩ := mul_zero_finite s (.inl ⟨hs, hb⟩)
    exact beq_zero_iff.2 ⟨t, by rw [parts_mul, ht, rounded_zero]⟩
  mul_zero {a b} ha hb := by
    obtain ⟨s, hs⟩ := beq_zero_iff.1 hb
    rw [isFinite_eq] at ha
    obtain ⟨t, ht⟩ := mul_zero_finite s (.inr ⟨ha, hs⟩)
    exact beq_zero_iff.2 ⟨t, by rw [parts_mul, ht, rounded_zero]⟩
  zero_div {a b} ha hb hn := by
    obtain ⟨s, hs⟩ := beq_zero_iff.1 ha
    rw [beq_zero_iff, parts_div, hs]
    cases hp : parts b with
    | notANumber =>
      rw [isNaN_eq, hp] at hn
      cases hn
    | zero t =>
      rw [beq_zero_iff.2 ⟨t, hp⟩] at hb
      cases hb
    | infinity t | finite t => exact ⟨s / t, rounded_zero _⟩
  isFinite_mul_one := isFinite_mul_one
  two_ne_zero := by rfl
  two_ne_one := by rfl
  isNaN_zero_mul {a b} ha hb := by
    obtain ⟨s, hs⟩ := beq_zero_iff.1 ha
    rw [isFinite_eq] at hb
    rw [isNaN_iff, parts_mul, hs]
    cases hp : parts b with
    | notANumber | infinity t => exact rounded_notANumber
    | zero t | finite t =>
      rw [hp] at hb
      cases hb
  isNaN_zero_div {a b} ha hb := by
    obtain ⟨s, hs⟩ := beq_zero_iff.1 ha
    obtain ⟨t, ht⟩ := beq_zero_iff.1 hb
    rw [isNaN_iff, parts_div, hs, ht]
    exact rounded_notANumber
  nan_add {a b} h := by
    rw [isNaN_iff, isNaN_iff] at h
    rw [isNaN_iff, parts_add]
    apply rounded_of_notANumber
    rcases h with h | h <;> rw [h]
    · rfl
    · cases parts a <;> rfl
  nan_sub {a b} h := by
    rw [isNaN_iff, isNaN_iff] at h
    rw [isNaN_iff, parts_sub]
    apply rounded_of_notANumber
    rcases h with h | h <;> rw [h]
    · rfl
    · cases parts a <;> rfl

end Optima.Double
