import Optima.Proofs.Scalar.Double
import Optima.Proofs.Scalar.Identities

/-!
The identities of zero and one hold for doubles.

* `eq_or_zeros_of_beq`: equal doubles are the same, but for the zeros.
* `rounded_parts`, `rounded_neg`: the parts of a double are rounded, and signs do not matter to it.
* `roundWithAccuracy_shifted`: rounding undoes a shift of the mantissa of a double.
* `instSummation`, `instIdentities`: the laws.
-/

namespace Optima.Double

open Float.Model (UnpackedFloat totalExponent)
open Float.Model.UnpackedFloat

/-! ## Doubles and their parts -/

theorem rounded_parts (a : Float) : rounded (parts a) = parts a := by
  have h : UnpackedFloat.pack .binary64 (parts a) = a.toModel.toBits.toBitVec :=
    pack_unpack_of_valid a.toModel.valid
  change UnpackedFloat.unpack .binary64 (UnpackedFloat.pack .binary64 (parts a)) = _
  rw [h]
  rfl

theorem eq_of_parts_eq {a b : Float} (h : parts a = parts b) : a = b := by
  have hbits : a.toModel.toBits.toBitVec = b.toModel.toBits.toBitVec :=
    (unpack_inj_of_valid a.toModel.valid b.toModel.valid).1 h
  obtain ⟨⟨ma, va⟩⟩ := a
  obtain ⟨⟨mb, vb⟩⟩ := b
  have hm : ma = mb := UInt64.toBitVec_inj.1 hbits
  subst hm
  rfl

theorem eq_or_zeros_of_rank {u v : UnpackedFloat} {x : ℤ ×ₗ ℤ ×ₗ ℤ} (hu : rank u = some x)
    (hv : rank v = some x) : u = v ∨ (∃ s, u = .zero s) ∧ ∃ s, v = .zero s := by
  rw [← hv] at hu
  cases u with
  | notANumber => rw [hv] at hu; cases hu
  | infinity s =>
    cases v with
    | infinity t => cases s <;> cases t <;> simp [rank] at hu ⊢
    | notANumber => cases s <;> cases hu
    | zero t => cases s <;> simp [rank] at hu
    | finite t m e hm => cases s <;> cases t <;> simp [rank] at hu
  | zero s =>
    cases v with
    | zero t => exact .inr ⟨⟨s, rfl⟩, t, rfl⟩
    | notANumber => cases hu
    | infinity t => cases t <;> simp [rank] at hu
    | finite t m e hm => cases t <;> simp [rank] at hu
  | finite s m e hm =>
    cases v with
    | finite t m' e' hm' => cases s <;> cases t <;> simp [rank] at hu ⊢ <;> omega
    | notANumber => cases s <;> cases hu
    | infinity t => cases s <;> cases t <;> simp [rank] at hu
    | zero t => cases s <;> simp [rank] at hu

theorem eq_or_zeros_of_beq {a b : Float} (h : (a == b) = true) :
    a = b ∨ (a == 0) = true ∧ (b == 0) = true := by
  obtain ⟨x, ha, hb⟩ := beq_iff.1 h
  rcases eq_or_zeros_of_rank ha hb with hab | ⟨hza, hzb⟩
  · exact .inl (eq_of_parts_eq hab)
  · exact .inr ⟨beq_zero_iff.2 hza, beq_zero_iff.2 hzb⟩

theorem beq_of_parts_eq {a b : Float} (h : parts a = parts b) (hb : Scalar.isNaN b = false) :
    (a == b) = true := by
  have hself : (b == b) = true := by simpa [Scalar.isNaN] using hb
  rwa [eq_of_parts_eq h]

theorem beq_of_zeros {a b : Float} (ha : (a == 0) = true) (hb : (b == 0) = true) :
    (a == b) = true := beq_trans ha (beq_symm hb)

/-! ## Signs -/

/-- Bits that differ in nothing but the sign are unpacked to opposite numbers. -/
theorem unpack_eq_neg {b b' : BitVec Float.Model.Format.binary64.numBits}
    (hs : Sign.ofBitVec (unpackSign b') = -Sign.ofBitVec (unpackSign b))
    (he : unpackExponent b' = unpackExponent b) (hm : unpackMantissa b' = unpackMantissa b) :
    UnpackedFloat.unpack .binary64 b' = UnpackedFloat.neg (UnpackedFloat.unpack .binary64 b) := by
  unfold UnpackedFloat.unpack
  simp only [hs, he, hm]
  split
  · split <;> rfl
  · split
    · split <;> rfl
    · rfl

theorem unpack_packComponents_neg (s : Sign) (k : BitVec Float.Model.Format.binary64.exponentBits)
    (m : BitVec Float.Model.Format.binary64.mantissaBitsWithoutImplicit) :
    UnpackedFloat.unpack .binary64 (packComponents .binary64 (-s) k m) =
      UnpackedFloat.neg (UnpackedFloat.unpack .binary64 (packComponents .binary64 s k m)) := by
  refine unpack_eq_neg ?_ ?_ ?_
  · rw [unpackSign_packComponents, unpackSign_packComponents, Sign.ofBitVec_toBitVec,
      Sign.ofBitVec_toBitVec]
  · rw [unpackExponent_packComponents, unpackExponent_packComponents]
  · rw [unpackMantissa_packComponents, unpackMantissa_packComponents]

theorem rounded_neg (u : UnpackedFloat) :
    rounded (UnpackedFloat.neg u) = UnpackedFloat.neg (rounded u) := by
  cases u with
  | notANumber => rfl
  | infinity s => cases s <;> rfl
  | zero s => cases s <;> rfl
  | finite s m e hm =>
    unfold rounded Float.Model.pack Float.Model.unpack UnpackedFloat.neg UnpackedFloat.pack
    dsimp only
    split
    · exact unpack_packComponents_neg s _ _
    · split <;> exact unpack_packComponents_neg s _ _

theorem parts_neg_eq (a : Float) : parts (-a) = UnpackedFloat.neg (parts a) := by
  rw [parts_neg, rounded_neg, rounded_parts]

theorem neg_neg_parts (u : UnpackedFloat) : UnpackedFloat.neg (UnpackedFloat.neg u) = u := by
  cases u with
  | notANumber => rfl
  | infinity s | zero s | finite s => cases s <;> rfl

/-! ## Rounding what is exact -/

theorem targetExponent_binary64 (t : ℤ) :
    Float.Model.Format.binary64.targetExponent t = max (t - 53) (-1074) := rfl

theorem log2_shifted {m : ℕ} (hm : 0 < m) (k : ℕ) : (m * 2 ^ k).log2 = m.log2 + k := by
  rw [Nat.log2_eq_iff (Nat.mul_pos hm (Nat.two_pow_pos k)).ne', Nat.pow_add, Nat.add_right_comm,
    Nat.pow_add]
  exact ⟨Nat.mul_le_mul_right _ (Nat.log2_self_le hm.ne'),
    Nat.mul_lt_mul_of_pos_right Nat.lt_log2_self (Nat.two_pow_pos k)⟩

theorem totalExponent_shifted {m : ℕ} (hm : 0 < m) (e : ℤ) (k : ℕ) :
    totalExponent (m * 2 ^ k) (e - k) = totalExponent m e := by
  rw [totalExponent, totalExponent, log2_shifted hm]
  omega

/-- The exponent of a finite double is the one that its mantissa asks for. -/
theorem canonical_of_unpack {b : BitVec Float.Model.Format.binary64.numBits} {s : Sign} {m : ℕ}
    {e : ℤ} {hm : 0 < m} (h : UnpackedFloat.unpack .binary64 b = .finite s m e hm) :
    Float.Model.Format.binary64.targetExponent (totalExponent m e) = e := by
  have hmin := (bounds_of_unpack h).2.1
  rw [targetExponent_binary64, totalExponent]
  unfold UnpackedFloat.unpack at h
  dsimp only at h
  split at h
  · split at h <;> cases h
  · split at h
    · next hz =>
      -- Without a leading one the mantissa has 52 bits, and the exponent is the smallest there is.
      split at h
      · cases h
      · cases h
        have hlog : (unpackMantissa b).toNat.log2 < 52 :=
          (Nat.log2_lt hm.ne').2 (unpackMantissa b).isLt
        rw [hz, exponentBias_binary64] at hmin ⊢
        simp only [BitVec.toNat_ofNat] at hmin ⊢
        omega
    · cases h
      have hlog : (1#1 ++ unpackMantissa b).toNat.log2 = 52 := by
        rw [Nat.log2_eq_iff hm.ne']
        refine ⟨?_, (1#1 ++ unpackMantissa b).isLt⟩
        rw [BitVec.toNat_append]
        exact Nat.left_le_or
      rw [hlog]
      omega

theorem canonical {a : Float} {s : Sign} {m : ℕ} {e : ℤ} {hm : 0 < m}
    (h : parts a = .finite s m e hm) :
    Float.Model.Format.binary64.targetExponent (totalExponent m e) = e := canonical_of_unpack h

/-- Rounding takes back a shift of a mantissa whose exponent is the one it asks for. -/
theorem roundWithAccuracy_shifted (s : Sign) {m : ℕ} {e : ℤ} (hm : 0 < m)
    (h : Float.Model.Format.binary64.targetExponent (totalExponent m e) = e) (k : ℕ) :
    roundWithAccuracy .binary64 s (m * 2 ^ k) (e - k) .exact = .finite s m e hm := by
  have hk : (e - (e - (k : ℤ))).toNat = k := by omega
  have hshift : ExtendedMantissa.ofMantissaAndAccuracy (m * 2 ^ k) .exact >>> k =
      ⟨m, false, false⟩ := shiftRight_exact m k
  have hrounded : ExtendedMantissa.roundedMantissa ⟨m, false, false⟩ = m := rfl
  have hkeep : ExtendedMantissa.ofMantissaAndAccuracy m .exact >>> 0 = ⟨m, false, false⟩ := rfl
  unfold roundWithAccuracy shiftToTargetExponent shiftToExponent
  simp only [totalExponent_shifted hm, h, hk, hshift, hrounded, Int.sub_add_cancel, Int.sub_self,
    Int.toNat_zero, hkeep, hm.ne', ↓reduceDIte, Int.ofNat_zero, Int.add_zero]

/-! ## Sums with zeros -/

theorem not_isNaN_of_parts {a : Float} (h : parts a ≠ .notANumber) : Scalar.isNaN a = false := by
  rw [← Bool.not_eq_true, isNaN_iff]
  exact h

/-- Where the exact result of an operation is an operand that is not undefined, so is the rounded
one. -/
theorem beq_of_rounded {a b : Float} (h : parts a = rounded (parts b))
    (hb : parts b ≠ .notANumber) : (a == b) = true := by
  rw [rounded_parts] at h
  exact beq_of_parts_eq h (not_isNaN_of_parts hb)

theorem agrees_zero_add {z a : Float} (hz : (z == 0) = true) : Scalar.Agrees (z + a) a := by
  obtain ⟨s, hs⟩ := beq_zero_iff.1 hz
  have hadd := parts_add z a
  rw [hs] at hadd
  cases hp : parts a with
  | notANumber => exact .inr ⟨ZeroLaws.nan_add (.inr (isNaN_iff.2 hp)), isNaN_iff.2 hp⟩
  | zero t =>
    have ha : (a == 0) = true := beq_zero_iff.2 ⟨t, hp⟩
    exact .inl (beq_of_zeros (ZeroLaws.add_zero hz ha) ha)
  | infinity t | finite t =>
    refine .inl (beq_of_rounded ?_ (by rw [hp]; nofun))
    rw [hadd, hp]
    rfl

theorem agrees_add_zero {a z : Float} (hz : (z == 0) = true) : Scalar.Agrees (a + z) a := by
  obtain ⟨s, hs⟩ := beq_zero_iff.1 hz
  have hadd := parts_add a z
  rw [hs] at hadd
  cases hp : parts a with
  | notANumber => exact .inr ⟨ZeroLaws.nan_add (.inl (isNaN_iff.2 hp)), isNaN_iff.2 hp⟩
  | zero t =>
    have ha : (a == 0) = true := beq_zero_iff.2 ⟨t, hp⟩
    exact .inl (beq_of_zeros (ZeroLaws.add_zero ha hz) ha)
  | infinity t | finite t =>
    refine .inl (beq_of_rounded ?_ (by rw [hp]; nofun))
    rw [hadd, hp]
    rfl

theorem agrees_add {a a' b b' : Float} (h : Scalar.Agrees a a') (h' : Scalar.Agrees b b') :
    Scalar.Agrees (a + b) (a' + b') := by
  rcases h with ha | ⟨ha, ha'⟩
  · rcases h' with hb | ⟨hb, hb'⟩
    · rcases eq_or_zeros_of_beq ha with rfl | ⟨hz, hz'⟩
      · rcases eq_or_zeros_of_beq hb with rfl | ⟨hz, hz'⟩
        · exact agrees_refl _
        · exact agrees_trans (agrees_add_zero hz) (agrees_symm (agrees_add_zero hz'))
      · exact agrees_trans (agrees_zero_add hz)
          (agrees_trans (.inl hb) (agrees_symm (agrees_zero_add hz')))
    · exact .inr ⟨ZeroLaws.nan_add (.inr hb), ZeroLaws.nan_add (.inr hb')⟩
  · exact .inr ⟨ZeroLaws.nan_add (.inl ha), ZeroLaws.nan_add (.inl ha')⟩

instance instSummation : Summation Float where
  beq_neg_zero := beq_zero_iff.2 ⟨.negative, parts_neg_eq 0⟩
  agrees_zero_add := agrees_zero_add
  agrees_add_zero := agrees_add_zero
  agrees_add := agrees_add

/-! ## Identities of one -/

theorem parts_one : parts 1 = .finite .positive (2 ^ 52) (-52) (by decide) := rfl

theorem mul_positive (s : Sign) : s * .positive = s := by cases s <;> rfl

theorem positive_mul (s : Sign) : .positive * s = s := by cases s <;> rfl

theorem div_positive (s : Sign) : s / .positive = s := by cases s <;> rfl

/-- A finite double is a zero or has a mantissa. -/
theorem zero_or_finite {a : Float} (h : Scalar.isFinite a = true) :
    (a == 0) = true ∨ ∃ s m e hm, parts a = .finite s m e hm := by
  rw [isFinite_eq] at h
  cases hp : parts a with
  | notANumber | infinity s =>
    rw [hp] at h
    cases h
  | zero s => exact .inl (beq_zero_iff.2 ⟨s, hp⟩)
  | finite s m e hm => exact .inr ⟨s, m, e, hm, rfl⟩

theorem isFinite_one : Scalar.isFinite (1 : Float) = true := by
  rw [isFinite_eq, parts_one]
  rfl

theorem beq_mul_one {a : Float} (h : Scalar.isFinite a = true) : (a * 1 == a) = true := by
  rcases zero_or_finite h with hz | ⟨s, m, e, hm, hp⟩
  · exact beq_of_zeros (ZeroLaws.zero_mul hz isFinite_one) hz
  · refine beq_of_rounded ?_ (by rw [hp]; nofun)
    rw [parts_mul, hp, parts_one, UnpackedFloat.mul, mul_positive]
    exact congrArg rounded (roundWithAccuracy_shifted s hm (canonical hp) 52)

theorem beq_one_mul {a : Float} (h : Scalar.isFinite a = true) : (1 * a == a) = true := by
  rcases zero_or_finite h with hz | ⟨s, m, e, hm, hp⟩
  · exact beq_of_zeros (ZeroLaws.mul_zero isFinite_one hz) hz
  · refine beq_of_rounded ?_ (by rw [hp]; nofun)
    rw [parts_mul, hp, parts_one, UnpackedFloat.mul, positive_mul, Nat.mul_comm, Int.add_comm]
    exact congrArg rounded (roundWithAccuracy_shifted s hm (canonical hp) 52)

/-- A quotient by one is exact; it may have one bit more than the dividend. -/
theorem divCore_one {m : ℕ} {e : ℤ}
    (h : Float.Model.Format.binary64.targetExponent (totalExponent m e) = e) :
    ∃ k : ℕ, divCore .binary64 m e (2 ^ 52) (-52) = (m * 2 ^ k, e - k, .exact) := by
  have hone : totalExponent (2 ^ 52) (-52) = 1 := by decide
  rw [targetExponent_binary64] at h
  obtain ⟨k, hk⟩ : ∃ k : ℕ, min (e - -52) (Float.Model.Format.binary64.targetExponent
      (totalExponent m e - 1)) = e - k := by
    rw [targetExponent_binary64]
    exact ⟨(e - max (totalExponent m e - 1 - 53) (-1074)).toNat, by omega⟩
  have hshift : (e - -52 - (e - (k : ℤ))).toNat = k + 52 := by omega
  have hm : m <<< (k + 52) = m * 2 ^ k * 2 ^ 52 := by
    rw [Nat.shiftLeft_eq, Nat.pow_add, Nat.mul_assoc]
  refine ⟨k, ?_⟩
  unfold divCore
  dsimp only
  rw [hone, hk, hshift, hm, Nat.mul_div_cancel _ (by decide), Nat.mul_mod_left]
  rfl

theorem beq_div_one {a : Float} (h : Scalar.isFinite a = true) : (a / 1 == a) = true := by
  rcases zero_or_finite h with hz | ⟨s, m, e, hm, hp⟩
  · exact beq_of_zeros (ZeroLaws.zero_div hz (by rfl) (not_isNaN_of_parts (by nofun))) hz
  · obtain ⟨k, hk⟩ := divCore_one (canonical hp)
    refine beq_of_rounded ?_ (by rw [hp]; nofun)
    rw [parts_div, hp, parts_one, UnpackedFloat.div, hk, div_positive]
    exact congrArg rounded (roundWithAccuracy_shifted s hm (canonical hp) k)

/-! ## Operations on zeros -/

theorem beq_neg_neg {a : Float} (h : Scalar.isFinite a = true) : (- -a == a) = true := by
  refine beq_of_parts_eq ?_ (Arithmetic.isNaN_of_isFinite h)
  rw [parts_neg_eq, parts_neg_eq, neg_neg_parts]

theorem neg_beq_zero {a : Float} (h : (a == 0) = true) : (-a == 0) = true := by
  obtain ⟨s, hs⟩ := beq_zero_iff.1 h
  exact beq_zero_iff.2 ⟨-s, by rw [parts_neg_eq, hs]; rfl⟩

theorem beq_zero_sub {a : Float} (h : Scalar.isFinite a = true) : (0 - a == -a) = true := by
  rcases zero_or_finite h with hz | ⟨s, m, e, hm, hp⟩
  · exact beq_of_zeros (ZeroLaws.sub_zero Arithmetic.zero_beq_zero hz) (neg_beq_zero hz)
  · refine beq_of_parts_eq ?_ (Arithmetic.isNaN_of_isFinite (Arithmetic.isFinite_neg h))
    rw [parts_sub, parts_neg, hp, parts_zero]
    rfl

theorem beq_sub_zero {a : Float} (h : Scalar.isFinite a = true) : (a - 0 == a) = true := by
  rcases zero_or_finite h with hz | ⟨s, m, e, hm, hp⟩
  · exact beq_of_zeros (ZeroLaws.sub_zero hz Arithmetic.zero_beq_zero) hz
  · refine beq_of_rounded ?_ (by rw [hp]; nofun)
    rw [parts_sub, hp, parts_zero]
    rfl

/-- A function that keeps zeros has equal values at equal doubles. -/
theorem beq_of_zero_beq {f : Float → Float}
    (hzero : ∀ {z : Float}, (z == 0) = true → (f z == 0) = true) {a a' : Float} (h : (a == a') = true)
    (hf : Scalar.isFinite (f a) = true) : (f a == f a') = true := by
  rcases eq_or_zeros_of_beq h with rfl | ⟨hz, hz'⟩
  · exact beq_self_of_isFinite hf
  · exact beq_of_zeros (hzero hz) (hzero hz')

theorem abs_beq_zero {a : Float} (h : (a == 0) = true) : (Scalar.abs a == 0) = true := by
  obtain ⟨s, hs⟩ := beq_zero_iff.1 h
  have hparts : parts (Scalar.abs a) = rounded (UnpackedFloat.abs (parts a)) := rfl
  exact beq_zero_iff.2 ⟨.positive, by rw [hparts, hs, UnpackedFloat.abs, rounded_zero]⟩

theorem sqrt_beq_zero {a : Float} (h : (a == 0) = true) : (Scalar.sqrt a == 0) = true := by
  obtain ⟨s, hs⟩ := beq_zero_iff.1 h
  have hparts : parts (Scalar.sqrt a) = rounded (UnpackedFloat.sqrt .binary64 (parts a)) := rfl
  exact beq_zero_iff.2 ⟨s, by rw [hparts, hs, UnpackedFloat.sqrt, rounded_zero]⟩

theorem beq_zero_left_sub {z z' b : Float} (hz : (z == 0) = true) (hz' : (z' == 0) = true)
    (hf : Scalar.isFinite (z - b) = true) : (z - b == z' - b) = true := by
  obtain ⟨s, hs⟩ := beq_zero_iff.1 hz
  obtain ⟨s', hs'⟩ := beq_zero_iff.1 hz'
  by_cases hb : (b == 0) = true
  · exact beq_of_zeros (ZeroLaws.sub_zero hz hb) (ZeroLaws.sub_zero hz' hb)
  · refine beq_symm (beq_of_parts_eq ?_ (Arithmetic.isNaN_of_isFinite hf))
    rw [parts_sub, parts_sub, hs, hs']
    cases hp : parts b with
    | zero t => exact absurd (beq_zero_iff.2 ⟨t, hp⟩) hb
    | _ => rfl

theorem beq_zero_right_sub {a z z' : Float} (hz : (z == 0) = true) (hz' : (z' == 0) = true)
    (hf : Scalar.isFinite (a - z) = true) : (a - z == a - z') = true := by
  obtain ⟨s, hs⟩ := beq_zero_iff.1 hz
  obtain ⟨s', hs'⟩ := beq_zero_iff.1 hz'
  by_cases ha : (a == 0) = true
  · exact beq_of_zeros (ZeroLaws.sub_zero ha hz) (ZeroLaws.sub_zero ha hz')
  · refine beq_symm (beq_of_parts_eq ?_ (Arithmetic.isNaN_of_isFinite hf))
    rw [parts_sub, parts_sub, hs, hs']
    cases hp : parts a with
    | zero t => exact absurd (beq_zero_iff.2 ⟨t, hp⟩) ha
    | _ => rfl

theorem beq_sub {a a' b b' : Float} (h : (a == a') = true) (h' : (b == b') = true)
    (hf : Scalar.isFinite (a - b) = true) : (a - b == a' - b') = true := by
  rcases eq_or_zeros_of_beq h with rfl | ⟨hz, hz'⟩
  · rcases eq_or_zeros_of_beq h' with rfl | ⟨hz, hz'⟩
    · exact beq_self_of_isFinite hf
    · exact beq_zero_right_sub hz hz' hf
  · have hleft := beq_zero_left_sub hz hz' hf
    rcases eq_or_zeros_of_beq h' with rfl | ⟨hw, hw'⟩
    · exact hleft
    · exact beq_of_zeros (ZeroLaws.sub_zero hz hw) (ZeroLaws.sub_zero hz' hw')

theorem isFinite_of_notANumber {u : UnpackedFloat} (h : u = .notANumber) :
    (rounded u).isFinite = false := by
  rw [h, rounded_notANumber]
  rfl

theorem isFinite_of_mul_zero {a z : Float} (hz : (z == 0) = true)
    (hf : Scalar.isFinite (a * z) = true) : Scalar.isFinite a = true := by
  obtain ⟨s, hs⟩ := beq_zero_iff.1 hz
  rw [isFinite_eq, parts_mul, hs] at hf
  rw [isFinite_eq]
  cases hp : parts a with
  | notANumber | infinity t =>
    rw [hp] at hf
    cases hf.symm.trans (isFinite_of_notANumber rfl)
  | zero t | finite t => rfl

theorem isFinite_of_zero_mul {z b : Float} (hz : (z == 0) = true)
    (hf : Scalar.isFinite (z * b) = true) : Scalar.isFinite b = true := by
  rw [← Bool.not_eq_false]
  intro hb
  have hn := ZeroLaws.isNaN_zero_mul hz hb
  rw [Arithmetic.isNaN_of_isFinite hf] at hn
  cases hn

theorem beq_mul {a a' b b' : Float} (h : (a == a') = true) (h' : (b == b') = true)
    (hf : Scalar.isFinite (a * b) = true) : (a * b == a' * b') = true := by
  rcases eq_or_zeros_of_beq h with rfl | ⟨hz, hz'⟩
  · rcases eq_or_zeros_of_beq h' with rfl | ⟨hz, hz'⟩
    · exact beq_self_of_isFinite hf
    · have ha := isFinite_of_mul_zero hz hf
      exact beq_of_zeros (ZeroLaws.mul_zero ha hz) (ZeroLaws.mul_zero ha hz')
  · have hb := isFinite_of_zero_mul hz hf
    have hb' := isFinite_of_beq (beq_symm h') hb
    exact beq_of_zeros (ZeroLaws.zero_mul hz hb) (ZeroLaws.zero_mul hz' hb')

/-- A finite quotient has a divisor that is neither zero nor undefined. -/
theorem divisor_of_isFinite {a b : Float} (hf : Scalar.isFinite (a / b) = true) :
    (b == 0) = false ∧ Scalar.isNaN b = false := by
  rw [isFinite_eq, parts_div] at hf
  rw [isNaN_eq, ← Bool.not_eq_true, beq_zero_iff]
  cases hp : parts b with
  | notANumber =>
    have hn : UnpackedFloat.div .binary64 (parts a) .notANumber = .notANumber := by
      cases parts a <;> rfl
    rw [hp, isFinite_of_notANumber hn] at hf
    cases hf
  | zero t =>
    rw [hp] at hf
    cases ha : parts a with
    | notANumber | zero s =>
      rw [ha] at hf
      cases hf.symm.trans (isFinite_of_notANumber rfl)
    | infinity s | finite s =>
      rw [ha, UnpackedFloat.div, rounded_infinity] at hf
      cases hf
  | infinity t | finite t => exact ⟨by rintro ⟨s, ⟨⟩⟩, rfl⟩

theorem beq_div {a a' b b' : Float} (h : (a == a') = true) (h' : (b == b') = true)
    (hf : Scalar.isFinite (a / b) = true) : (a / b == a' / b') = true := by
  obtain ⟨hne, hb⟩ := divisor_of_isFinite hf
  rcases eq_or_zeros_of_beq h' with rfl | ⟨hz, -⟩
  · rcases eq_or_zeros_of_beq h with rfl | ⟨hz, hz'⟩
    · exact beq_self_of_isFinite hf
    · exact beq_of_zeros (ZeroLaws.zero_div hz hne hb) (ZeroLaws.zero_div hz' hne hb)
  · rw [hz] at hne
    cases hne

instance instIdentities : Identities Float where
  beq_neg_neg := beq_neg_neg
  beq_zero_sub := beq_zero_sub
  beq_sub_zero := beq_sub_zero
  beq_one_mul := beq_one_mul
  beq_mul_one := beq_mul_one
  beq_div_one := beq_div_one
  beq_neg := beq_of_zero_beq neg_beq_zero
  beq_abs := beq_of_zero_beq abs_beq_zero
  beq_sqrt := beq_of_zero_beq sqrt_beq_zero
  beq_sub := beq_sub
  beq_mul := beq_mul
  beq_div := beq_div

/-! ## Elementary functions -/

/-- What a number library adds to the arithmetic of doubles. -/
structure Library where
  sin : Float → Float
  cos : Float → Float
  tan : Float → Float
  exp : Float → Float
  ln : Float → Float
  pow : Float → Float → Float

/-- The doubles with the elementary functions of a library. -/
def With (_library : Library) : Type := Float

instance (library : Library) : Scalar (With library) :=
  { (inferInstance : Scalar Float) with
    sin := library.sin
    cos := library.cos
    tan := library.tan
    exp := library.exp
    ln := library.ln
    pow := library.pow }

instance (library : Library) : Identities (With library) := { instIdentities with }

/-- The functions by the first terms of their series, and powers up to the square. -/
def Library.truncated : Library where
  sin a := a
  cos _ := 1
  tan a := a
  exp a := 1 + a
  ln a := a - 1
  pow a b := if b == 0 then 1 else if b == 1 then a else a * a

theorem beq_iff_of_beq {a a' b : Float} (h : (a == a') = true) : (a == b) = (a' == b) := by
  rw [Bool.eq_iff_iff]
  exact ⟨beq_trans (beq_symm h), beq_trans h⟩

theorem beq_truncated_pow {a a' b b' : Float} (h : (a == a') = true) (h' : (b == b') = true)
    (hf : Scalar.isFinite (Library.truncated.pow a b) = true) :
    (Library.truncated.pow a b == Library.truncated.pow a' b') = true := by
  simp only [Library.truncated, ← beq_iff_of_beq h'] at hf ⊢
  split
  · exact beq_self_of_isFinite isFinite_one
  · next hzero =>
    rw [if_neg hzero] at hf
    split
    · exact h
    · next hone =>
      rw [if_neg hone] at hf
      exact beq_mul h h hf

instance : Functions (With .truncated) where
  beq_pow_zero _ := beq_self_of_isFinite isFinite_one
  beq_pow_one := beq_self_of_isFinite
  beq_sin h _ := h
  beq_cos _ := beq_self_of_isFinite
  beq_tan h _ := h
  beq_exp h hf := beq_add (beq_self_of_isFinite isFinite_one) h hf
  beq_ln h hf := beq_sub h (beq_self_of_isFinite isFinite_one) hf
  beq_pow := beq_truncated_pow

end Optima.Double
