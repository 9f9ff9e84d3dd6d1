import Optima.Proofs.Scalar.Double.Identities

/-!
A positive double does not become smaller under a factor above one, although the product is rounded.

* `exists_roundWithAccuracy`: rounding a mantissa with bits to spare leads to a finite number that is
  not below the bits that are kept.
* `rounded_canonical`: packing keeps what rounding leads to, unless it is too large.
* `le_mul`: the product of doubles.
* `instGrowth`: the laws.
-/

namespace Optima.Double

open Float.Model (UnpackedFloat totalExponent)
open Float.Model.UnpackedFloat

/-! ## Shifts -/

theorem log2_div {m k : ℕ} (hm : 0 < m) (hk : k ≤ m.log2) : (m / 2 ^ k).log2 = m.log2 - k := by
  have hle := Nat.log2_self_le hm.ne'
  have hlt := Nat.lt_log2_self (n := m)
  have hsplit (j : ℕ) (hj : k ≤ j) : 2 ^ (j - k) * 2 ^ k = 2 ^ j := by
    rw [← Nat.pow_add, Nat.sub_add_cancel hj]
  have hlow : 2 ^ (m.log2 - k) ≤ m / 2 ^ k := by
    rw [Nat.le_div_iff_mul_le (Nat.two_pow_pos k), hsplit _ hk]
    exact hle
  rw [Nat.log2_eq_iff (Nat.ne_of_gt (Nat.lt_of_lt_of_le (Nat.two_pow_pos _) hlow))]
  refine ⟨hlow, ?_⟩
  rw [Nat.div_lt_iff_lt_mul (Nat.two_pow_pos k), ← Nat.sub_add_comm hk, hsplit _ (by omega)]
  exact hlt

theorem log2_mono {m n : ℕ} (hm : 0 < m) (h : m ≤ n) : m.log2 ≤ n.log2 :=
  (Nat.le_log2 (by omega)).2 ((Nat.log2_self_le hm.ne').trans h)

theorem mantissa_shiftRight (em : ExtendedMantissa) (k : ℕ) :
    (em >>> k).mantissa = em.mantissa / 2 ^ k := by
  induction k with
  | zero =>
    rw [Nat.pow_zero, Nat.div_one]
    rfl
  | succ k ih =>
    have hstep : em >>> (k + 1) = (em >>> k).shiftRightOne := rfl
    rw [hstep, ExtendedMantissa.shiftRightOne, ih, Nat.div_div_eq_div_mul, Nat.pow_succ]

/-- Rounding to nearest never goes below the bits that are kept. -/
theorem le_roundedMantissa (em : ExtendedMantissa) : em.mantissa ≤ em.roundedMantissa := by
  obtain ⟨m, r, s⟩ := em
  cases r <;> cases s <;> simp only [ExtendedMantissa.roundedMantissa, ExtendedMantissa.accuracy,
    Accuracy.roundToNearestEven] <;> omega

/-! ## Rounding -/

/-- The exponent that a mantissa asks for. -/
def target (m : ℕ) (e : ℤ) : ℤ := Float.Model.Format.binary64.targetExponent (totalExponent m e)

theorem target_eq (m : ℕ) (e : ℤ) : target m e = max (m.log2 + 1 + e - 53) (-1074) := rfl

/-- A shift to the exponent that the mantissa asks for, if no bit but the low ones is cut off. -/
theorem target_shift {m : ℕ} {e : ℤ} (hm : 0 < m) {k : ℕ} (hk : k ≤ m.log2) :
    target (m / 2 ^ k) (e + k) = target m e := by
  rw [target_eq, target_eq, log2_div hm hk]
  omega

theorem shift_pos {m k : ℕ} (hm : 0 < m) (hk : k ≤ m.log2) : 0 < m / 2 ^ k :=
  Nat.div_pos ((Nat.pow_le_pow_right (by decide) hk).trans (Nat.log2_self_le hm.ne'))
    (Nat.two_pow_pos k)

theorem shiftToTargetExponent_eq {m : ℕ} {e : ℤ} {k : ℕ} (h : target m e = e + k) :
    shiftToTargetExponent .binary64 m e .exact = (ExtendedMantissa.mk m false false >>> k, e + k) := by
  have hk : (target m e - e).toNat = k := by omega
  rw [← hk]
  rfl

/-- Rounding leads to a finite number with the exponent that its mantissa asks for. Unless that is
larger than the exponent asked for at first, the number is not below the bits that are kept. -/
theorem exists_roundWithAccuracy (s : Sign) {m : ℕ} {e : ℤ} (hm : 0 < m) (he : e ≤ target m e)
    (hk : target m e - e ≤ m.log2) :
    ∃ m' e' hm', roundWithAccuracy .binary64 s m e .exact = .finite s m' e' hm' ∧
      target m' e' = e' ∧ target m e ≤ e' ∧
      (e' = target m e → m / 2 ^ (target m e - e).toNat ≤ m') := by
  obtain ⟨k, hkt⟩ : ∃ k : ℕ, target m e = e + k := ⟨(target m e - e).toNat, by omega⟩
  have hsub : (target m e - e).toNat = k := by omega
  -- The first shift cuts off bits; what is left is rounded to `r`, which is not below it.
  have hshift := mantissa_shiftRight ⟨m, false, false⟩ k
  have hround := le_roundedMantissa (ExtendedMantissa.mk m false false >>> k)
  set r := (ExtendedMantissa.mk m false false >>> k).roundedMantissa with hr
  rw [hshift] at hround
  dsimp only at hround
  have hkm : k ≤ m.log2 := by omega
  have hpos : 0 < m / 2 ^ k := shift_pos hm hkm
  have hrpos : 0 < r := by omega
  have hlog := log2_mono hpos hround
  have htarget : target m e ≤ target r (e + k) := by
    rw [← target_shift hm hkm, target_eq, target_eq]
    omega
  -- Rounding can have carried into one more bit, which the second shift makes room for.
  obtain ⟨l, hl⟩ : ∃ l : ℕ, target r (e + k) = e + k + l :=
    ⟨(target r (e + k) - (e + k)).toNat, by omega⟩
  have hlr : l ≤ r.log2 := by
    have hm' := target_eq m e
    have hr' := target_eq r (e + k)
    omega
  refine ⟨r / 2 ^ l, e + k + l, shift_pos hrpos hlr, ?_, ?_, by omega, fun heq => ?_⟩
  · have hmantissa := mantissa_shiftRight ⟨r, false, false⟩ l
    simp only [roundWithAccuracy, shiftToTargetExponent_eq hkt, ← hr, shiftToTargetExponent_eq hl,
      hmantissa, (shift_pos hrpos hlr).ne', ↓reduceDIte]
  · rw [target_shift hrpos hlr, hl]
  · have hzero : l = 0 := by omega
    rw [hsub, hzero, Nat.pow_zero, Nat.div_one]
    exact hround

/-! ## Packing -/

theorem finite_congr {s : Sign} {m m' : ℕ} {e e' : ℤ} {hm : 0 < m} {hm' : 0 < m'} (h : m = m')
    (he : e = e') : UnpackedFloat.finite s m e hm = .finite s m' e' hm' := by
  subst h he
  rfl

theorem toNat_leadingOne {m : ℕ} (hlow : 2 ^ 52 ≤ m) (hlt : m < 2 ^ 53) :
    (1#1 ++ BitVec.ofNat 52 m).toNat = m := by
  rw [BitVec.toNat_append, BitVec.toNat_ofNat, BitVec.toNat_ofNat,
    ← Nat.shiftLeft_add_eq_or_of_lt (Nat.mod_lt _ (Nat.two_pow_pos 52)), Nat.shiftLeft_eq]
  omega

theorem unpack_subnormal (s : Sign) {mantissa : BitVec 52} {m : ℕ} (hm : 0 < m)
    (h : mantissa.toNat = m) :
    UnpackedFloat.unpack .binary64 (packComponents .binary64 s 0#11 mantissa) =
      .finite s m (-1074) hm := by
  have hne : mantissa ≠ 0#52 := fun hzero => by
    rw [hzero] at h
    exact hm.ne h
  unfold UnpackedFloat.unpack
  simp only [unpackExponent_packComponents, unpackMantissa_packComponents,
    unpackSign_packComponents, Sign.ofBitVec_toBitVec]
  rw [if_neg (by decide), if_pos trivial, dif_neg hne]
  exact finite_congr h rfl

theorem unpack_normal (s : Sign) {exponent : BitVec 11} {mantissa : BitVec 52} {m k : ℕ}
    (hm : 0 < m) (h : (1#1 ++ mantissa).toNat = m) (hk : exponent.toNat = k) (hmin : 0 < k)
    (hmax : k < 2047) :
    UnpackedFloat.unpack .binary64 (packComponents .binary64 s exponent mantissa) =
      .finite s m (k - 1075) hm := by
  have hones : (-1#11).toNat = 2047 := rfl
  have hzero : (0#11).toNat = 0 := rfl
  unfold UnpackedFloat.unpack
  simp only [unpackExponent_packComponents, unpackMantissa_packComponents,
    unpackSign_packComponents, Sign.ofBitVec_toBitVec]
  rw [if_neg (fun he => by rw [he] at hk; omega), if_neg (fun he => by rw [he] at hk; omega)]
  exact finite_congr h (by rw [hk]; rfl)

/-- Packing keeps a finite number whose exponent is the one that its mantissa asks for, unless the
exponent is too large. -/
theorem rounded_canonical (s : Sign) {m : ℕ} {e : ℤ} (hm : 0 < m) (h : target m e = e)
    (he : e ≤ 971) : rounded (.finite s m e hm) = .finite s m e hm := by
  rw [target_eq] at h
  have hlt : m < 2 ^ 53 := (Nat.log2_lt hm.ne').1 (by omega)
  have hbits : Float.Model.Format.binary64.mantissaBits = 53 := rfl
  unfold rounded Float.Model.pack Float.Model.unpack UnpackedFloat.pack
  dsimp only
  rw [exponentBias_binary64, if_neg (by omega)]
  split
  · next hlog =>
    have hlow : 2 ^ 52 ≤ m := (Nat.le_log2 hm.ne').1 (by omega)
    have hk : (BitVec.ofNat 11 (e + 1023 + 52).toNat).toNat = (e + 1023 + 52).toNat := by
      rw [BitVec.toNat_ofNat, Nat.mod_eq_of_lt (by omega)]
    refine (unpack_normal s hm (toNat_leadingOne hlow hlt) hk (by omega) (by omega)).trans ?_
    exact finite_congr rfl (by omega)
  · next hlog =>
    have hsub : m < 2 ^ 52 := (Nat.log2_lt hm.ne').1 (by omega)
    have hmod : (BitVec.ofNat 52 m).toNat = m := by
      rw [BitVec.toNat_ofNat, Nat.mod_eq_of_lt hsub]
    exact (unpack_subnormal s hm hmod).trans (finite_congr rfl (by omega))

/-! ## Products -/

theorem rank_zero : rank (parts 0) = some (toLex (0, toLex (0, 0))) := rfl

theorem rank_positive {m : ℕ} (e : ℤ) (hm : 0 < m) :
    rank (.finite .positive m e hm) = some (toLex (1, toLex (e, (m : ℤ)))) := rfl

theorem parts_of_pos {a : Float} (h : 0 < a) :
    parts a = .infinity .positive ∨ ∃ m e hm, parts a = .finite .positive m e hm := by
  obtain ⟨x, y, hx, hy, hxy⟩ := lt_iff.1 h
  rw [rank_zero] at hx
  cases hx
  cases hp : parts a with
  | notANumber =>
    rw [hp] at hy
    cases hy
  | zero s =>
    rw [hp] at hy
    cases hy
    exact absurd hxy (lt_irrefl _)
  | infinity s =>
    rw [hp] at hy
    cases s with
    | positive => exact .inl rfl
    | negative =>
      cases hy
      simp [Prod.Lex.toLex_lt_toLex] at hxy
  | finite s m e hm =>
    rw [hp] at hy
    cases s with
    | positive => exact .inr ⟨m, e, hm, rfl⟩
    | negative =>
      cases hy
      simp [Prod.Lex.toLex_lt_toLex] at hxy

theorem zero_lt_one : (0 : Float) < 1 := by decide +kernel

/-- A double above one has all its bits, and its last bit weighs at least that of one. -/
theorem parts_of_one_lt {b : Float} (h : 1 < b) :
    parts b = .infinity .positive ∨
      ∃ m e hm, parts b = .finite .positive m e hm ∧ 2 ^ 52 ≤ m ∧ -52 ≤ e := by
  rcases parts_of_pos (Ordered.lt_of_le_of_lt (Ordered.le_of_lt zero_lt_one) h) with
    hp | ⟨m, e, hm, hp⟩
  · exact .inl hp
  · refine .inr ⟨m, e, hm, hp, ?_⟩
    obtain ⟨x, y, hx, hy, hxy⟩ := lt_iff.1 h
    rw [parts_one, rank_positive] at hx
    rw [hp, rank_positive] at hy
    cases hx
    cases hy
    have hcan : target m e = e := canonical hp
    rw [target_eq] at hcan
    simp only [Prod.Lex.toLex_lt_toLex, lt_self_iff_false, true_and, false_or] at hxy
    rcases hxy with he | ⟨rfl, hlt⟩
    · have hlog : 52 ≤ m.log2 := by omega
      exact ⟨(Nat.le_log2 hm.ne').1 hlog, he.le⟩
    · exact ⟨by omega, le_rfl⟩

/-- The exact product has the lower exponent, so that rounding it cuts off low bits only. -/
theorem le_rounded_mul {m m' : ℕ} {e e' : ℤ} (hm : 0 < m) (h : target m e = e) (hm' : 2 ^ 52 ≤ m')
    (he' : -52 ≤ e') :
    ∃ m₂ e₂ hm₂, roundWithAccuracy .binary64 .positive (m * m') (e + e') .exact =
        .finite .positive m₂ e₂ hm₂ ∧ target m₂ e₂ = e₂ ∧
          toLex (e, (m : ℤ)) ≤ toLex (e₂, (m₂ : ℤ)) := by
  have hpos : 0 < m * m' := Nat.mul_pos hm (by omega)
  have hlog : m.log2 + 52 ≤ (m * m').log2 := by
    rw [← log2_shifted hm]
    exact log2_mono (by omega) (Nat.mul_le_mul_left m hm')
  have ht := target_eq (m * m') (e + e')
  rw [target_eq] at h
  obtain ⟨m₂, e₂, hm₂, hr, hcan, hle, hkeep⟩ :=
    exists_roundWithAccuracy .positive hpos (e := e + e') (by omega) (by omega)
  refine ⟨m₂, e₂, hm₂, hr, hcan, ?_⟩
  rw [Prod.Lex.toLex_le_toLex]
  rcases lt_or_eq_of_le (show e ≤ e₂ by omega) with hlt | rfl
  · exact .inl hlt
  · -- With the exponent unchanged, at most the 52 bits that `m'` has added are cut off.
    refine .inr ⟨rfl, Int.ofNat_le.2 ((hkeep (by omega)).trans' ?_)⟩
    rw [Nat.le_div_iff_mul_le (Nat.two_pow_pos _)]
    refine Nat.mul_le_mul_left m (hm'.trans' (Nat.pow_le_pow_right (by decide) (by omega)))

theorem rounded_of_target {m : ℕ} {e : ℤ} (hm : 0 < m) (h : target m e = e) :
    rounded (.finite .positive m e hm) = .finite .positive m e hm ∨
      rounded (.finite .positive m e hm) = .infinity .positive := by
  by_cases he : e ≤ 971
  · exact .inl (rounded_canonical .positive hm h he)
  · exact .inr (rounded_large .positive m hm (by omega))

/-- A positive double times one above one is not smaller, although the product is rounded. -/
theorem le_mul {a b : Float} (ha : 0 < a) (hb : 1 < b) : a ≤ a * b := by
  rw [le_iff, parts_mul]
  rcases parts_of_pos ha with ha | ⟨m, e, hm, ha⟩ <;>
    rcases parts_of_one_lt hb with hb | ⟨m', e', hm', hb, hmin, hexp⟩ <;> rw [ha, hb]
  · exact ⟨_, _, rfl, rfl, le_rfl⟩
  · exact ⟨_, _, rfl, congrArg rank (rounded_infinity .positive), le_rfl⟩
  · refine ⟨_, _, rfl, congrArg rank (rounded_infinity .positive), ?_⟩
    simp [Prod.Lex.toLex_le_toLex]
  · obtain ⟨m₂, e₂, hm₂, hr, hcan, hle⟩ := le_rounded_mul hm (canonical ha) hmin hexp
    rw [UnpackedFloat.mul, mul_positive, hr]
    rcases rounded_of_target hm₂ hcan with h | h <;> rw [h]
    · refine ⟨_, _, rfl, rfl, ?_⟩
      rw [Prod.Lex.toLex_le_toLex]
      exact .inr ⟨rfl, hle⟩
    · refine ⟨_, _, rfl, rfl, ?_⟩
      simp [Prod.Lex.toLex_le_toLex]

/-! ## Differences with zero -/

theorem beq_zero_or_pos {a : Float} (h : 0 ≤ a) : (a == 0) = true ∨ 0 < a := by
  by_cases hz : a ≤ 0
  · exact .inl (Ordered.beq_iff.2 ⟨hz, h⟩)
  · exact .inr (Ordered.lt_iff.2 ⟨h, hz⟩)

theorem sub_zero_nonneg {a : Float} (h : 0 ≤ a) : 0 ≤ a - 0 := by
  rcases beq_zero_or_pos h with hz | hpos
  · exact (Ordered.beq_iff.1 (ZeroLaws.sub_zero hz Arithmetic.zero_beq_zero)).2
  · rw [le_iff, parts_sub, parts_zero]
    rcases parts_of_pos hpos with hp | ⟨m, e, hm, hp⟩
    · rw [hp]
      exact ⟨_, _, rfl, rfl, by decide⟩
    · have hsub : rounded (UnpackedFloat.sub .binary64 (.finite .positive m e hm)
          (.zero .positive)) = .finite .positive m e hm :=
        rounded_canonical .positive hm (canonical hp) (bounds hp).2.2
      rw [hp, hsub]
      exact ⟨_, _, rfl, rfl, by simp [Prod.Lex.toLex_le_toLex]⟩

theorem zero_sub_nonpos {a : Float} (h : 0 ≤ a) : 0 - a ≤ 0 := by
  rcases beq_zero_or_pos h with hz | hpos
  · exact (Ordered.beq_iff.1 (ZeroLaws.sub_zero Arithmetic.zero_beq_zero hz)).1
  · rw [le_iff, parts_sub, parts_zero]
    rcases parts_of_pos hpos with hp | ⟨m, e, hm, hp⟩
    · rw [hp]
      exact ⟨_, _, rfl, rfl, by decide⟩
    · have hsub : rounded (UnpackedFloat.sub .binary64 (.zero .positive)
          (.finite .positive m e hm)) = .finite .negative m e hm :=
        rounded_canonical .negative hm (canonical hp) (bounds hp).2.2
      rw [hp, hsub]
      exact ⟨_, _, rfl, rfl, by simp [Prod.Lex.toLex_le_toLex]⟩

theorem parts_half_infinity :
    parts (Scalar.half * Scalar.infinity) = .infinity .positive := by rfl

theorem not_half_infinity_lt (a : Float) : ¬ Scalar.half * Scalar.infinity < a :=
  not_lt_of_infinity parts_half_infinity a

instance instGrowth : Growth Float where
  le_mul := le_mul
  sub_zero_nonneg := sub_zero_nonneg
  zero_sub_nonpos := zero_sub_nonpos
  zero_sub_zero := by rfl
  not_half_infinity_lt := not_half_infinity_lt

end Optima.Double
