import Mathlib

/-!
# Floats that are not negative

Travel times and moments of patterns are sums, products, differences and quotients
of floats, and a trigger takes them only if they are not negative.  NaN is not
allowed either, and an infinite factor makes one (`∞ * 0`).  So two things have to be
known about a result: that it is not negative, and that it is finite.

Signs are easy, since no rounding changes one.  A result is finite if it is not above
a finite operand: rounding does not cross a float (`round_le`), so the exponent of
the result is not above that of the operand.
-/

namespace Barrage.Number

open Float.Model (Format UnpackedFloat totalExponent)
open Float.Model.UnpackedFloat

/-! ## Not negative -/

/-- The value is not negative, and not NaN. -/
def Nonneg : UnpackedFloat → Prop
  | .infinity s => s = .positive
  | .notANumber => False
  | .zero _ => True
  | .finite s _ _ _ => s = .positive

theorem zero_le_iff {x : Float} : 0.0 ≤ x ↔ Nonneg x.toModel.unpack := by
  have hle : 0.0 ≤ x ↔ UnpackedFloat.le (.zero .positive) x.toModel.unpack = true := by
    change Float.le 0.0 x = true ↔ _
    rw [Float.le, decide_eq_true_iff]
    rfl
  rw [hle]
  cases x.toModel.unpack with
  | infinity s => cases s <;> simp [Nonneg, UnpackedFloat.le, UnpackedFloat.compare]
  | notANumber => simp [Nonneg, UnpackedFloat.le, UnpackedFloat.compare]
  | zero s => simp [Nonneg, UnpackedFloat.le, UnpackedFloat.compare]
  | finite s m e h => cases s <;> simp [Nonneg, UnpackedFloat.le, UnpackedFloat.compare]

theorem lt_iff {x y : Float} :
    x < y ↔ UnpackedFloat.compare x.toModel.unpack y.toModel.unpack = some .lt := by
  change Float.lt x y = true ↔ _
  rw [Float.lt, decide_eq_true_iff]
  change (_ == _) = true ↔ _
  rw [beq_iff_eq]

theorem isFinite_iff {x : Float} : x.isFinite ↔ x.toModel.unpack.isFinite := Iff.rfl

theorem unpack_zero : (0.0 : Float).toModel.unpack = .zero .positive := rfl

theorem zero_le_of_lt {x : Float} (h : 0.0 < x) : 0.0 ≤ x := by
  rw [lt_iff, unpack_zero] at h
  rw [zero_le_iff]
  generalize x.toModel.unpack = u at h ⊢
  rcases u with (_ | _) | _ | _ | ⟨_ | _, _, _, _⟩ <;> first | trivial | cases h

theorem zero_le_iff_not {x : Float} : 0.0 ≤ x ↔ ¬ (x < 0.0 ∨ x.isNaN) := by
  have hnan : x.isNaN = x.toModel.unpack.isNaN := rfl
  rw [zero_le_iff, lt_iff, unpack_zero, hnan]
  rcases x.toModel.unpack with (_ | _) | _ | _ | ⟨_ | _, _, _, _⟩ <;>
    simp [Nonneg, UnpackedFloat.compare, UnpackedFloat.isNaN]

/-- The value is finite and has a sign. -/
def Signed (s : Sign) : UnpackedFloat → Prop
  | .zero t => t = s
  | .finite t _ _ _ => t = s
  | _ => False

theorem Signed.nonneg {u : UnpackedFloat} (h : Signed .positive u) : Nonneg u := by
  cases u with
  | infinity s => cases h
  | notANumber => cases h
  | zero s => trivial
  | finite s m e hm => exact h

theorem Signed.isFinite {s : Sign} {u : UnpackedFloat} (h : Signed s u) : u.isFinite := by
  cases u with
  | infinity s => cases h
  | notANumber => cases h
  | zero s => rfl
  | finite s m e hm => rfl

/-! ## Packing -/

/-- A float after it was stored. -/
def stored (u : UnpackedFloat) : UnpackedFloat := unpack Format.binary64 (pack Format.binary64 u)

theorem signed_of_components {s : Sign} {e : BitVec 11} {m : BitVec 52} (he : e ≠ -1#11) :
    Signed s (unpack Format.binary64 (packComponents Format.binary64 s e m)) := by
  simp only [unpack, unpackExponent_packComponents, unpackMantissa_packComponents,
    unpackSign_packComponents, Sign.ofBitVec_toBitVec, if_neg he]
  split
  · split <;> rfl
  · rfl

theorem ofNat_ne_neg_one {n : Nat} (h : ¬ 2048 ≤ n + 1) : BitVec.ofNat 11 n ≠ -1#11 := by
  intro heq
  have := congrArg BitVec.toNat heq
  simp at this
  omega

@[simp] theorem stored_infinity (s : Sign) : stored (.infinity s) = .infinity s := by
  cases s <;> rfl

@[simp] theorem stored_zero (s : Sign) : stored (.zero s) = .zero s := unpack_packedZero

/-- A finite value that is too large becomes infinite. -/
theorem stored_finite (s : Sign) (m : Nat) (e : Int) (h : 0 < m) :
    (stored (.finite s m e h) = .infinity s ∧ 971 < e) ∨ Signed s (stored (.finite s m e h)) := by
  simp only [stored, pack]
  split
  next hover =>
    refine Or.inl ⟨stored_infinity s, ?_⟩
    change 2048 ≤ (e + 1023 + 52).toNat + 1 at hover
    omega
  next hover =>
    refine Or.inr ?_
    split
    · exact signed_of_components (ofNat_ne_neg_one hover)
    · exact signed_of_components (by decide)

theorem Nonneg.stored {u : UnpackedFloat} (h : Nonneg u) : Nonneg (stored u) := by
  cases u with
  | infinity s =>
      rw [stored_infinity]
      exact h
  | notANumber => cases h
  | zero s =>
      rw [stored_zero]
      exact h
  | finite s m e hm =>
      cases (h : s = .positive)
      rcases stored_finite .positive m e hm with ⟨hinf, -⟩ | hsigned
      · rw [hinf]
        rfl
      · exact hsigned.nonneg

/-- The value is finite, has a sign, and fits without becoming infinite. -/
def Fits (s : Sign) (k : Int) : UnpackedFloat → Prop
  | .zero t => t = s
  | .finite t _ e _ => t = s ∧ e ≤ k
  | _ => False

theorem Fits.stored {s : Sign} {u : UnpackedFloat} (h : Fits s 971 u) : Signed s (stored u) := by
  cases u with
  | infinity s => cases h
  | notANumber => cases h
  | zero t =>
      rw [stored_zero]
      exact h
  | finite t m e hm =>
      obtain ⟨rfl, he⟩ := (h : t = s ∧ e ≤ 971)
      rcases stored_finite t m e hm with ⟨-, hlarge⟩ | hsigned
      · omega
      · exact hsigned

theorem toNat_one_append (m : BitVec 52) : (1#1 ++ m).toNat = 2 ^ 52 + m.toNat := by
  rw [BitVec.toNat_append, Nat.shiftLeft_eq, Nat.mul_comm, ← Nat.two_pow_add_eq_or_of_lt m.isLt]
  rfl

/-- A stored float is in canonical form. -/
theorem canonical_of_unpack {b : BitVec 64} {s : Sign} {m : Nat} {e : Int} {h : 0 < m}
    (hb : unpack Format.binary64 b = .finite s m e h) :
    m < 2 ^ 53 ∧ -1074 ≤ e ∧ e ≤ 971 ∧ (2 ^ 52 ≤ m ∨ e = -1074) := by
  have hbias : (Format.binary64.exponentBias : Int) = 1023 := rfl
  have hm : (@unpackMantissa Format.binary64 b).toNat < 2 ^ 52 := BitVec.isLt _
  have he : (@unpackExponent Format.binary64 b).toNat < 2 ^ 11 := BitVec.isLt _
  simp only [unpack, hbias] at hb
  split at hb
  · split at hb <;> cases hb
  next hfinite =>
    have htop : (@unpackExponent Format.binary64 b).toNat ≠ 2047 := fun heq =>
      hfinite (BitVec.eq_of_toNat_eq heq)
    split at hb
    next hzero =>
      split at hb
      · cases hb
      · cases hb
        simp only [hzero, BitVec.toNat_ofNat]
        omega
    next hzero =>
      have hpos : (@unpackExponent Format.binary64 b).toNat ≠ 0 := fun heq =>
        hzero (BitVec.eq_of_toNat_eq heq)
      obtain ⟨-, rfl, rfl⟩ := UnpackedFloat.finite.inj hb
      rw [toNat_one_append (@unpackMantissa Format.binary64 b)]
      omega

/-! ## Rounding -/

theorem targetExponent_eq (te : Int) : Format.binary64.targetExponent te = max (te - 53) (-1074) :=
  rfl

theorem mantissa_shiftRight (em : ExtendedMantissa) (k : Nat) :
    (em >>> k).mantissa = em.mantissa / 2 ^ k := by
  induction k with
  | zero => exact (Nat.div_one _).symm
  | succ k ih =>
      change (em >>> k).mantissa / 2 = _
      rw [ih, Nat.div_div_eq_div_mul, Nat.pow_succ]

/-- Nothing is lost when zeros are shifted out. -/
theorem shiftRight_mul_two_pow (m k : Nat) :
    (⟨m * 2 ^ k, false, false⟩ : ExtendedMantissa) >>> k = ⟨m, false, false⟩ := by
  induction k generalizing m with
  | zero => simp [HShiftRight.hShiftRight, Nat.repeat]
  | succ k ih =>
      have hsplit : m * 2 ^ (k + 1) = (m * 2) * 2 ^ k := by ring
      rw [hsplit]
      change ((⟨m * 2 * 2 ^ k, false, false⟩ : ExtendedMantissa) >>> k).shiftRightOne = _
      rw [ih]
      simp [ExtendedMantissa.shiftRightOne]

theorem roundedMantissa_le (em : ExtendedMantissa) : em.roundedMantissa ≤ em.mantissa + 1 := by
  rcases em with ⟨m, _ | _, _ | _⟩ <;>
    simp only [ExtendedMantissa.roundedMantissa, ExtendedMantissa.accuracy,
      Accuracy.roundToNearestEven] <;> omega

@[simp] theorem mantissa_ofMantissaAndAccuracy (m : Nat) (a : Accuracy) :
    (ExtendedMantissa.ofMantissaAndAccuracy m a).mantissa = m := by
  rcases a with _ | _ | _ | _ <;> rfl

/-- The mantissa and the exponent that rounding gives. -/
def rounded (m : Nat) (e : Int) (a : Accuracy) : ExtendedMantissa × Int :=
  let p := shiftToTargetExponent Format.binary64 m e a
  shiftToTargetExponent Format.binary64 p.1.roundedMantissa p.2 .exact

theorem round_eq (s : Sign) (m : Nat) (e : Int) (a : Accuracy) :
    roundWithAccuracy Format.binary64 s m e a =
      if h : (rounded m e a).1.mantissa = 0 then .zero s
      else .finite s (rounded m e a).1.mantissa (rounded m e a).2 (Nat.pos_of_ne_zero h) :=
  rfl

/-- Rounding keeps the sign. -/
theorem nonneg_round {m : Nat} {e : Int} {a : Accuracy} :
    Nonneg (roundWithAccuracy Format.binary64 .positive m e a) := by
  rw [round_eq]
  split <;> trivial

section Shift

variable {m N : Nat} {e k : Int} {a : Accuracy}

/-- A value that is not above a float is shifted to an exponent not above that of the
float. -/
theorem exponent_shift_le (hN : N < 2 ^ 53) (hk : -1074 ≤ k) (he : e ≤ k)
    (hm : m ≤ N * 2 ^ (k - e).toNat) : (shiftToTargetExponent Format.binary64 m e a).2 ≤ k := by
  have htarget : Format.binary64.targetExponent (totalExponent m e) ≤ k := by
    rw [targetExponent_eq, totalExponent]
    rcases Nat.eq_zero_or_pos m with rfl | hpos
    · simp only [Nat.log2_zero]
      omega
    · have hlt : m < 2 ^ (53 + (k - e).toNat) := by
        rw [Nat.pow_add]
        exact lt_of_le_of_lt hm (Nat.mul_lt_mul_of_pos_right hN (Nat.two_pow_pos _))
      have := (Nat.log2_lt hpos.ne').2 hlt
      omega
  simp only [shiftToTargetExponent, shiftToExponent]
  omega

/-- A value below a float is not rounded across it. -/
theorem rounded_shift_le (hm : m < N * 2 ^ (k - e).toNat)
    (hk : (shiftToTargetExponent Format.binary64 m e a).2 ≤ k) :
    (shiftToTargetExponent Format.binary64 m e a).1.roundedMantissa ≤
      N * 2 ^ (k - (shiftToTargetExponent Format.binary64 m e a).2).toNat := by
  simp only [shiftToTargetExponent, shiftToExponent] at hk ⊢
  generalize (Format.binary64.targetExponent (totalExponent m e) - e).toNat = d at hk ⊢
  have hsplit : N * 2 ^ (k - e).toNat = 2 ^ d * (N * 2 ^ (k - (e + d)).toNat) := by
    have hpow : (k - e).toNat = d + (k - (e + d)).toNat := by omega
    rw [hpow, Nat.pow_add]
    ring
  have hle := roundedMantissa_le (ExtendedMantissa.ofMantissaAndAccuracy m a >>> d)
  rw [mantissa_shiftRight, mantissa_ofMantissaAndAccuracy] at hle
  have hlt : m / 2 ^ d < N * 2 ^ (k - (e + d)).toNat := Nat.div_lt_of_lt_mul (hsplit ▸ hm)
  omega

theorem fits_round {s : Sign} (hN : N < 2 ^ 53) (hk : -1074 ≤ k) (he : e ≤ k)
    (hm : m < N * 2 ^ (k - e).toNat) :
    Fits s k (roundWithAccuracy Format.binary64 s m e a) := by
  have hfirst := exponent_shift_le (a := a) hN hk he hm.le
  have hsecond := exponent_shift_le (a := .exact) hN hk hfirst (rounded_shift_le hm hfirst)
  rw [round_eq]
  split
  · rfl
  · exact ⟨rfl, hsecond⟩

end Shift

section Exact

variable {s : Sign} {m : Nat} {e : Int}

theorem log2_mul_pow (hm : 0 < m) (k : Nat) : (m * 2 ^ k).log2 = m.log2 + k := by
  have hpos := Nat.two_pow_pos k
  rw [Nat.log2_eq_iff (Nat.mul_ne_zero hm.ne' hpos.ne')]
  constructor
  · rw [Nat.pow_add]
    exact Nat.mul_le_mul_right _ (Nat.log2_self_le hm.ne')
  · rw [Nat.add_right_comm, Nat.pow_add]
    exact Nat.mul_lt_mul_of_pos_right Nat.lt_log2_self hpos

theorem log2_of_full (hlow : 2 ^ 52 ≤ m) (hhigh : m < 2 ^ 53) : m.log2 = 52 :=
  (Nat.log2_eq_iff (by omega)).2 ⟨hlow, hhigh⟩

/-- A float with zeros behind it is shifted back to the float. -/
theorem shift_exact (hlow : 2 ^ 52 ≤ m) (hhigh : m < 2 ^ 53) (he : -1074 ≤ e) (k : Nat) :
    shiftToTargetExponent Format.binary64 (m * 2 ^ k) (e - k) .exact =
      (⟨m, false, false⟩, e) := by
  have hd : (Format.binary64.targetExponent (totalExponent (m * 2 ^ k) (e - k)) - (e - k)).toNat
      = k := by
    rw [targetExponent_eq, totalExponent, log2_mul_pow (by omega), log2_of_full hlow hhigh]
    omega
  simp only [shiftToTargetExponent, shiftToExponent, hd, ExtendedMantissa.ofMantissaAndAccuracy,
    shiftRight_mul_two_pow, sub_add_cancel]

/-- A value that is a float is not rounded. -/
theorem round_exact (h : 0 < m) (hlow : 2 ^ 52 ≤ m) (hhigh : m < 2 ^ 53) (he : -1074 ≤ e)
    (k : Nat) :
    roundWithAccuracy Format.binary64 s (m * 2 ^ k) (e - k) .exact = .finite s m e h := by
  have hrounded : rounded (m * 2 ^ k) (e - k) .exact = (⟨m, false, false⟩, e) := by
    have hagain := shift_exact hlow hhigh he 0
    rw [pow_zero, Nat.mul_one, Nat.cast_zero, sub_zero] at hagain
    rw [rounded, shift_exact hlow hhigh he]
    exact hagain
  simp only [round_eq, hrounded, dif_neg h.ne']

theorem pack_exact (h : 0 < m) (hlow : 2 ^ 52 ≤ m) (hhigh : m < 2 ^ 53) (he : e ≤ 971) :
    pack Format.binary64 (.finite s m e h) =
      packComponents Format.binary64 s (BitVec.ofNat 11 (e + 1023 + 52).toNat) (BitVec.ofNat 52 m) := by
  have hlog := log2_of_full hlow hhigh
  have hfits : ¬ 2048 ≤ (e + 1023 + 52).toNat + 1 := by omega
  have hbits : m.log2 + 1 = Format.binary64.mantissaBits := by rw [hlog]; rfl
  rw [pack]
  exact (if_neg hfits).trans (if_pos hbits)

theorem stored_exact (h : 0 < m) (hlow : 2 ^ 52 ≤ m) (hhigh : m < 2 ^ 53) (he : -1074 ≤ e)
    (he' : e ≤ 971) : stored (.finite s m e h) = .finite s m e h := by
  have htop : BitVec.ofNat 11 (e + 1023 + 52).toNat ≠ -1#11 := ofNat_ne_neg_one (by omega)
  have hzero : BitVec.ofNat 11 (e + 1023 + 52).toNat ≠ 0#11 := by
    intro heq
    have := congrArg BitVec.toNat heq
    simp at this
    omega
  have hbias : (Format.binary64.exponentBias : Int) = 1023 := rfl
  simp only [stored, pack_exact h hlow hhigh he', unpack, unpackExponent_packComponents,
    unpackMantissa_packComponents, unpackSign_packComponents, Sign.ofBitVec_toBitVec,
    if_neg htop, if_neg hzero, UnpackedFloat.finite.injEq, true_and]
  constructor
  · rw [toNat_one_append, BitVec.toNat_ofNat]
    omega
  · rw [BitVec.toNat_ofNat, hbias]
    omega

end Exact

/-! ## Operations -/

theorem normalize_of_pos {m : Int} {e : Int} {s : Sign} (h : 0 < m) :
    UnpackedFloat.normalize Format.binary64 m e s =
      UnpackedFloat.round Format.binary64 .positive m.toNat e := by
  simp only [UnpackedFloat.normalize, Int.compare_eq_gt.2 h]

theorem nonneg_normalize {m : Int} {e : Int} {s : Sign} (h : 0 < m) :
    Nonneg (UnpackedFloat.normalize Format.binary64 m e s) := by
  rw [normalize_of_pos h]
  exact nonneg_round

theorem Nonneg.add {u v : UnpackedFloat} (hu : Nonneg u) (hv : Nonneg v) :
    Nonneg (UnpackedFloat.add Format.binary64 u v) := by
  cases u with
  | notANumber => cases hu
  | infinity s =>
      cases (hu : s = .positive)
      cases v with
      | notANumber => cases hv
      | infinity t =>
          cases (hv : t = .positive)
          rfl
      | zero t => rfl
      | finite t m e hm => rfl
  | zero s =>
      cases v with
      | notANumber => cases hv
      | infinity t => exact hv
      | zero t => cases s <;> cases t <;> trivial
      | finite t m e hm => exact hv
  | finite s m₁ e₁ h₁ =>
      cases (hu : s = .positive)
      cases v with
      | notANumber => cases hv
      | infinity t => exact hv
      | zero t => rfl
      | finite t m₂ e₂ h₂ =>
          cases (hv : t = .positive)
          refine nonneg_normalize ?_
          simp only [Sign.apply, Nat.shiftLeft_eq]
          have := Nat.mul_pos h₁ (Nat.two_pow_pos (e₁ - min e₁ e₂).toNat)
          omega

theorem Nonneg.mul {u v : UnpackedFloat} (hu : Nonneg u) (hv : Nonneg v) (hu' : u.isFinite)
    (hv' : v.isFinite) : Nonneg (UnpackedFloat.mul Format.binary64 u v) := by
  cases u with
  | notANumber => cases hu
  | infinity s => cases hu'
  | zero s =>
      cases v with
      | notANumber => cases hv
      | infinity t => cases hv'
      | zero t => trivial
      | finite t m e hm => trivial
  | finite s m₁ e₁ h₁ =>
      cases v with
      | notANumber => cases hv
      | infinity t => cases hv'
      | zero t => trivial
      | finite t m₂ e₂ h₂ =>
          cases (hu : s = .positive)
          cases (hv : t = .positive)
          exact nonneg_round

/-- A finite factor that is not zero makes no NaN of an infinite one. -/
theorem Nonneg.mul_of_pos {m : Nat} {e : Int} {h : 0 < m} {v : UnpackedFloat} (hv : Nonneg v) :
    Nonneg (UnpackedFloat.mul Format.binary64 (.finite .positive m e h) v) := by
  cases v with
  | notANumber => cases hv
  | infinity t =>
      cases (hv : t = .positive)
      rfl
  | zero t => trivial
  | finite t m₂ e₂ h₂ =>
      cases (hv : t = .positive)
      exact nonneg_round

theorem Fits.mono {s : Sign} {j k : Int} {u : UnpackedFloat} (h : Fits s j u) (hjk : j ≤ k) :
    Fits s k u := by
  cases u with
  | notANumber => cases h
  | infinity s => cases h
  | zero t => exact h
  | finite t m e hm => exact ⟨h.1, h.2.trans hjk⟩

/-- A difference with a smaller float is finite. -/
theorem fits_sub {m₁ m₂ : Nat} {e₁ e₂ : Int} {h₁ : 0 < m₁} {h₂ : 0 < m₂} (hm₁ : m₁ < 2 ^ 53)
    (he₁ : -1074 ≤ e₁) (he : e₂ ≤ e₁) (hlt : m₂ < m₁ * 2 ^ (e₁ - e₂).toNat) :
    Fits .positive e₁ (UnpackedFloat.sub Format.binary64 (.finite .positive m₁ e₁ h₁)
      (.finite .positive m₂ e₂ h₂)) := by
  simp only [UnpackedFloat.sub, decreaseExponent, Sign.apply, Nat.shiftLeft_eq, min_eq_right he,
    sub_self, Int.toNat_zero, pow_zero, Nat.mul_one]
  rw [normalize_of_pos (by omega), UnpackedFloat.round]
  simp only [decreaseExponent, Nat.shiftLeft_eq]
  generalize (e₂ - Format.binary64.targetExponent _).toNat = d
  have hdiff : ((m₁ * 2 ^ (e₁ - e₂).toNat : Nat) - (m₂ : Int)).toNat < m₁ * 2 ^ (e₁ - e₂).toNat := by
    omega
  have hpow : (e₁ - (e₂ - d)).toNat = (e₁ - e₂).toNat + d := by omega
  refine fits_round hm₁ he₁ (by omega) ?_
  rw [hpow, Nat.pow_add, ← Nat.mul_assoc]
  exact Nat.mul_lt_mul_of_pos_right hdiff (Nat.two_pow_pos d)

/-- A quotient by a float that is not below two is finite. -/
theorem fits_div {m₁ m₂ : Nat} {e₁ e₂ : Int} {h₁ : 0 < m₁} {h₂ : 0 < m₂} (hm₁ : m₁ < 2 ^ 53)
    (he₁ : -1074 ≤ e₁) (hm₂ : 2 ^ 52 ≤ m₂) (he₂ : -51 ≤ e₂) :
    Fits .positive e₁ (UnpackedFloat.div Format.binary64 (.finite .positive m₁ e₁ h₁)
      (.finite .positive m₂ e₂ h₂)) := by
  have hlog₁ : m₁.log2 < 53 := (Nat.log2_lt h₁.ne').2 hm₁
  have hlog₂ : 52 ≤ m₂.log2 := (Nat.le_log2 h₂.ne').2 hm₂
  simp only [UnpackedFloat.div, divCore, Nat.shiftLeft_eq]
  set t := min (e₁ - e₂) (Format.binary64.targetExponent
    (totalExponent m₁ e₁ - totalExponent m₂ e₂)) with ht
  have hle : t ≤ e₁ := by
    rw [targetExponent_eq, totalExponent, totalExponent] at ht
    omega
  refine fits_round hm₁ he₁ hle (Nat.div_lt_of_lt_mul ?_)
  have hd : (e₁ - e₂ - t).toNat ≤ 51 + (e₁ - t).toNat := by omega
  calc m₁ * 2 ^ (e₁ - e₂ - t).toNat
      ≤ m₁ * 2 ^ (51 + (e₁ - t).toNat) :=
        Nat.mul_le_mul_left _ (Nat.pow_le_pow_right (by omega) hd)
    _ = 2 ^ 51 * (m₁ * 2 ^ (e₁ - t).toNat) := by ring
    _ < m₂ * (m₁ * 2 ^ (e₁ - t).toNat) :=
        Nat.mul_lt_mul_of_pos_right (by omega) (Nat.mul_pos h₁ (Nat.two_pow_pos _))

/-! ## Naturals -/

section Naturals

variable {n : Nat}

/-- The mantissa of a natural as a float. -/
def mantissa (n : Nat) : Nat := n * 2 ^ (52 - n.log2)

theorem le_mantissa (hpos : 0 < n) (hn : n < 2 ^ 53) : 2 ^ 52 ≤ mantissa n := by
  have hlog : n.log2 < 53 := (Nat.log2_lt hpos.ne').2 hn
  calc 2 ^ 52 = 2 ^ n.log2 * 2 ^ (52 - n.log2) := by rw [← Nat.pow_add]; congr 1; omega
    _ ≤ n * 2 ^ (52 - n.log2) := Nat.mul_le_mul_right _ (Nat.log2_self_le hpos.ne')

theorem mantissa_lt (hpos : 0 < n) (hn : n < 2 ^ 53) : mantissa n < 2 ^ 53 := by
  have hlog : n.log2 < 53 := (Nat.log2_lt hpos.ne').2 hn
  calc n * 2 ^ (52 - n.log2)
      < 2 ^ (n.log2 + 1) * 2 ^ (52 - n.log2) :=
        Nat.mul_lt_mul_of_pos_right Nat.lt_log2_self (Nat.two_pow_pos _)
    _ = 2 ^ 53 := by rw [← Nat.pow_add]; congr 1; omega

theorem mantissa_pos (hpos : 0 < n) : 0 < mantissa n := Nat.mul_pos hpos (Nat.two_pow_pos _)

/-- A small natural is converted without rounding. -/
theorem ofNat_exact (hpos : 0 < n) (hn : n < 2 ^ 53) :
    ofNat Format.binary64 n = .finite .positive (mantissa n) (n.log2 - 52) (mantissa_pos hpos) := by
  have hlog : n.log2 < 53 := (Nat.log2_lt hpos.ne').2 hn
  have htarget : Format.binary64.targetExponent (totalExponent n 0) = n.log2 - 52 := by
    rw [targetExponent_eq, totalExponent]
    omega
  have hshift : (0 - ((n.log2 : Int) - 52)).toNat = 52 - n.log2 := by omega
  have hexp : (0 - ((52 - n.log2 : Nat) : Int)) = n.log2 - 52 := by omega
  have hround := round_exact (s := .positive) (e := n.log2 - 52) (mantissa_pos hpos)
    (le_mantissa hpos hn) (mantissa_lt hpos hn) (by omega) 0
  rw [pow_zero, Nat.mul_one, Nat.cast_zero, sub_zero] at hround
  rw [ofNat, ofInt, normalize_of_pos (by omega), UnpackedFloat.round]
  simp only [Int.toNat_natCast, htarget, decreaseExponent, hshift, Nat.shiftLeft_eq, hexp]
  exact hround

theorem unpack_toFloat (hpos : 0 < n) (hn : n < 2 ^ 53) :
    n.toUInt64.toFloat.toModel.unpack =
      .finite .positive (mantissa n) (n.log2 - 52) (mantissa_pos hpos) := by
  have hlog : n.log2 < 53 := (Nat.log2_lt hpos.ne').2 hn
  have hword : n.toUInt64.toNat = n := Nat.mod_eq_of_lt (by omega)
  have hconvert : n.toUInt64.toFloat.toModel.unpack =
      stored (ofNat Format.binary64 n.toUInt64.toNat) := rfl
  rw [hconvert, hword, ofNat_exact hpos hn,
    stored_exact _ (le_mantissa hpos hn) (mantissa_lt hpos hn) (by omega) (by omega)]

theorem mul_one_exact {s : Sign} {m : Nat} {e : Int} (h : 0 < m) (hlow : 2 ^ 52 ≤ m)
    (hhigh : m < 2 ^ 53) (he : -1074 ≤ e) :
    UnpackedFloat.mul Format.binary64 (.finite s m e h)
      (.finite .positive (2 ^ 52) (-52) (by decide)) = .finite s m e h := by
  have hsign : s * Sign.positive = s := by cases s <;> rfl
  have hround := round_exact (s := s) h hlow hhigh he 52
  rw [UnpackedFloat.mul, hsign]
  exact hround

/-- A small natural is a float. -/
theorem unpack_ofNat (hpos : 0 < n) (hn : n < 2 ^ 53) :
    (Float.ofNat n).toModel.unpack =
      .finite .positive (mantissa n) (n.log2 - 52) (mantissa_pos hpos) := by
  have hlog : n.log2 < 53 := (Nat.log2_lt hpos.ne').2 hn
  -- The conversion multiplies by the zeroth power of ten.
  have hscale : Float.ofNat n = n.toUInt64.toFloat * 1.0 := by
    change Float.ofScientific n false 0 = _
    rw [Float.ofScientific, dif_pos ⟨hn, by omega⟩]
    rfl
  have hmul : (n.toUInt64.toFloat * 1.0).toModel.unpack =
      stored (UnpackedFloat.mul Format.binary64 n.toUInt64.toFloat.toModel.unpack
        (.finite .positive (2 ^ 52) (-52) (by decide))) := rfl
  rw [hscale, hmul, unpack_toFloat hpos hn,
    mul_one_exact _ (le_mantissa hpos hn) (mantissa_lt hpos hn) (by omega),
    stored_exact _ (le_mantissa hpos hn) (mantissa_lt hpos hn) (by omega) (by omega)]

end Naturals

/-! ## Floats -/

section Floats

variable {x y : Float}

theorem add_nonneg (hx : 0.0 ≤ x) (hy : 0.0 ≤ y) : 0.0 ≤ x + y :=
  zero_le_iff.2 ((zero_le_iff.1 hx).add (zero_le_iff.1 hy)).stored

theorem mul_nonneg (hx : 0.0 ≤ x) (hy : 0.0 ≤ y) (hx' : x.isFinite) (hy' : y.isFinite) :
    0.0 ≤ x * y :=
  zero_le_iff.2 ((zero_le_iff.1 hx).mul (zero_le_iff.1 hy) hx' hy').stored

theorem mul_nonneg_of_pos (hx : 0.0 < x) (hx' : x.isFinite) (hy : 0.0 ≤ y) : 0.0 ≤ x * y := by
  have hprod : (x * y).toModel.unpack =
      stored (UnpackedFloat.mul Format.binary64 x.toModel.unpack y.toModel.unpack) := rfl
  rw [lt_iff, unpack_zero] at hx
  rw [isFinite_iff] at hx'
  rw [zero_le_iff, hprod]
  rw [zero_le_iff] at hy
  rcases hu : x.toModel.unpack with _ | _ | _ | ⟨_ | _, m, e, h⟩ <;> rw [hu] at hx hx'
  · cases hx'
  · cases hx
  · cases hx
  · cases hx
  · exact hy.mul_of_pos.stored

theorem ofNat_nonneg {n : Nat} (hn : n < 2 ^ 53) :
    0.0 ≤ Float.ofNat n ∧ (Float.ofNat n).isFinite := by
  rcases Nat.eq_zero_or_pos n with rfl | hpos
  · exact ⟨by decide, by decide⟩
  · rw [zero_le_iff, isFinite_iff, unpack_ofNat hpos hn]
    exact ⟨rfl, rfl⟩

/-- A sum with a product by zero is NaN if the other factor is infinite. -/
theorem isFinite_of_add_zero_mul (hy : 0.0 ≤ y) (h : 0.0 ≤ x + Float.ofNat 0 * y) : y.isFinite := by
  rw [zero_le_iff] at hy h
  rw [isFinite_iff]
  have hsum : (x + Float.ofNat 0 * y).toModel.unpack = stored (UnpackedFloat.add Format.binary64
      x.toModel.unpack (stored (UnpackedFloat.mul Format.binary64 (.zero .positive)
        y.toModel.unpack))) := rfl
  rw [hsum] at h
  cases hu : y.toModel.unpack with
  | notANumber =>
      rw [hu] at hy
      cases hy
  | infinity s =>
      rw [hu] at h
      have hnan : stored .notANumber = .notANumber := rfl
      have hadd : ∀ u, UnpackedFloat.add Format.binary64 u .notANumber = .notANumber := by
        intro u
        cases u <;> rfl
      rw [UnpackedFloat.mul, hnan, hadd, hnan] at h
      exact h.elim
  | zero s => rfl
  | finite s m e hm => rfl

/-- Positive floats are compared by their exponents first. -/
theorem exists_of_lt (hx : 0.0 < x) (hxy : x < y) (hy : y.isFinite) :
    ∃ m₁ e₁ h₁ m₂ e₂ h₂, x.toModel.unpack = .finite .positive m₁ e₁ h₁ ∧
      y.toModel.unpack = .finite .positive m₂ e₂ h₂ ∧ (e₁ < e₂ ∨ e₁ = e₂ ∧ m₁ < m₂) := by
  rw [lt_iff, unpack_zero] at hx
  rw [lt_iff] at hxy
  rw [isFinite_iff] at hy
  rcases hu : x.toModel.unpack with (_ | _) | _ | _ | ⟨_ | _, m₁, e₁, h₁⟩ <;>
    rw [hu] at hx hxy <;> try cases hx
  · -- Nothing is above infinity.
    rcases hv : y.toModel.unpack with (_ | _) | _ | _ | _ <;> rw [hv] at hxy <;> cases hxy
  · cases hv : y.toModel.unpack with
    | infinity t =>
        rw [hv] at hy
        cases hy
    | notANumber =>
        rw [hv] at hxy
        cases hxy
    | zero t =>
        rw [hv] at hxy
        cases hxy
    | finite t m₂ e₂ h₂ =>
        rw [hv] at hxy
        cases t with
        | negative => cases hxy
        | positive =>
            refine ⟨m₁, e₁, h₁, m₂, e₂, h₂, rfl, rfl, ?_⟩
            simpa [UnpackedFloat.compare, Ordering.then_eq_lt, Int.compare_eq_lt,
              Int.compare_eq_eq, Nat.compare_eq_lt] using hxy

/-- A smaller float is below the larger one at its own exponent. -/
theorem mantissa_lt_of_lt {m₁ m₂ : Nat} {e₁ e₂ : Int} (hm₁ : m₁ < 2 ^ 53)
    (he₁ : -1074 ≤ e₁) (hm₂ : 2 ^ 52 ≤ m₂ ∨ e₂ = -1074) (h : e₁ < e₂ ∨ e₁ = e₂ ∧ m₁ < m₂) :
    e₁ ≤ e₂ ∧ m₁ < m₂ * 2 ^ (e₂ - e₁).toNat := by
  rcases h with h | ⟨rfl, h⟩
  · have hnormal : 2 ^ 52 ≤ m₂ := hm₂.resolve_right (by omega)
    have hpow : 2 ^ 1 ≤ 2 ^ (e₂ - e₁).toNat := Nat.pow_le_pow_right (by omega) (by omega)
    have hprod := Nat.mul_le_mul hnormal hpow
    exact ⟨h.le, by omega⟩
  · simpa using h

/-- The difference of two positive floats, divided by a natural that is not below two,
is finite. -/
theorem quotient_nonneg {n : Nat} (hx : 0.0 < x) (hxy : x < y) (hy : y.isFinite) (hn : 2 ≤ n)
    (hn' : n < 2 ^ 53) :
    0.0 ≤ (y - x) / Float.ofNat n ∧ ((y - x) / Float.ofNat n).isFinite := by
  obtain ⟨m₁, e₁, h₁, m₂, e₂, h₂, hu, hv, hlt⟩ := exists_of_lt hx hxy hy
  obtain ⟨hm₁, he₁, -⟩ := canonical_of_unpack hu
  obtain ⟨hm₂, hlow, hhigh, hnormal⟩ := canonical_of_unpack hv
  obtain ⟨he, hlt⟩ := mantissa_lt_of_lt hm₁ he₁ hnormal hlt
  have hsub : (y - x).toModel.unpack = stored (UnpackedFloat.sub Format.binary64
      y.toModel.unpack x.toModel.unpack) := rfl
  have hsigned : Signed .positive (y - x).toModel.unpack := by
    rw [hsub, hu, hv]
    exact ((fits_sub hm₂ hlow he hlt).mono hhigh).stored
  have hdiv : ((y - x) / Float.ofNat n).toModel.unpack = stored (UnpackedFloat.div Format.binary64
      (y - x).toModel.unpack (Float.ofNat n).toModel.unpack) := rfl
  have hfits : Fits .positive 971 (UnpackedFloat.div Format.binary64 (y - x).toModel.unpack
      (Float.ofNat n).toModel.unpack) := by
    have hlog : 1 ≤ n.log2 := (Nat.le_log2 (by omega)).2 hn
    rw [unpack_ofNat (by omega) hn']
    cases hw : (y - x).toModel.unpack with
    | notANumber => rw [hw] at hsigned; cases hsigned
    | infinity s => rw [hw] at hsigned; cases hsigned
    | zero s =>
        rw [hw] at hsigned
        cases (hsigned : s = .positive)
        rfl
    | finite s m e h =>
        rw [hw] at hsigned
        cases (hsigned : s = .positive)
        obtain ⟨hm, he', he'', -⟩ := canonical_of_unpack hw
        exact (fits_div hm he' (le_mantissa (by omega) hn') (by omega)).mono he''
  rw [zero_le_iff, isFinite_iff, hdiv]
  exact ⟨hfits.stored.nonneg, hfits.stored.isFinite⟩

end Floats

end Barrage.Number
