import Barrage.Proofs.Number.Moderate

/-!
# Halves

An angle is given in half degrees, as a float that is a multiple of one half.  To double
a float or to halve it moves its exponent and leaves its mantissa alone, as long as the
exponent stays in range (`mul_two_exact`, `div_two_exact`).  So multiples of one half
have a double that is read back without loss (`Halves.whole?_mul_two`), every integer has
a half (`halves_ofInt`), and sums of multiples of one half are exact (`Halves.add`).
-/

namespace Barrage.Number

open Float.Model (Format UnpackedFloat totalExponent)
open Float.Model.UnpackedFloat

/-! ## Twice and half of a mantissa -/

section Two

variable {s : Sign} {m : Nat} {e : Int}

theorem mul_two_exact (h : 0 < m) (hlow : 2 ^ 52 ≤ m) (hhigh : m < 2 ^ 53) (he : -1075 ≤ e) :
    UnpackedFloat.mul Format.binary64 (.finite s m e h)
      (.finite .positive (2 ^ 52) (-51) (Nat.two_pow_pos 52)) = .finite s m (e + 1) h := by
  have hsign : s * Sign.positive = s := by cases s <;> rfl
  have hexp : e + -51 = e + 1 - (52 : Nat) := by omega
  rw [UnpackedFloat.mul, hsign, hexp]
  exact round_exact h hlow hhigh (by omega) 52

theorem div_two_exact (h : 0 < m) (hlow : 2 ^ 52 ≤ m) (hhigh : m < 2 ^ 53) (he : -1072 ≤ e) :
    UnpackedFloat.div Format.binary64 (.finite s m e h)
      (.finite .positive (2 ^ 52) (-51) (Nat.two_pow_pos 52)) = .finite s m (e - 1) h := by
  have hsign : s / Sign.positive = s := by cases s <;> rfl
  have hlog := log2_of_full hlow hhigh
  have htarget : min (e - -51) (Format.binary64.targetExponent
      (totalExponent m e - totalExponent (2 ^ 52) (-51))) = e - 1 - (1 : Nat) := by
    rw [targetExponent_eq, totalExponent, totalExponent, hlog, Nat.log2_two_pow]
    omega
  have hshift : (e - -51 - (e - 1 - (1 : Nat))).toNat = 53 := by omega
  have hquotient : m * 2 ^ 53 / 2 ^ 52 = m * 2 ^ 1 := by omega
  have hrest : m * 2 ^ 53 % 2 ^ 52 = 0 := by omega
  have hexact : accuracyOfFraction 0 (2 ^ 52) = .exact := rfl
  simp only [UnpackedFloat.div, divCore, hsign, htarget, hshift, Nat.shiftLeft_eq, hquotient, hrest,
    hexact]
  exact round_exact h hlow hhigh (by omega) 1

end Two

/-! ## Integers read from floats -/

theorem magnitude_eq_mul (n : Nat) (e : Int) : magnitude n e = n * magnitude 1 e := by
  rw [magnitude, magnitude, Nat.one_mul]

theorem magnitude_inj {m n : Nat} {e : Int} (h : magnitude m e = magnitude n e) : m = n := by
  rcases lt_trichotomy m n with hlt | heq | hgt
  · exact absurd h (magnitude_lt e hlt).ne
  · exact heq
  · exact absurd h (magnitude_lt e hgt).ne'

theorem signed_isNegative (s : Sign) (n : Nat) : signed (isNegative s) n = s.apply n := by
  cases s <;> rfl

theorem natAbs_apply (s : Sign) (n : Int) : (s.apply n).natAbs = n.natAbs := by
  cases s with
  | positive => rfl
  | negative => exact Int.natAbs_neg n

theorem apply_mul (s : Sign) (m n : Int) : s.apply (m * n) = s.apply m * n := by
  cases s with
  | positive => rfl
  | negative => exact (Int.neg_mul m n).symm

/-- A float whose value is an integer is read as that integer. -/
theorem whole?_eq_some {x : Float} {n : Int} (hx : x.isFinite) (h : units x = n * one) :
    whole? x = some n := by
  have hone := one_pos
  have hproper := proper_unpack x
  rw [isFinite_iff] at hx
  rw [units] at h
  rw [whole?]
  cases hu : x.toModel.unpack with
  | infinity s => rw [hu] at hx; cases hx
  | notANumber => rw [hu] at hx; cases hx
  | zero s =>
      rw [hu] at h
      have hzero : n = 0 := by
        rcases Int.mul_eq_zero.1 h.symm with hn | hn
        · exact hn
        · omega
      rw [hzero]
  | finite s m e hm =>
      rw [hu] at h hproper
      have hlow := hproper.1.low
      -- Without the sign, the value is a natural number.
      have habs : magnitude m e = magnitude n.natAbs 0 := by
        have := congrArg Int.natAbs h
        rwa [extent, natAbs_apply, Int.natAbs_natCast, Int.natAbs_mul, Int.natAbs_natCast,
          ← magnitude_eq_mul_one] at this
      have hsign : s.apply (n.natAbs : Int) = n := by
        have : s.apply (n.natAbs : Int) * one = n * one := by
          rw [← h, extent, habs, magnitude_eq_mul_one, Nat.cast_mul, apply_mul]
        exact Int.eq_of_mul_eq_mul_right (by omega) this
      dsimp only
      split
      next hpos =>
        have hcarry := magnitude_mul_two_pow m (e := 0) (by omega) e.toNat
        rw [zero_add, Int.toNat_of_nonneg hpos, habs] at hcarry
        rw [signed_isNegative, Nat.pow_eq, magnitude_inj hcarry, hsign]
      next hneg =>
        have hexp : e + ((-e).toNat : Int) = 0 := by omega
        have hcarry := magnitude_mul_two_pow n.natAbs hlow (-e).toNat
        rw [hexp, ← habs] at hcarry
        have hm' : m = n.natAbs * 2 ^ (-e).toNat := magnitude_inj hcarry.symm
        rw [Nat.pow_eq, hm', Nat.mul_mod_left, if_pos rfl,
          Nat.mul_div_cancel _ (Nat.two_pow_pos _), signed_isNegative, hsign]

/-! ## Multiples of one half -/

/-- The value of the float is `k` halves. -/
structure Halves (x : Float) (k : Int) : Prop where
  finite : x.isFinite
  value : units x = k * half

section Halves

variable {x y : Float} {j k : Int}

theorem half_pos : 0 < half := magnitude_pos (-1) Nat.one_pos

theorem natAbs_mul_half_le (hk : k.natAbs ≤ 2 ^ 53) : (k * half).natAbs ≤ limit := by
  have hhalf : half ≤ one := by
    rw [one_eq_two_mul_half]
    omega
  rw [Int.natAbs_mul, Int.natAbs_natCast]
  exact Nat.mul_le_mul hk hhalf

theorem Halves.moderate (h : Halves x k) (hk : k.natAbs ≤ 2 ^ 53) : Moderate x :=
  ⟨not_isNaN_of_isFinite h.finite, h.value ▸ natAbs_mul_half_le hk⟩

theorem halves_of_moderate (hx : Moderate x) (h : units x = k * half) : Halves x k :=
  ⟨(isFinite_iff_units hx.number).2 (hx.le.trans_lt limit_lt_horizon), h⟩

/-- Sums are exact while they have 53 bits. -/
theorem Halves.add (hx : Halves x j) (hy : Halves y k) (hj : j.natAbs ≤ 2 ^ 52)
    (hk : k.natAbs ≤ 2 ^ 52) : Halves (x + y) (j + k) := by
  have hsum : units x + units y = (j + k) * half := by rw [hx.value, hy.value, Int.add_mul]
  have hsmall : (j + k).natAbs ≤ 2 ^ 53 := by omega
  obtain ⟨hmoderate, hunits⟩ := (hx.moderate (by omega)).add (hy.moderate (by omega))
    (by rw [hsum]; exact natAbs_mul_half_le hsmall)
  rw [hsum, nearest_mul_half hsmall] at hunits
  exact halves_of_moderate hmoderate hunits

/-- A multiple of one half is zero, or it has a full mantissa. -/
theorem Halves.unpack_cases (h : Halves x k) :
    (∃ s, x.toModel.unpack = .zero s ∧ k = 0) ∨
      ∃ s m e hm, x.toModel.unpack = .finite s m e hm ∧ 2 ^ 52 ≤ m ∧ m < 2 ^ 53 ∧ -53 ≤ e := by
  have hpos := half_pos
  have hproper := proper_unpack x
  have hfinite := h.finite
  have hunits := h.value
  rw [isFinite_iff] at hfinite
  rw [units] at hunits
  cases hu : x.toModel.unpack with
  | infinity s => rw [hu] at hfinite; cases hfinite
  | notANumber => rw [hu] at hfinite; cases hfinite
  | zero s =>
      rw [hu] at hunits
      rcases Int.mul_eq_zero.1 hunits.symm with hzero | hzero
      · exact .inl ⟨s, rfl, hzero⟩
      · omega
  | finite s m e hm =>
      rw [hu] at hunits hproper
      obtain ⟨hcanonical, hmagnitude, -⟩ := hproper
      have hhalf : Canonical (2 ^ 52) (-53) := ⟨by omega, by omega, .inl le_rfl⟩
      have hfull : half = magnitude (2 ^ 52) (-53) := by
        have := magnitude_mul_two_pow 1 (e := -53) (by omega) 52
        rw [Nat.one_mul] at this
        exact this.symm
      -- Below one half there is no multiple of it.
      have hle : half ≤ magnitude m e := by
        have habs := congrArg Int.natAbs hunits
        rw [extent, natAbs_apply, Int.natAbs_natCast, Int.natAbs_mul, Int.natAbs_natCast] at habs
        rw [habs] at hmagnitude ⊢
        exact Nat.le_mul_of_pos_left half (Nat.pos_of_mul_pos_right hmagnitude)
      have he : -53 ≤ e := by
        by_contra hlt
        have := hcanonical.magnitude_lt_of_lt hhalf (by omega)
        omega
      exact .inr ⟨s, m, e, hm, rfl, hcanonical.normal.resolve_right (by omega), hcanonical.lt, he⟩

/-- A float that is stored with a full mantissa has the units of its mantissa. -/
theorem finite_of_stored {s : Sign} {m : Nat} {e : Int} {h : 0 < m} {n : Int}
    (hx : x.toModel.unpack = stored (.finite s m e h)) (hcanonical : Canonical m e)
    (hvalue : s.apply (magnitude m e) = n) (hn : n.natAbs < horizon) :
    x.isFinite ∧ units x = n := by
  have hnan : ¬ x.isNaN := by
    change ¬ x.toModel.unpack.isNaN
    rw [hx, isNaN_stored]
    exact Bool.false_ne_true
  have hunits : units x = n := by
    rw [units, hx, hcanonical.extent_stored, hvalue, bounded_of_lt hn]
  exact ⟨(isFinite_iff_units hnan).2 (hunits ▸ hn), hunits⟩

theorem Halves.mul_two (h : Halves x k) (hk : k.natAbs ≤ 2 ^ 53) :
    (x * 2.0).isFinite ∧ units (x * 2.0) = k * one := by
  have hmul : (x * 2.0).toModel.unpack = stored (UnpackedFloat.mul Format.binary64
      x.toModel.unpack (.finite .positive (2 ^ 52) (-51) (Nat.two_pow_pos 52))) := rfl
  have hfar : (k * one).natAbs < horizon := (natAbs_mul_one_le hk).trans_lt limit_lt_horizon
  rcases h.unpack_cases with ⟨s, hu, rfl⟩ | ⟨s, m, e, hm, hu, hlow, hhigh, he⟩
  · rw [hu, UnpackedFloat.mul, stored_zero] at hmul
    rw [isFinite_iff, units, hmul, Int.zero_mul]
    exact ⟨rfl, rfl⟩
  · have hvalue : s.apply (magnitude m e) = k * half := by
      have := h.value
      rwa [units, hu] at this
    have hdouble : magnitude m (e + 1) = magnitude m e * 2 := by
      have := magnitude_mul_two_pow m (e := e) (by omega) 1
      rw [pow_one, magnitude_eq_mul, Nat.mul_right_comm, ← magnitude_eq_mul] at this
      exact this.symm
    rw [hu, mul_two_exact hm hlow hhigh (by omega)] at hmul
    refine finite_of_stored hmul ⟨hhigh, by omega, .inl hlow⟩ ?_ hfar
    rw [hdouble, Nat.cast_mul, apply_mul, hvalue, one_eq_two_mul_half]
    push_cast
    ring

/-- The double of a multiple of one half is read back as an integer. -/
theorem Halves.whole?_mul_two (h : Halves x k) (hk : k.natAbs ≤ 2 ^ 53) :
    whole? (x * 2.0) = some k :=
  whole?_eq_some (h.mul_two hk).1 (h.mul_two hk).2

/-- The sign and the mantissa of an integer. -/
theorem exists_unpack_ofInt (hk : k ≠ 0) (hk' : k.natAbs < 2 ^ 53) :
    ∃ s hm, (Float.ofInt k).toModel.unpack =
        .finite s (mantissa k.natAbs) (k.natAbs.log2 - 52) hm ∧ s.apply k.natAbs = k := by
  have hpos : 0 < k.natAbs := Int.natAbs_pos.2 hk
  have hunpack := unpack_ofNat hpos hk'
  cases k with
  | ofNat n => exact ⟨.positive, _, hunpack, rfl⟩
  | negSucc n =>
      refine ⟨.negative, mantissa_pos hpos, ?_, rfl⟩
      change (Float.ofNat (n + 1)).neg.toModel.unpack = _
      rw [unpack_neg]
      exact congrArg UnpackedFloat.neg hunpack

/-- Half of an integer is a float. -/
theorem halves_ofInt (hk : k.natAbs < 2 ^ 53) : Halves (Float.ofInt k / 2.0) k := by
  have hdiv : (Float.ofInt k / 2.0).toModel.unpack = stored (UnpackedFloat.div Format.binary64
      (Float.ofInt k).toModel.unpack (.finite .positive (2 ^ 52) (-51) (Nat.two_pow_pos 52))) := rfl
  by_cases hzero : k = 0
  · subst hzero
    exact ⟨by decide, by rw [Int.zero_mul]; rfl⟩
  · obtain ⟨s, hm, hu, hsign⟩ := exists_unpack_ofInt hzero hk
    have hpos : 0 < k.natAbs := Int.natAbs_pos.2 hzero
    have hlow := le_mantissa hpos hk
    have hhigh := mantissa_lt hpos hk
    have hlog : k.natAbs.log2 < 53 := (Nat.log2_lt hpos.ne').2 hk
    have hvalue : magnitude (mantissa k.natAbs) (k.natAbs.log2 - 52 - 1) = k.natAbs * half := by
      have hexp : (k.natAbs.log2 : Int) - 52 - 1 + (52 - k.natAbs.log2 : Nat) = -1 := by omega
      rw [mantissa, magnitude_mul_two_pow _ (by omega), hexp, magnitude_eq_mul]
      rfl
    have hfar : (k * half).natAbs < horizon :=
      (natAbs_mul_half_le hk.le).trans_lt limit_lt_horizon
    rw [hu, div_two_exact hm hlow hhigh (by omega)] at hdiv
    obtain ⟨hfinite, hunits⟩ := finite_of_stored hdiv ⟨hhigh, by omega, .inl hlow⟩
      (by rw [hvalue, Nat.cast_mul, apply_mul, hsign]) hfar
    exact ⟨hfinite, hunits⟩

end Halves

end Barrage.Number
