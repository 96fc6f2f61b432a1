import Mathlib
import Barrage.Proofs.Number.Units

/-!
# Numbers of moderate size

All integers up to `2 ^ 53` are floats.  Numbers that are not larger are far from the
horizon, so that a sum or a difference of them is never infinite and has just the
rounded units (`Moderate.add`, `Moderate.sub`).  Integers among them are exact
(`moderate_ofInt`), and so are their halves (`nearest_mul_half`).
-/

namespace Barrage.Number

/-- The units of `2 ^ 53`. -/
def limit : Nat := 2 ^ 53 * one

theorem magnitude_one (e : Int) : magnitude 1 e = 2 ^ (e + 1074).toNat := by
  rw [magnitude, Nat.one_mul]

theorem exists_one_eq : ∃ k, one = 2 ^ k := ⟨_, magnitude_one 0⟩

/-- Up to `2 ^ 53` multiples of a power of two are not rounded. -/
theorem nearest_mul {u : Nat} (hu : ∃ k, u = 2 ^ k) {n : Int} (h : n.natAbs ≤ 2 ^ 53) :
    nearest (n * u) = n * u := by
  obtain ⟨k, rfl⟩ := hu
  refine nearest_of_dvd (k := k) ?_ ?_
  · rw [Nat.cast_pow, Nat.cast_ofNat]
    exact Int.dvd_mul_left _ _
  · rw [Int.natAbs_mul, Int.natAbs_natCast, Nat.pow_add]
    exact Nat.mul_le_mul_right _ h

theorem limit_lt_horizon : limit < horizon := by
  have hcarry : Canonical (2 ^ 52) 1 := ⟨by omega, by omega, .inl le_rfl⟩
  have htop : Canonical (2 ^ 52) 972 := ⟨by omega, by omega, .inl le_rfl⟩
  have hpow : 2 ^ 53 = 2 ^ 52 * 2 ^ 1 := by norm_num
  calc limit = magnitude (2 ^ 53) 0 := (magnitude_eq_mul_one _).symm
    _ = magnitude (2 ^ 52) 1 := by rw [hpow, magnitude_mul_two_pow _ (by omega)]; rfl
    _ < horizon := hcarry.magnitude_lt_of_lt htop (by omega)

theorem nearest_mul_one {n : Int} (h : n.natAbs ≤ 2 ^ 53) : nearest (n * one) = n * one :=
  nearest_mul exists_one_eq h

theorem natAbs_nearest_le {n : Int} (h : n.natAbs ≤ limit) : (nearest n).natAbs ≤ limit := by
  have hlimit : ((limit : Nat) : Int) = 2 ^ 53 * one := by rw [limit, Nat.cast_mul]; rfl
  have hkept : nearest limit = limit := by
    rw [hlimit]
    exact nearest_mul_one (by decide)
  have hhigh := nearest_mono (show n ≤ limit by omega)
  have hlow := nearest_mono (show -(limit : Int) ≤ n by omega)
  rw [nearest_neg] at hlow
  omega

theorem bounded_nearest_of_le_limit {n : Int} (h : n.natAbs ≤ limit) :
    bounded (nearest n) = nearest n :=
  bounded_of_lt ((natAbs_nearest_le h).trans_lt limit_lt_horizon)

/-- A number up to `2 ^ 53`. -/
structure Moderate (x : Float) : Prop where
  number : ¬ x.isNaN
  le : (units x).natAbs ≤ limit

section Moderate

variable {x y : Float}

/-- What is rounded from a number up to the limit is moderate. -/
theorem moderate_of_units {n : Int} (hnan : ¬ x.isNaN) (hunits : units x = bounded (nearest n))
    (h : n.natAbs ≤ limit) : Moderate x ∧ units x = nearest n := by
  rw [bounded_nearest_of_le_limit h] at hunits
  exact ⟨⟨hnan, hunits ▸ natAbs_nearest_le h⟩, hunits⟩

theorem Moderate.add (hx : Moderate x) (hy : Moderate y)
    (h : (units x + units y).natAbs ≤ limit) :
    Moderate (x + y) ∧ units (x + y) = nearest (units x + units y) := by
  have hnan : ¬ (x + y).isNaN := by
    have := hx.le
    have := limit_lt_horizon
    rw [isNaN_add_iff hx.number hy.number]
    omega
  exact moderate_of_units hnan (units_add hnan) h

theorem Moderate.sub (hx : Moderate x) (hy : Moderate y)
    (h : (units x - units y).natAbs ≤ limit) :
    Moderate (x - y) ∧ units (x - y) = nearest (units x - units y) := by
  have hnan : ¬ (x - y).isNaN := by
    have := hx.le
    have := limit_lt_horizon
    rw [isNaN_sub_iff hx.number hy.number]
    omega
  exact moderate_of_units hnan (units_sub hnan) h

theorem natAbs_mul_one_le {n : Int} (h : n.natAbs ≤ 2 ^ 53) : (n * one).natAbs ≤ limit := by
  rw [Int.natAbs_mul, Int.natAbs_natCast]
  exact Nat.mul_le_mul_right _ h

/-- Integers up to `2 ^ 53` are floats. -/
theorem bounded_nearest_mul_one {n : Int} (h : n.natAbs ≤ 2 ^ 53) :
    bounded (nearest (n * one)) = n * one := by
  rw [bounded_nearest_of_le_limit (natAbs_mul_one_le h), nearest_mul_one h]

theorem moderate_ofInt {n : Int} (h : n.natAbs ≤ 2 ^ 53) :
    Moderate (Float.ofInt n) ∧ units (Float.ofInt n) = n * one := by
  obtain ⟨hnan, hunits⟩ := units_ofInt n
  obtain ⟨hmoderate, hunits⟩ := moderate_of_units hnan hunits (natAbs_mul_one_le h)
  exact ⟨hmoderate, hunits.trans (nearest_mul_one h)⟩

theorem Moderate.nearest_units (hx : Moderate x) : nearest (units x) = units x := by
  have hexact : bounded (nearest (units x)) = units x := (proper_unpack x).bounded_nearest
  rwa [bounded_nearest_of_le_limit hx.le] at hexact

/-- Bits behind the point are dropped. -/
theorem magnitude_whole_le (m : Nat) {e : Int} (he : -1074 ≤ e) :
    magnitude (if 0 ≤ e then m * 2 ^ e.toNat else m / 2 ^ (-e).toNat) 0 ≤ magnitude m e := by
  split
  next hpos =>
    rw [magnitude_mul_two_pow m (by omega), zero_add, Int.toNat_of_nonneg hpos]
  next hneg =>
    have hexp : e + ((-e).toNat : Int) = 0 := by omega
    calc magnitude (m / 2 ^ (-e).toNat) 0
        = magnitude (m / 2 ^ (-e).toNat * 2 ^ (-e).toNat) e := by
          rw [magnitude_mul_two_pow _ he, hexp]
      _ ≤ magnitude m e := magnitude_mono (Nat.div_mul_le_self _ _) le_rfl

/-- The integer part is not above the number. -/
theorem Moderate.truncate_mul_one_le (hx : Moderate x) (hpos : 0 ≤ units x) :
    truncate x * one ≤ units x := by
  have hclamp {n : Nat} : clamp64 n ≤ n := by
    rw [clamp64, int64Min]
    omega
  have hproper := proper_unpack x
  have hfinite := (isFinite_iff_units hx.number).2 (hx.le.trans_lt limit_lt_horizon)
  rw [Number.isFinite_iff] at hfinite
  rw [units] at hpos ⊢
  rw [truncate]
  cases hu : x.toModel.unpack with
  | infinity s => rw [hu] at hfinite; cases hfinite
  | notANumber => exact (Int.zero_mul _).le
  | zero s => exact (Int.zero_mul _).le
  | finite s m e h =>
      rw [hu] at hpos hproper
      cases s with
      | negative =>
          have := hproper.2.1
          simp only [extent, Float.Model.UnpackedFloat.Sign.apply] at hpos
          omega
      | positive =>
          simp only [isNegative, signed, extent, Float.Model.UnpackedFloat.Sign.apply,
            Bool.false_eq_true, if_false]
          refine (Int.mul_le_mul_of_nonneg_right hclamp (Int.natCast_nonneg _)).trans ?_
          rw [← Nat.cast_mul, ← magnitude_eq_mul_one, Nat.cast_le]
          exact magnitude_whole_le m hproper.1.low

end Moderate

/-! ## Halves -/

/-- The units of one half. -/
def half : Nat := magnitude 1 (-1)

theorem one_eq_two_mul_half : one = 2 * half := by
  have hcarry : magnitude (1 * 2 ^ 1) (-1) = one := magnitude_mul_two_pow 1 (by decide) 1
  rw [← hcarry, half, magnitude, magnitude]
  ring

theorem units_half : units 0.5 = half := units_of_unpack (e := -1) (by decide) rfl

theorem nearest_mul_half {n : Int} (h : n.natAbs ≤ 2 ^ 53) : nearest (n * half) = n * half :=
  nearest_mul ⟨_, magnitude_one (-1)⟩ h

end Barrage.Number
