import Mathlib
import Barrage.Proofs.Number.Nonneg
import Barrage.Proofs.Number.Nearest

/-!
# Floats as integers

A finite float is an integer in units of the smallest positive float, `2 ^ -1074`, and
finite floats end at `horizon` units.  The infinities stand at twice the horizon, where
no finite float brings them back.  Then

* floats are compared as their units are (`compare_eq`), and the total order of floats
  agrees with it (`units_le_of_totalLe`);
* a sum or a difference has the sum or the difference of the units, rounded to 53 bits
  and made infinite from the horizon on (`units_add`, `units_sub`);
* an integer is converted in the same way (`units_ofInt`).

So what an operation keeps of the order follows from `nearest_mono`, and where it is
exact from `nearest_of_dvd`.
-/

namespace Barrage.Number

open Float.Model (Format UnpackedFloat totalExponent)
open Float.Model.UnpackedFloat

/-- The units of a mantissa and an exponent. -/
@[irreducible] def magnitude (m : Nat) (e : Int) : Nat := m * 2 ^ (e + 1074).toNat

/-- The units at which the finite floats end. -/
def horizon : Nat := magnitude (2 ^ 52) 972

/-- Units from the horizon on are those of an infinity. -/
def bounded (n : Int) : Int :=
  if horizon ≤ n then 2 * horizon else if n ≤ -horizon then -(2 * horizon) else n

/-- The value in units of the smallest positive float. -/
def extent : UnpackedFloat → Int
  | .infinity s => s.apply (2 * horizon)
  | .notANumber => 0
  | .zero _ => 0
  | .finite s m e _ => s.apply (magnitude m e)

@[inherit_doc extent]
def units (x : Float) : Int := extent x.toModel.unpack

theorem magnitude_pos {m : Nat} (e : Int) (hm : 0 < m) : 0 < magnitude m e := by
  rw [magnitude]
  exact Nat.mul_pos hm (Nat.two_pow_pos _)

theorem horizon_pos : 0 < horizon := magnitude_pos 972 (Nat.two_pow_pos 52)

/-! ## Signs -/

theorem apply_natCast_lt {s : Sign} {m n : Nat} (h : m < n) : (s.apply m).natAbs < n := by
  cases s with
  | positive => simpa [Sign.apply] using h
  | negative => simpa [Sign.apply] using h

@[simp] theorem apply_neg (s : Sign) (n : Int) : (-s).apply n = -s.apply n := by
  cases s with
  | positive => rfl
  | negative => exact (neg_neg n).symm

theorem bounded_of_lt {n : Int} (h : n.natAbs < horizon) : bounded n = n := by
  rw [bounded, if_neg (by omega), if_neg (by omega)]

theorem bounded_natCast {n : Nat} (h : n < horizon) : bounded n = n :=
  bounded_of_lt (by rwa [Int.natAbs_natCast])

theorem bounded_of_le {n : Int} (h : horizon ≤ n) : bounded n = 2 * horizon := by
  rw [bounded, if_pos h]

@[simp] theorem bounded_zero : bounded 0 = 0 := bounded_of_lt horizon_pos

@[simp] theorem bounded_neg (n : Int) : bounded (-n) = -bounded n := by
  have := horizon_pos
  rw [bounded, bounded]
  split <;> split <;> (try split) <;> (try split) <;> omega

theorem bounded_mono {m n : Int} (h : m ≤ n) : bounded m ≤ bounded n := by
  rw [bounded, bounded]
  split <;> split <;> (try split) <;> (try split) <;> omega

theorem bounded_pos {n : Int} (h : 0 < n) : 0 < bounded n := by
  have := horizon_pos
  rw [bounded]
  split
  · omega
  · split <;> omega

/-! ## Stored mantissas -/

/-- A mantissa and an exponent as they are stored. -/
structure Canonical (m : Nat) (e : Int) : Prop where
  lt : m < 2 ^ 53
  low : -1074 ≤ e
  normal : 2 ^ 52 ≤ m ∨ e = -1074

theorem magnitude_mul_two_pow (m : Nat) {e : Int} (he : -1074 ≤ e) (k : Nat) :
    magnitude (m * 2 ^ k) e = magnitude m (e + k) := by
  have hexp : (e + k + 1074).toNat = k + (e + 1074).toNat := by omega
  rw [magnitude, magnitude, hexp, Nat.pow_add, Nat.mul_assoc]

theorem magnitude_mono {m m' : Nat} {e e' : Int} (hm : m ≤ m') (he : e ≤ e') :
    magnitude m e ≤ magnitude m' e' := by
  rw [magnitude, magnitude]
  exact Nat.mul_le_mul hm (Nat.pow_le_pow_right (by omega) (by omega))

theorem magnitude_lt {m m' : Nat} (e : Int) (hm : m < m') : magnitude m e < magnitude m' e := by
  rw [magnitude, magnitude]
  exact Nat.mul_lt_mul_of_pos_right hm (Nat.two_pow_pos _)

namespace Canonical

variable {m m' : Nat} {e e' : Int}

/-- Stored values are compared by their exponents first. -/
theorem magnitude_lt_of_lt (h : Canonical m e) (h' : Canonical m' e') (he : e < e') :
    magnitude m e < magnitude m' e' := by
  have hnormal : 2 ^ 52 ≤ m' := h'.normal.resolve_right (by have := h.low; omega)
  calc magnitude m e < magnitude (2 ^ 52 * 2 ^ 1) e := magnitude_lt e h.lt
    _ = magnitude (2 ^ 52) (e + 1) := magnitude_mul_two_pow _ h.low 1
    _ ≤ magnitude m' e' := magnitude_mono hnormal (by omega)

theorem compare_magnitude (h : Canonical m e) (h' : Canonical m' e') :
    (compare e e').then (compare m m') = compare (magnitude m e : Int) (magnitude m' e') := by
  rcases lt_trichotomy e e' with he | rfl | he
  · rw [Int.compare_eq_lt.2 he, Int.compare_eq_lt.2 (by exact_mod_cast h.magnitude_lt_of_lt h' he)]
    rfl
  · rw [Int.compare_eq_eq.2 rfl]
    rcases lt_trichotomy m m' with hm | rfl | hm
    · rw [Nat.compare_eq_lt.2 hm, Int.compare_eq_lt.2 (by exact_mod_cast magnitude_lt e hm)]
      rfl
    · rw [Nat.compare_eq_eq.2 rfl, Int.compare_eq_eq.2 rfl]
      rfl
    · rw [Nat.compare_eq_gt.2 hm, Int.compare_eq_gt.2 (by exact_mod_cast magnitude_lt e hm)]
      rfl
  · rw [Int.compare_eq_gt.2 he, Int.compare_eq_gt.2 (by exact_mod_cast h'.magnitude_lt_of_lt h he)]
    rfl

/-- The finite floats end at the horizon. -/
theorem magnitude_lt_horizon_iff (h : Canonical m e) : magnitude m e < horizon ↔ e ≤ 971 := by
  have htop : Canonical (2 ^ 52) 972 := ⟨by omega, by omega, .inl le_rfl⟩
  constructor
  · intro hlt
    by_contra hlarge
    have hnormal : 2 ^ 52 ≤ m := h.normal.resolve_right (by omega)
    have hle : horizon ≤ magnitude m e := magnitude_mono hnormal (by omega)
    omega
  · exact fun he => h.magnitude_lt_of_lt htop (by omega)

theorem keep_magnitude (h : Canonical m e) : keep (magnitude m e) = magnitude m e := by
  rw [magnitude]
  refine keep_of_dvd (Nat.dvd_mul_left _ _) ?_
  rw [Nat.pow_add]
  exact Nat.mul_le_mul_right _ h.lt.le

theorem stored_subnormal {s : Sign} (hpos : 0 < m) (hm : m < 2 ^ 52) :
    stored (.finite s m (-1074) hpos) = .finite s m (-1074) hpos := by
  have hlog : m.log2 < 52 := (Nat.log2_lt hpos.ne').2 hm
  have hbits : ¬ m.log2 + 1 = Format.binary64.mantissaBits := by
    change ¬ m.log2 + 1 = 53
    omega
  have hpack : pack Format.binary64 (.finite s m (-1074) hpos) =
      packComponents Format.binary64 s 0#11 (BitVec.ofNat 52 m) := by
    rw [pack]
    exact (if_neg (by decide)).trans (if_neg hbits)
  have hword : (BitVec.ofNat 52 m).toNat = m := by
    rw [BitVec.toNat_ofNat]
    exact Nat.mod_eq_of_lt hm
  have hne : BitVec.ofNat 52 m ≠ 0#52 := by
    intro heq
    rw [heq] at hword
    simp at hword
    omega
  have hzero : (0#11 : BitVec 11) ≠ -1#11 := by decide
  simp only [stored, hpack, unpack, unpackExponent_packComponents, unpackMantissa_packComponents,
    unpackSign_packComponents, Sign.ofBitVec_toBitVec, if_neg hzero, if_pos, dif_neg hne,
    UnpackedFloat.finite.injEq, true_and]
  exact ⟨hword, rfl⟩

theorem stored_eq {s : Sign} (h : Canonical m e) (hpos : 0 < m) (he : e ≤ 971) :
    stored (.finite s m e hpos) = .finite s m e hpos := by
  rcases Nat.lt_or_ge m (2 ^ 52) with hsub | hnormal
  · obtain rfl := h.normal.resolve_left (by omega)
    exact stored_subnormal hpos hsub
  · exact stored_exact hpos hnormal h.lt h.low he

theorem stored_eq_infinity {s : Sign} (hpos : 0 < m) (he : 971 < e) :
    stored (.finite s m e hpos) = .infinity s := by
  have hover : 2048 ≤ (e + 1023 + 52).toNat + 1 := by omega
  have hpack : pack Format.binary64 (.finite s m e hpos) = packedInfinity Format.binary64 s := by
    rw [pack]
    exact if_pos hover
  rw [stored, hpack]
  exact stored_infinity s

/-- Storing stops a value at the horizon. -/
theorem extent_stored {s : Sign} (h : Canonical m e) (hpos : 0 < m) :
    extent (stored (.finite s m e hpos)) = bounded (s.apply (magnitude m e)) := by
  rcases le_or_gt e 971 with he | he
  · rw [h.stored_eq hpos he, bounded_of_lt (apply_natCast_lt (h.magnitude_lt_horizon_iff.2 he))]
    rfl
  · have hover : (horizon : Int) ≤ magnitude m e := by
      have := h.magnitude_lt_horizon_iff.not.2 (by omega)
      omega
    rw [stored_eq_infinity hpos he]
    cases s with
    | positive => exact (bounded_of_le hover).symm
    | negative => rw [Sign.apply, bounded_neg, bounded_of_le hover]; rfl

end Canonical

/-- A value that can be stored. -/
def Proper : UnpackedFloat → Prop
  | .finite _ m e _ => Canonical m e ∧ 0 < magnitude m e ∧ magnitude m e < horizon
  | _ => True

theorem proper_of_bits (b : BitVec 64) : Proper (unpack Format.binary64 b) := by
  cases hb : unpack Format.binary64 b with
  | finite s m e h =>
      obtain ⟨hlt, hlow, hhigh, hnormal⟩ := canonical_of_unpack hb
      have hcanonical : Canonical m e := ⟨hlt, hlow, hnormal⟩
      exact ⟨hcanonical, magnitude_pos e h, hcanonical.magnitude_lt_horizon_iff.2 hhigh⟩
  | _ => trivial

theorem proper_unpack (x : Float) : Proper x.toModel.unpack := proper_of_bits _

theorem Proper.stored_eq {u : UnpackedFloat} (hu : Proper u) : stored u = u := by
  cases u with
  | infinity s => exact stored_infinity s
  | notANumber => rfl
  | zero s => exact stored_zero s
  | finite s m e h => exact hu.1.stored_eq h (hu.1.magnitude_lt_horizon_iff.1 hu.2.2)

theorem Proper.neg {u : UnpackedFloat} (hu : Proper u) : Proper u.neg := by
  cases u with
  | finite s m e h => exact hu
  | _ => trivial

theorem extent_neg (u : UnpackedFloat) : extent u.neg = -extent u := by
  cases u with
  | infinity s => exact apply_neg s _
  | notANumber => rfl
  | zero s => rfl
  | finite s m e h => exact apply_neg s _

theorem isNaN_neg (u : UnpackedFloat) : u.neg.isNaN = u.isNaN := by cases u <;> rfl

/-! ## Rounding -/

/-- The bits behind a shifted mantissa say how the rest compares with half a unit. -/
theorem bits_shiftRight (m d : Nat) :
    (((⟨m, false, false⟩ : ExtendedMantissa) >>> d).roundBit ↔ 2 ^ d ≤ 2 * (m % 2 ^ d)) ∧
      (((⟨m, false, false⟩ : ExtendedMantissa) >>> d).stickyBit ↔
        2 * (m % 2 ^ d) ≠ 0 ∧ 2 * (m % 2 ^ d) ≠ 2 ^ d) := by
  induction d with
  | zero => simp [HShiftRight.hShiftRight, Nat.repeat, Nat.mod_one]
  | succ d ih =>
      obtain ⟨hround, hsticky⟩ := ih
      have hmantissa : ((⟨m, false, false⟩ : ExtendedMantissa) >>> d).mantissa = m / 2 ^ d :=
        mantissa_shiftRight _ d
      have hpos := Nat.two_pow_pos d
      have hlt := Nat.mod_lt m hpos
      change (((_ : ExtendedMantissa) >>> d).shiftRightOne.roundBit ↔ _) ∧
        (((_ : ExtendedMantissa) >>> d).shiftRightOne.stickyBit ↔ _)
      have hmod : m % 2 ^ (d + 1) = m % 2 ^ d + 2 ^ d * (m / 2 ^ d % 2) := Nat.mod_pow_succ
      simp only [ExtendedMantissa.shiftRightOne, hmantissa, hmod, Bool.or_eq_true, hround, hsticky,
        bne_iff_ne]
      rw [Nat.pow_succ]
      rcases Nat.mod_two_eq_zero_or_one (m / 2 ^ d) with hbit | hbit <;> rw [hbit] <;> omega

theorem roundedMantissa_shiftRight (m d : Nat) :
    ((⟨m, false, false⟩ : ExtendedMantissa) >>> d).roundedMantissa = roundDiv m (2 ^ d) := by
  obtain ⟨hround, hsticky⟩ := bits_shiftRight m d
  have hmantissa : ((⟨m, false, false⟩ : ExtendedMantissa) >>> d).mantissa = m / 2 ^ d :=
    mantissa_shiftRight _ d
  generalize (⟨m, false, false⟩ : ExtendedMantissa) >>> d = em at hround hsticky hmantissa ⊢
  rcases em with ⟨q, _ | _, _ | _⟩ <;>
    simp only [ExtendedMantissa.roundedMantissa, ExtendedMantissa.accuracy,
      Accuracy.roundToNearestEven, roundDiv, Bool.false_eq_true, false_iff, true_iff] at * <;>
    (repeat' split) <;> omega

/-- A stored value is not shifted. -/
theorem Canonical.shift_eq {m : Nat} {e : Int} (h : Canonical m e) (hm : 0 < m) :
    shiftToTargetExponent Format.binary64 m e .exact = (⟨m, false, false⟩, e) := by
  have hlog : m.log2 < 53 := (Nat.log2_lt hm.ne').2 h.lt
  have hlow := h.low
  have hd : (Format.binary64.targetExponent (totalExponent m e) - e).toNat = 0 := by
    rw [targetExponent_eq, totalExponent]
    omega
  simp only [shiftToTargetExponent, shiftToExponent, hd]
  exact Prod.ext rfl (by simp)

/-- The first shift reaches the spacing of the units. -/
theorem exists_rounded_eq {m : Nat} {e : Int} (hm : 0 < m) (he : -1074 ≤ e)
    (htarget : e ≤ Format.binary64.targetExponent (totalExponent m e)) :
    ∃ q t, q = roundDiv (magnitude m e) (spacing (magnitude m e)) ∧ -1074 ≤ t ∧
      (magnitude m e < 2 ^ 53 → t = -1074) ∧ keep (magnitude m e) = magnitude q t ∧
      rounded m e .exact = shiftToTargetExponent Format.binary64 q t .exact := by
  set n := magnitude m e with hn
  have hlog : n.log2 = m.log2 + (e + 1074).toNat := by rw [hn, magnitude, log2_mul_pow hm]
  rw [targetExponent_eq, totalExponent] at htarget
  set t := max ((m.log2 : Int) + 1 + e - 53) (-1074) with ht
  have hspacing : spacing n = 2 ^ (t - e).toNat * 2 ^ (e + 1074).toNat := by
    rw [spacing, ← Nat.pow_add]
    congr 1
    omega
  refine ⟨roundDiv n (spacing n), t, rfl, by omega, fun hlt => ?_, ?_, ?_⟩
  · have hlog' : n.log2 < 53 := (Nat.log2_lt (magnitude_pos e hm).ne').2 hlt
    omega
  · have hexp : (t + 1074).toNat = (t - e).toNat + (e + 1074).toNat := by omega
    rw [keep, hspacing, magnitude, hexp, Nat.pow_add]
  · have hround : roundDiv m (2 ^ (t - e).toNat) = roundDiv n (spacing n) := by
      rw [hspacing, hn, magnitude, roundDiv_mul_mul _ _ (Nat.two_pow_pos _)]
    have hexp : e + ((t - e).toNat : Int) = t := by omega
    simp only [rounded, shiftToTargetExponent, shiftToExponent, targetExponent_eq, totalExponent,
      ExtendedMantissa.ofMantissaAndAccuracy, ← ht, roundedMantissa_shiftRight, hround, hexp]

/-- Rounding keeps 53 bits of the units, if the exponent is not above the one that the
result gets. -/
theorem rounded_spec {m : Nat} {e : Int} (hm : 0 < m) (he : -1074 ≤ e)
    (htarget : e ≤ Format.binary64.targetExponent (totalExponent m e)) :
    Canonical (rounded m e .exact).1.mantissa (rounded m e .exact).2 ∧
      magnitude (rounded m e .exact).1.mantissa (rounded m e .exact).2 =
        keep (magnitude m e) := by
  obtain ⟨q, t, hq, hlow, hsmall, hkeep, hrounded⟩ := exists_rounded_eq hm he htarget
  have hcases := roundDiv_spacing_cases (magnitude m e)
  rw [← hq] at hcases
  have hpos := magnitude_pos e hm
  rw [hrounded, hkeep]
  rcases Nat.lt_or_ge q (2 ^ 53) with hlt | hge
  · have hcanonical : Canonical q t :=
      ⟨hlt, hlow, hcases.symm.imp And.left fun hexact => hsmall hexact.1⟩
    rw [hcanonical.shift_eq (by omega)]
    exact ⟨hcanonical, rfl⟩
  · -- A carry out of the mantissa moves the exponent.
    have hcarry : q = 2 ^ 52 * 2 ^ 1 := by omega
    have hshift := shift_exact (m := 2 ^ 52) (e := t + 1) le_rfl (by omega) (by omega) 1
    rw [Nat.cast_one, add_sub_cancel_right] at hshift
    rw [hcarry, hshift, magnitude_mul_two_pow _ (by omega)]
    exact ⟨⟨by norm_num, by change -1074 ≤ t + 1; omega, .inl le_rfl⟩, rfl⟩

theorem extent_roundWithAccuracy {s : Sign} {m : Nat} {e : Int} (hm : 0 < m) (he : -1074 ≤ e)
    (htarget : e ≤ Format.binary64.targetExponent (totalExponent m e)) :
    extent (stored (roundWithAccuracy Format.binary64 s m e .exact)) =
      bounded (s.apply (keep (magnitude m e))) := by
  obtain ⟨hcanonical, hmagnitude⟩ := rounded_spec hm he htarget
  have hne : (rounded m e .exact).1.mantissa ≠ 0 := by
    intro hzero
    rw [hzero, magnitude, Nat.zero_mul, eq_comm, keep_eq_zero_iff] at hmagnitude
    exact absurd hmagnitude (magnitude_pos e hm).ne'
  rw [round_eq, dif_neg hne, hcanonical.extent_stored, hmagnitude]

theorem extent_round {s : Sign} {m : Nat} {e : Int} (hm : 0 < m) (he : -1074 ≤ e) :
    extent (stored (UnpackedFloat.round Format.binary64 s m e)) =
      bounded (s.apply (keep (magnitude m e))) := by
  rw [UnpackedFloat.round, targetExponent_eq, totalExponent]
  simp only [decreaseExponent, Nat.shiftLeft_eq]
  set d := (e - max ((m.log2 : Int) + 1 + e - 53) (-1074)).toNat
  have hmagnitude : magnitude (m * 2 ^ d) (e - d) = magnitude m e := by
    rw [magnitude_mul_two_pow _ (by omega), sub_add_cancel]
  rw [extent_roundWithAccuracy (Nat.mul_pos hm (Nat.two_pow_pos d)) (by omega), hmagnitude]
  rw [targetExponent_eq, totalExponent, log2_mul_pow hm]
  omega

theorem extent_normalize {n e : Int} {s : Sign} (he : -1074 ≤ e) :
    extent (stored (UnpackedFloat.normalize Format.binary64 n e s)) =
      bounded (nearest (n * 2 ^ (e + 1074).toNat)) := by
  have hscale (k : Nat) : ((magnitude k e : Nat) : Int) = k * 2 ^ (e + 1074).toNat := by
    simp [magnitude]
  rcases lt_trichotomy n 0 with hneg | rfl | hpos
  · have habs : n = -((-n).toNat : Int) := by omega
    simp only [UnpackedFloat.normalize, Int.compare_eq_lt.2 hneg]
    rw [extent_round (by omega) he, Sign.apply, ← nearest_natCast, hscale, ← nearest_neg,
      ← Int.neg_mul, ← habs]
  · rw [Int.zero_mul, nearest_zero, bounded_zero]
    exact congrArg extent (stored_zero s)
  · have habs : n = (n.toNat : Int) := by omega
    rw [normalize_of_pos hpos, extent_round (by omega) he, Sign.apply, ← nearest_natCast, hscale,
      ← habs]

/-! ## Comparison -/

theorem swap_compare (m n : Int) : (compare m n).swap = compare (-m) (-n) := by
  rcases lt_trichotomy m n with h | rfl | h
  · rw [Int.compare_eq_lt.2 h, Int.compare_eq_gt.2 (by omega)]
    rfl
  · rw [Int.compare_eq_eq.2 rfl, Int.compare_eq_eq.2 rfl]
    rfl
  · rw [Int.compare_eq_gt.2 h, Int.compare_eq_lt.2 (by omega)]
    rfl

theorem Proper.compare_eq {u v : UnpackedFloat} (hu : Proper u) (hv : Proper v)
    (hu' : ¬ u.isNaN) (hv' : ¬ v.isNaN) : u.compare v = some (compare (extent u) (extent v)) := by
  have hpos := horizon_pos
  rcases u with (_ | _) | _ | _ | ⟨_ | _, m₁, e₁, h₁⟩ <;>
    rcases v with (_ | _) | _ | _ | ⟨_ | _, m₂, e₂, h₂⟩ <;>
    simp only [Proper] at hu hv <;>
    simp only [UnpackedFloat.compare, extent, Sign.apply, Option.some.injEq] <;>
    first
    | exact absurd rfl hu'
    | exact absurd rfl hv'
    | exact (Int.compare_eq_lt.2 (by omega)).symm
    | exact (Int.compare_eq_gt.2 (by omega)).symm
    | exact (Int.compare_eq_eq.2 rfl).symm
    | skip
  · rw [hu.1.compare_magnitude hv.1, swap_compare]
  · exact hu.1.compare_magnitude hv.1

section Order

variable {x y : Float}

theorem compare_eq (hx : ¬ x.isNaN) (hy : ¬ y.isNaN) :
    UnpackedFloat.compare x.toModel.unpack y.toModel.unpack =
      some (compare (units x) (units y)) :=
  (proper_unpack x).compare_eq (proper_unpack y) hx hy

theorem le_iff {x y : Float} :
    x ≤ y ↔ (UnpackedFloat.compare x.toModel.unpack y.toModel.unpack).any Ordering.isLE := by
  change Float.le x y = true ↔ _
  rw [Float.le, decide_eq_true_iff]
  rfl

theorem le_iff_units (hx : ¬ x.isNaN) (hy : ¬ y.isNaN) : x ≤ y ↔ units x ≤ units y := by
  rw [le_iff, compare_eq hx hy, Option.any_some, Int.isLE_compare]

theorem lt_iff_units (hx : ¬ x.isNaN) (hy : ¬ y.isNaN) : x < y ↔ units x < units y := by
  rw [lt_iff, compare_eq hx hy, Option.some.injEq, Int.compare_eq_lt]

theorem beq_iff_units (hx : ¬ x.isNaN) (hy : ¬ y.isNaN) : (x == y) = true ↔ units x = units y := by
  change (UnpackedFloat.compare x.toModel.unpack y.toModel.unpack == some .eq) = true ↔ _
  rw [beq_iff_eq, compare_eq hx hy, Option.some.injEq, Int.compare_eq_eq]

theorem not_isNaN_of_le (h : x ≤ y) : ¬ x.isNaN ∧ ¬ y.isNaN := by
  change ¬ x.toModel.unpack.isNaN ∧ ¬ y.toModel.unpack.isNaN
  rw [le_iff] at h
  cases hu : x.toModel.unpack <;> cases hv : y.toModel.unpack <;>
    simp_all [UnpackedFloat.isNaN, UnpackedFloat.compare]

@[simp] theorem units_zero : units 0.0 = 0 := rfl

theorem units_nonneg (h : 0.0 ≤ x) : ¬ x.isNaN ∧ 0 ≤ units x := by
  have hnan := (not_isNaN_of_le h).2
  rw [le_iff_units (by decide) hnan, units_zero] at h
  exact ⟨hnan, h⟩

end Order

/-! ## Sums and differences -/

/-- An integer from the horizon on is rounded to an infinity. -/
theorem bounded_nearest_of_le {n : Int} (h : horizon ≤ n) :
    bounded (nearest n) = 2 * horizon := by
  have htop : Canonical (2 ^ 52) 972 := ⟨by omega, by omega, .inl le_rfl⟩
  have hkept : nearest horizon = horizon := by
    rw [nearest_natCast, horizon, htop.keep_magnitude]
  exact bounded_of_le (hkept.symm.trans_le (nearest_mono h))

theorem bounded_nearest_of_le_neg {n : Int} (h : n ≤ -horizon) :
    bounded (nearest n) = -(2 * horizon) := by
  have := bounded_nearest_of_le (n := -n) (by omega)
  rw [nearest_neg, bounded_neg] at this
  omega

/-- A value that can be stored is not rounded. -/
theorem Proper.bounded_nearest {u : UnpackedFloat} (hu : Proper u) :
    bounded (nearest (extent u)) = extent u := by
  have hpos := horizon_pos
  cases u with
  | infinity s =>
      cases s with
      | positive => exact bounded_nearest_of_le (by simp only [extent, Sign.apply]; omega)
      | negative => exact bounded_nearest_of_le_neg (by simp only [extent, Sign.apply]; omega)
  | notANumber => exact bounded_zero
  | zero s => exact bounded_zero
  | finite s m e h =>
      have hkept : nearest (magnitude m e) = magnitude m e := by
        rw [nearest_natCast, hu.1.keep_magnitude]
      have hsigned : nearest (s.apply (magnitude m e)) = s.apply (magnitude m e) := by
        cases s with
        | positive => exact hkept
        | negative => rw [Sign.apply, nearest_neg, hkept]
      rw [extent, hsigned, bounded_of_lt (apply_natCast_lt hu.2.2)]

/-- Nothing but the opposite infinity brings an infinity back. -/
theorem bounded_nearest_infinity {s : Sign} {n : Int} (h : -horizon ≤ s.apply n) :
    bounded (nearest (s.apply (2 * horizon) + n)) = s.apply (2 * horizon) := by
  cases s with
  | positive =>
      have hn : -horizon ≤ n := h
      exact bounded_nearest_of_le (by rw [Sign.apply]; omega)
  | negative =>
      have hn : -horizon ≤ -n := h
      exact bounded_nearest_of_le_neg (by rw [Sign.apply]; omega)

theorem Proper.neg_horizon_le {t : Sign} {m : Nat} {e : Int} {h : 0 < m}
    (hu : Proper (.finite t m e h)) (s : Sign) : -horizon ≤ s.apply (t.apply (magnitude m e)) := by
  have := hu.2.2
  cases s <;> cases t <;> simp only [Sign.apply] <;> omega

/-- A mantissa moved to a smaller exponent has the same units. -/
theorem apply_shift (s : Sign) (m : Nat) {e e' : Int} (he' : -1074 ≤ e') (he : e' ≤ e) :
    s.apply ((m <<< (e - e').toNat : Nat) : Int) * 2 ^ (e' + 1074).toNat =
      s.apply (magnitude m e) := by
  have hexp : e' + ((e - e').toNat : Int) = e := by omega
  have hmagnitude := magnitude_mul_two_pow m he' (e - e').toNat
  rw [hexp, magnitude] at hmagnitude
  rw [Nat.shiftLeft_eq, ← hmagnitude, Nat.cast_mul]
  cases s with
  | positive => simp [Sign.apply]
  | negative => simp [Sign.apply]

theorem Proper.extent_add_finite {s t : Sign} {m₁ m₂ : Nat} {e₁ e₂ : Int} {h₁ : 0 < m₁}
    {h₂ : 0 < m₂} (hu : Proper (.finite s m₁ e₁ h₁)) (hv : Proper (.finite t m₂ e₂ h₂)) :
    extent (stored (UnpackedFloat.add Format.binary64 (.finite s m₁ e₁ h₁)
        (.finite t m₂ e₂ h₂))) =
      bounded (nearest (s.apply (magnitude m₁ e₁) + t.apply (magnitude m₂ e₂))) := by
  have he₁ := hu.1.low
  have he₂ := hv.1.low
  simp only [UnpackedFloat.add, decreaseExponent]
  rw [extent_normalize (by omega), Int.add_mul, apply_shift s m₁ (by omega) (by omega),
    apply_shift t m₂ (by omega) (by omega)]

theorem Proper.extent_add {u v : UnpackedFloat} (hu : Proper u) (hv : Proper v)
    (h : ¬ (UnpackedFloat.add Format.binary64 u v).isNaN) :
    extent (stored (UnpackedFloat.add Format.binary64 u v)) =
      bounded (nearest (extent u + extent v)) := by
  cases u with
  | notANumber => exact absurd rfl h
  | infinity s =>
      cases v with
      | notANumber => exact absurd rfl h
      | infinity t =>
          obtain rfl : s = t := by
            cases s <;> cases t <;> first | rfl | exact absurd rfl h
          have hsum : UnpackedFloat.add Format.binary64 (.infinity s) (.infinity s) =
              .infinity s := by cases s <;> rfl
          rw [hsum, stored_infinity]
          refine (bounded_nearest_infinity ?_).symm
          cases s <;> simp only [extent, Sign.apply] <;> omega
      | zero t =>
          refine (congrArg extent (stored_infinity s)).trans (bounded_nearest_infinity ?_).symm
          cases s <;> simp only [extent, Sign.apply] <;> omega
      | finite t m e hm =>
          exact (congrArg extent (stored_infinity s)).trans
            (bounded_nearest_infinity (hv.neg_horizon_le s)).symm
  | zero s =>
      cases v with
      | notANumber => exact absurd rfl h
      | infinity t =>
          rw [add_comm]
          refine (congrArg extent (stored_infinity t)).trans (bounded_nearest_infinity ?_).symm
          cases t <;> simp only [extent, Sign.apply] <;> omega
      | zero t => cases s <;> cases t <;> exact bounded_zero.symm
      | finite t m e hm =>
          change _ = bounded (nearest (0 + _))
          rw [zero_add, hv.bounded_nearest]
          exact congrArg extent hv.stored_eq
  | finite s m₁ e₁ h₁ =>
      cases v with
      | notANumber => exact absurd rfl h
      | infinity t =>
          rw [add_comm]
          exact (congrArg extent (stored_infinity t)).trans
            (bounded_nearest_infinity (hu.neg_horizon_le t)).symm
      | zero t =>
          change _ = bounded (nearest (_ + 0))
          rw [add_zero, hu.bounded_nearest]
          exact congrArg extent hu.stored_eq
      | finite t m₂ e₂ h₂ => exact hu.extent_add_finite hv

theorem sub_eq_add_neg (u v : UnpackedFloat) :
    UnpackedFloat.sub Format.binary64 u v = UnpackedFloat.add Format.binary64 u v.neg := by
  rcases u with s | _ | s | ⟨s, m₁, e₁, h₁⟩ <;> rcases v with t | _ | t | ⟨t, m₂, e₂, h₂⟩ <;>
    try rfl
  simp only [UnpackedFloat.sub, UnpackedFloat.add, UnpackedFloat.neg, apply_neg, Int.sub_eq_add_neg]

theorem isNaN_stored {u : UnpackedFloat} : (stored u).isNaN = u.isNaN := by
  cases u with
  | infinity s => rw [stored_infinity]
  | notANumber => rfl
  | zero s => rw [stored_zero]
  | finite s m e h =>
      rcases stored_finite s m e h with ⟨hinf, -⟩ | hsigned
      · rw [hinf]
        rfl
      · cases hu : stored (.finite s m e h) with
        | notANumber => rw [hu] at hsigned; cases hsigned
        | _ => rfl

theorem isNaN_normalize (n e : Int) (s : Sign) :
    (UnpackedFloat.normalize Format.binary64 n e s).isNaN = false := by
  have hround (s : Sign) (m : Nat) (e : Int) :
      (UnpackedFloat.round Format.binary64 s m e).isNaN = false := by
    simp only [UnpackedFloat.round, decreaseExponent, round_eq]
    split <;> rfl
  rw [UnpackedFloat.normalize]
  split
  · exact hround _ _ _
  · rfl
  · exact hround _ _ _

/-- Only opposite infinities have no sum. -/
theorem Proper.isNaN_add_iff {u v : UnpackedFloat} (hu : Proper u) (hv : Proper v)
    (hu' : ¬ u.isNaN) (hv' : ¬ v.isNaN) : (UnpackedFloat.add Format.binary64 u v).isNaN ↔
      extent u + extent v = 0 ∧ horizon ≤ (extent u).natAbs := by
  have hpos := horizon_pos
  have hfinite {s t : Sign} {m₁ m₂ : Nat} {e₁ e₂ : Int} {h₁ : 0 < m₁} {h₂ : 0 < m₂} :
      ¬ (UnpackedFloat.add Format.binary64 (.finite s m₁ e₁ h₁) (.finite t m₂ e₂ h₂)).isNaN :=
    Bool.not_eq_true _ ▸ isNaN_normalize _ _ _
  rcases u with (_ | _) | _ | (_ | _) | ⟨_ | _, m₁, e₁, h₁⟩ <;>
    rcases v with (_ | _) | _ | (_ | _) | ⟨_ | _, m₂, e₂, h₂⟩ <;>
    simp only [Proper] at hu hv <;>
    first
    | exact absurd rfl hu'
    | exact absurd rfl hv'
    | exact iff_of_false hfinite (by simp only [extent, Sign.apply]; omega)
    | exact iff_of_false Bool.false_ne_true (by simp only [extent, Sign.apply]; omega)
    | exact iff_of_true rfl (by simp only [extent, Sign.apply]; omega)

/-- What can be stored is finite before the horizon. -/
theorem Proper.isFinite_iff {u : UnpackedFloat} (hu : Proper u) (hu' : ¬ u.isNaN) :
    u.isFinite ↔ (extent u).natAbs < horizon := by
  have hpos := horizon_pos
  rcases u with (_ | _) | _ | _ | ⟨s, m, e, h⟩
  · exact iff_of_false Bool.false_ne_true (by simp only [extent, Sign.apply]; omega)
  · exact iff_of_false Bool.false_ne_true (by simp only [extent, Sign.apply]; omega)
  · exact absurd rfl hu'
  · exact iff_of_true rfl hpos
  · exact iff_of_true rfl (apply_natCast_lt hu.2.2)

section Sums

variable {x y : Float}

theorem isFinite_iff_units (hx : ¬ x.isNaN) : x.isFinite ↔ (units x).natAbs < horizon :=
  (proper_unpack x).isFinite_iff hx

theorem not_isNaN_of_isFinite (hx : x.isFinite) : ¬ x.isNaN := by
  change ¬ x.toModel.unpack.isNaN
  rw [Number.isFinite_iff] at hx
  cases hu : x.toModel.unpack with
  | notANumber => rw [hu] at hx; cases hx
  | _ => exact Bool.false_ne_true

theorem isNaN_add_iff (hx : ¬ x.isNaN) (hy : ¬ y.isNaN) :
    (x + y).isNaN ↔ units x + units y = 0 ∧ horizon ≤ (units x).natAbs := by
  have hsum : (x + y).isNaN =
      (stored (UnpackedFloat.add Format.binary64 x.toModel.unpack y.toModel.unpack)).isNaN := rfl
  rw [hsum, isNaN_stored]
  exact (proper_unpack x).isNaN_add_iff (proper_unpack y) hx hy

theorem isNaN_sub_iff (hx : ¬ x.isNaN) (hy : ¬ y.isNaN) :
    (x - y).isNaN ↔ units x - units y = 0 ∧ horizon ≤ (units x).natAbs := by
  have hdifference : (x - y).isNaN = (stored (UnpackedFloat.add Format.binary64
      x.toModel.unpack y.toModel.unpack.neg)).isNaN := by
    rw [← sub_eq_add_neg]
    rfl
  rw [hdifference, isNaN_stored, (proper_unpack x).isNaN_add_iff (proper_unpack y).neg hx
    (by rwa [isNaN_neg]), extent_neg, ← Int.sub_eq_add_neg]
  rfl

theorem units_add (h : ¬ (x + y).isNaN) : units (x + y) = bounded (nearest (units x + units y)) := by
  have hsum : (x + y).toModel.unpack =
      stored (UnpackedFloat.add Format.binary64 x.toModel.unpack y.toModel.unpack) := rfl
  change ¬ (x + y).toModel.unpack.isNaN at h
  rw [hsum, isNaN_stored] at h
  rw [units, hsum]
  exact (proper_unpack x).extent_add (proper_unpack y) h

theorem units_sub (h : ¬ (x - y).isNaN) : units (x - y) = bounded (nearest (units x - units y)) := by
  have hdifference : (x - y).toModel.unpack =
      stored (UnpackedFloat.add Format.binary64 x.toModel.unpack y.toModel.unpack.neg) := by
    rw [← sub_eq_add_neg]
    rfl
  change ¬ (x - y).toModel.unpack.isNaN at h
  rw [hdifference, isNaN_stored] at h
  rw [units, hdifference, (proper_unpack x).extent_add (proper_unpack y).neg h, extent_neg,
    ← Int.sub_eq_add_neg]
  rfl

end Sums

/-! ## Integers -/

/-- The units of one. -/
def one : Nat := magnitude 1 0

theorem one_pos : 0 < one := magnitude_pos 0 Nat.one_pos

/-- The units of a power of two. -/
theorem units_of_unpack {x : Float} {e : Int} (he : -1022 ≤ e) {hpos : 0 < 1 * 2 ^ 52}
    (h : x.toModel.unpack = .finite .positive (1 * 2 ^ 52) (e - 52) hpos) :
    units x = magnitude 1 e := by
  rw [units, h, extent, magnitude_mul_two_pow 1 (by omega) 52, Nat.cast_ofNat, Int.sub_add_cancel]
  rfl

theorem magnitude_eq_mul_one (n : Nat) : magnitude n 0 = n * one := by
  rw [one, magnitude, magnitude, Nat.one_mul]

/-- A large natural is rounded in one step. -/
theorem unpack_ofNat_of_le {n : Nat} (hn : 2 ^ 53 ≤ n) : (Float.ofNat n).toModel.unpack =
    stored (roundWithAccuracy Format.binary64 .positive (n * 2 ^ 53) (-53) .exact) := by
  have hexp : ¬ (0 : Int) < -(2 ^ Format.binary64.exponentBits + n.log2) := by
    have : (0 : Int) < 2 ^ Format.binary64.exponentBits := by decide
    omega
  change (Float.ofScientific n false 0).toModel.unpack = _
  rw [Float.ofScientific, dif_neg (by omega)]
  change stored (UnpackedFloat.ofScientific Format.binary64 n 0) = _
  rw [UnpackedFloat.ofScientific, dif_neg (by omega), if_neg (by decide), if_neg hexp,
    if_pos le_rfl, UnpackedFloat.mul, Nat.shiftLeft_eq, Int.toNat_zero, pow_zero, Nat.mul_one]
  rfl

theorem units_ofNat (n : Nat) :
    ¬ (Float.ofNat n).isNaN ∧ units (Float.ofNat n) = bounded (nearest (n * one)) := by
  have hone : ((n : Int) * one) = (magnitude n 0 : Nat) := by
    rw [magnitude_eq_mul_one, Nat.cast_mul]
  rcases Nat.eq_zero_or_pos n with rfl | hpos
  · refine ⟨by decide, ?_⟩
    rw [Nat.cast_zero, Int.zero_mul, nearest_zero, bounded_zero]
    rfl
  · rw [hone]
    rcases Nat.lt_or_ge n (2 ^ 53) with hsmall | hlarge
    · have hunpack := unpack_ofNat hpos hsmall
      have hlog : n.log2 < 53 := (Nat.log2_lt hpos.ne').2 hsmall
      have hexp : (n.log2 : Int) - 52 + (52 - n.log2 : Nat) = 0 := by omega
      have hproper := hunpack ▸ proper_unpack (Float.ofNat n)
      have hmagnitude : magnitude (mantissa n) (n.log2 - 52) = magnitude n 0 := by
        rw [mantissa, magnitude_mul_two_pow _ (by omega), hexp]
      refine ⟨not_isNaN_of_isFinite ?_, ?_⟩
      · rw [Number.isFinite_iff, hunpack]
        rfl
      · have hexact := hproper.bounded_nearest
        rw [extent, hmagnitude] at hexact
        rw [units, hunpack, extent, hmagnitude]
        exact hexact.symm
    · have hunpack := unpack_ofNat_of_le hlarge
      have hmagnitude : magnitude (n * 2 ^ 53) (-53) = magnitude n 0 :=
        magnitude_mul_two_pow n (by omega) 53
      have hlog : 53 ≤ n.log2 := (Nat.le_log2 hpos.ne').2 hlarge
      constructor
      · change ¬ (Float.ofNat n).toModel.unpack.isNaN
        rw [hunpack, isNaN_stored, round_eq]
        split <;> exact Bool.false_ne_true
      · rw [units, hunpack, extent_roundWithAccuracy (by omega) (by omega), hmagnitude,
          nearest_natCast]
        · rfl
        · rw [targetExponent_eq, totalExponent, log2_mul_pow hpos]
          omega

theorem unpack_neg (x : Float) : x.neg.toModel.unpack = x.toModel.unpack.neg :=
  (proper_unpack x).neg.stored_eq

theorem units_ofInt (n : Int) :
    ¬ (Float.ofInt n).isNaN ∧ units (Float.ofInt n) = bounded (nearest (n * one)) := by
  cases n with
  | ofNat n => exact units_ofNat n
  | negSucc n =>
      obtain ⟨hnan, hunits⟩ := units_ofNat (n + 1)
      constructor
      · change ¬ (Float.ofNat (n + 1)).neg.toModel.unpack.isNaN
        rwa [unpack_neg, isNaN_neg]
      · change extent (Float.ofNat (n + 1)).neg.toModel.unpack = _
        rw [unpack_neg, extent_neg, Int.negSucc_eq, Int.neg_mul, nearest_neg, bounded_neg]
        exact congrArg Neg.neg hunits

/-! ## The total order -/

/-- The units of the bits behind the sign. -/
def encoded (k : Nat) : Nat :=
  if k < 2 ^ 52 then magnitude k (-1074)
  else magnitude (2 ^ 52 + k % 2 ^ 52) ((k / 2 ^ 52 : Nat) - 1075)

theorem encoded_mono {j k : Nat} (h : j ≤ k) : encoded j ≤ encoded k := by
  rw [encoded, encoded]
  split
  next hj =>
    split
    · exact magnitude_mono h le_rfl
    next hk => exact magnitude_mono (by omega) (by omega)
  next hj =>
    rw [if_neg (by omega)]
    rcases (Nat.div_le_div_right (c := 2 ^ 52) h).lt_or_eq with hlt | heq
    · refine (Canonical.magnitude_lt_of_lt ⟨?_, ?_, ?_⟩ ⟨?_, ?_, ?_⟩ ?_).le <;> omega
    · rw [heq]
      exact magnitude_mono (by omega) le_rfl

section Bits

variable (b : BitVec 64)

theorem toNat_unpackMantissa : (@unpackMantissa Format.binary64 b).toNat = b.toNat % 2 ^ 52 := by
  change (BitVec.extractLsb 51 0 b).toNat = _
  rw [BitVec.extractLsb_toNat]
  rfl

theorem toNat_unpackExponent :
    (@unpackExponent Format.binary64 b).toNat = b.toNat % 2 ^ 63 / 2 ^ 52 := by
  change (BitVec.extractLsb 62 52 b).toNat = _
  rw [BitVec.extractLsb_toNat, Nat.shiftRight_eq_div_pow]
  omega

theorem toNat_unpackSign : (@unpackSign Format.binary64 b).toNat = b.toNat / 2 ^ 63 := by
  change (BitVec.extractLsb 63 63 b).toNat = _
  rw [BitVec.extractLsb_toNat, Nat.shiftRight_eq_div_pow]
  omega

/-- The units, read from the bits. -/
theorem extent_unpack (h : ¬ (unpack Format.binary64 b).isNaN) :
    extent (unpack Format.binary64 b) = (Sign.ofBitVec (@unpackSign Format.binary64 b)).apply
      (bounded (encoded (b.toNat % 2 ^ 63))) := by
  have hbias : (Format.binary64.exponentBias : Int) = 1023 := rfl
  have hmantissa := toNat_unpackMantissa b
  have hexponent := toNat_unpackExponent b
  have hproper := proper_of_bits b
  rw [encoded]
  simp only [unpack, hbias] at h hproper ⊢
  generalize Sign.ofBitVec (@unpackSign Format.binary64 b) = s at *
  split at h
  next htop =>
    have hfield : b.toNat % 2 ^ 63 / 2 ^ 52 = 2047 := by
      rw [← hexponent, htop]
      rfl
    split at h
    next hzero =>
      have hrest : b.toNat % 2 ^ 63 % 2 ^ 52 = 0 := by
        rw [hzero] at hmantissa
        simp at hmantissa
        omega
      rw [if_pos htop, if_pos hzero, if_neg (by omega), hfield, hrest,
        bounded_of_le (by exact le_rfl)]
      rfl
    · exact absurd rfl h
  next htop =>
    rw [if_neg htop] at hproper ⊢
    split at h
    next hsub =>
      have hfield : b.toNat % 2 ^ 63 / 2 ^ 52 = 0 := by
        rw [← hexponent, hsub]
        rfl
      have hrest : (@unpackMantissa Format.binary64 b).toNat = b.toNat % 2 ^ 63 := by omega
      rw [if_pos hsub] at hproper ⊢
      rw [if_pos (by omega), ← hrest]
      split at h
      next hzero =>
        have hnone : (@unpackMantissa Format.binary64 b).toNat = 0 := congrArg BitVec.toNat hzero
        rw [dif_pos hzero, hnone, magnitude, Nat.zero_mul, Nat.cast_zero, bounded_zero]
        cases s <;> rfl
      next hzero =>
        rw [dif_neg hzero] at hproper ⊢
        rw [hsub] at hproper ⊢
        have hbound : magnitude (@unpackMantissa Format.binary64 b).toNat (-1074) < horizon :=
          hproper.2.2
        rw [bounded_natCast hbound]
        rfl
    next hnormal =>
      have hfield : (@unpackExponent Format.binary64 b).toNat ≠ 0 := fun heq =>
        hnormal (BitVec.eq_of_toNat_eq heq)
      rw [if_neg hnormal] at hproper ⊢
      have hword := toNat_one_append (@unpackMantissa Format.binary64 b)
      have hrest : b.toNat % 2 ^ 63 % 2 ^ 52 = (@unpackMantissa Format.binary64 b).toNat := by
        omega
      rw [if_neg (by omega), hrest, ← hword, ← hexponent]
      have hbound : magnitude (1#1 ++ @unpackMantissa Format.binary64 b).toNat
          ((@unpackExponent Format.binary64 b).toNat - 1075) < horizon := hproper.2.2
      rw [bounded_natCast hbound]
      rfl

theorem ofBitVec_unpackSign : Sign.ofBitVec (@unpackSign Format.binary64 b) =
    if b.toNat < 2 ^ 63 then .positive else .negative := by
  have hbit := toNat_unpackSign b
  rw [Sign.ofBitVec]
  split
  next hzero =>
    rw [hzero] at hbit
    rw [if_pos]
    simp at hbit
    omega
  next hone =>
    rw [if_neg]
    intro hlt
    exact hone (BitVec.eq_of_toNat_eq (by rw [hbit, Nat.div_eq_of_lt hlt]; rfl))

end Bits

section TotalOrder

variable {x y : Float}

theorem units_of_lt (hx : ¬ x.isNaN) (h : x.toBits.toNat < 2 ^ 63) :
    units x = bounded (encoded x.toBits.toNat) := by
  have hunits : units x = _ := extent_unpack x.toBits.toBitVec hx
  rwa [ofBitVec_unpackSign, UInt64.toNat_toBitVec, if_pos h, Nat.mod_eq_of_lt h] at hunits

theorem units_of_le (hx : ¬ x.isNaN) (h : 2 ^ 63 ≤ x.toBits.toNat) :
    units x = -bounded (encoded (x.toBits.toNat - 2 ^ 63)) := by
  have hunits : units x = _ := extent_unpack x.toBits.toBitVec hx
  have hlt := x.toBits.toNat_lt
  have hmod : x.toBits.toNat % 2 ^ 63 = x.toBits.toNat - 2 ^ 63 := by omega
  rwa [ofBitVec_unpackSign, UInt64.toNat_toBitVec, if_neg (by omega), hmod] at hunits

/-- The total order refines the order of the numbers. -/
theorem units_le_of_totalLe (hx : ¬ x.isNaN) (hy : ¬ y.isNaN) (h : totalLe x y) :
    units x ≤ units y := by
  have hnonneg (k : Nat) : 0 ≤ bounded (encoded k) :=
    bounded_zero.symm.trans_le (bounded_mono (Int.natCast_nonneg _))
  have hmono {j k : Nat} (hjk : j ≤ k) : bounded (encoded j) ≤ bounded (encoded k) :=
    bounded_mono (by exact_mod_cast encoded_mono hjk)
  rw [totalLe, decide_eq_true_iff, totalKey, totalKey] at h
  rcases Nat.lt_or_ge x.toBits.toNat (2 ^ 63) with hx' | hx' <;>
    rcases Nat.lt_or_ge y.toBits.toNat (2 ^ 63) with hy' | hy'
  · rw [if_pos (by omega), if_pos (by omega)] at h
    rw [units_of_lt hx hx', units_of_lt hy hy']
    exact hmono (by omega)
  · rw [if_pos (by omega), if_neg (by omega)] at h
    omega
  · rw [units_of_le hx hx', units_of_lt hy hy']
    have := hnonneg (x.toBits.toNat - 2 ^ 63)
    have := hnonneg y.toBits.toNat
    omega
  · rw [if_neg (by omega), if_neg (by omega)] at h
    rw [units_of_le hx hx', units_of_le hy hy']
    exact neg_le_neg (hmono (by omega))

end TotalOrder

end Barrage.Number
