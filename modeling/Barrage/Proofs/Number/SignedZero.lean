import Barrage.Proofs.Number.Units

/-!
# Signed zeros

There are two zeros, which compare as equal.  Adding the positive zero to a float makes
a negative zero positive and changes nothing else.  So floats that are not negative
have the same sum with zero if and only if they compare as equal (`add_zero_eq_iff`).
Sums do not depend on the signs of zeros (`add_beq_add`).
-/

namespace Barrage.Number

variable {x x' y y' : Float}

theorem beq_iff_of_nonneg (hx : 0.0 ≤ x) (hy : 0.0 ≤ y) : (x == y) = true ↔ units x = units y :=
  beq_iff_units (units_nonneg hx).1 (units_nonneg hy).1

theorem units_add_of_nonneg (hx : 0.0 ≤ x) (hy : 0.0 ≤ y) :
    units (x + y) = bounded (nearest (units x + units y)) :=
  units_add (units_nonneg (add_nonneg hx hy)).1

theorem add_zero_nonneg (hx : 0.0 ≤ x) : 0.0 ≤ x + 0.0 := add_nonneg hx (by decide)

theorem units_add_zero (hx : 0.0 ≤ x) : units (x + 0.0) = units x := by
  rw [units_add_of_nonneg hx (by decide), units_zero, Int.add_zero]
  exact (proper_unpack x).bounded_nearest

theorem beq_add_zero (hx : 0.0 ≤ x) : (x == x + 0.0) = true := by
  rw [beq_iff_of_nonneg hx (add_zero_nonneg hx), units_add_zero hx]

theorem add_beq_add (hx : 0.0 ≤ x) (hx' : 0.0 ≤ x') (hy : 0.0 ≤ y) (hy' : 0.0 ≤ y')
    (hxx' : x == x') (hyy' : y == y') : (x + y == x' + y') = true := by
  rw [beq_iff_of_nonneg hx hx'] at hxx'
  rw [beq_iff_of_nonneg hy hy'] at hyy'
  rw [beq_iff_of_nonneg (add_nonneg hx hy) (add_nonneg hx' hy'), units_add_of_nonneg hx hy,
    units_add_of_nonneg hx' hy', hxx', hyy']

/-- Adding zero forgets the sign of a zero and nothing else. -/
theorem add_zero_eq_iff (hx : 0.0 ≤ x) (hy : 0.0 ≤ y) : x + 0.0 = y + 0.0 ↔ (x == y) = true := by
  constructor
  · intro heq
    rw [beq_iff_of_nonneg hx hy, ← units_add_zero hx, heq, units_add_zero hy]
  · intro hbeq
    rcases (Float.beq_iff_ne_nan_and_eq.1 hbeq).2.2 with rfl | ⟨rfl, rfl⟩ | ⟨rfl, rfl⟩
    · rfl
    · decide
    · decide

theorem add_zero_add_zero (hx : 0.0 ≤ x) : x + 0.0 + 0.0 = x + 0.0 := by
  rw [add_zero_eq_iff (add_zero_nonneg hx) hx, beq_iff_of_nonneg (add_zero_nonneg hx) hx,
    units_add_zero hx]

end Barrage.Number
