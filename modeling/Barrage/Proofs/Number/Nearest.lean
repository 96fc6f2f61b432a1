import Mathlib
import Barrage.Number.Binary

/-!
# Rounding an integer to 53 bits

`nearest` keeps 53 significant bits of an integer.  Near a natural `n` the integers of
53 bits are the multiples of `spacing n`, and `keep n` is the closest one.

* Rounding is monotone (`nearest_mono`), and odd (`nearest_neg`).
* A multiple of a power of two that has 53 bits beyond it is not changed
  (`nearest_of_dvd`).  So nothing is rounded across such an integer.
* The error is a part in `2 ^ 53` at most (`nearest_error`).
-/

namespace Barrage.Number

/-! ## Quotients -/

section Quotient

variable {a b d : Nat}

theorem roundDiv_cases (a d : Nat) :
    roundDiv a d = a / d ∧ 2 * (a % d) ≤ d ∨ roundDiv a d = a / d + 1 ∧ d ≤ 2 * (a % d) := by
  simp only [roundDiv]
  split
  · exact .inl ⟨rfl, by omega⟩
  · split
    · exact .inr ⟨rfl, by omega⟩
    · rcases Nat.mod_two_eq_zero_or_one (a / d) with heven | hodd
      · exact .inl ⟨by omega, by omega⟩
      · exact .inr ⟨by omega, by omega⟩

theorem roundDiv_mul (k : Nat) (hd : 0 < d) : roundDiv (k * d) d = k := by
  simp [roundDiv, Nat.mul_div_cancel k hd, hd]

/-- A quotient depends on the ratio only. -/
theorem roundDiv_mul_mul (a d : Nat) {c : Nat} (hc : 0 < c) :
    roundDiv (a * c) (d * c) = roundDiv a d := by
  have hlt (m n : Nat) : m * c < n * c ↔ m < n := Nat.mul_lt_mul_right hc
  simp only [roundDiv, Nat.mul_div_mul_right _ _ hc, Nat.mul_mod_mul_right, ← Nat.mul_assoc, hlt]

theorem roundDiv_mono (h : a ≤ b) : roundDiv a d ≤ roundDiv b d := by
  have hdiv := Nat.div_le_div_right (c := d) h
  rcases hdiv.lt_or_eq with hlt | heq
  · rcases roundDiv_cases a d with ⟨ha, -⟩ | ⟨ha, -⟩ <;>
      rcases roundDiv_cases b d with ⟨hb, -⟩ | ⟨hb, -⟩ <;> omega
  · -- With one quotient, the larger rest is rounded up if the smaller one is.
    have hmod : a % d ≤ b % d := by
      have ha := Nat.div_add_mod a d
      have hb := Nat.div_add_mod b d
      rw [heq] at ha
      omega
    simp only [roundDiv, heq]
    split <;> split <;> (try split) <;> (try split) <;> omega

theorem roundDiv_error (hd : 0 < d) :
    2 * (roundDiv a d * d) ≤ 2 * a + d ∧ 2 * a ≤ 2 * (roundDiv a d * d) + d := by
  have hsplit := Nat.div_add_mod a d
  have hlt := Nat.mod_lt a hd
  rw [Nat.mul_comm] at hsplit
  rcases roundDiv_cases a d with ⟨hq, hrest⟩ | ⟨hq, hrest⟩
  · rw [hq]
    omega
  · rw [hq, Nat.add_mul, Nat.one_mul]
    omega

/-- What is at most half a unit away from an even number of units is rounded to it. -/
theorem roundDiv_of_near {q : Nat} (hd : 0 < d) (heven : q % 2 = 0)
    (hlow : 2 * (q * d) ≤ 2 * a + d) (hhigh : 2 * a ≤ 2 * (q * d) + d) : roundDiv a d = q := by
  rcases Nat.lt_or_ge a (q * d) with hlt | hge
  · obtain ⟨p, rfl⟩ : ∃ p, q = p + 1 := ⟨q - 1, by rcases q with _ | q <;> simp at hlt ⊢⟩
    rw [Nat.add_mul, Nat.one_mul] at hlow hhigh hlt
    have hdiv : a / d = p := Nat.div_eq_of_lt_le (by omega) (by rw [Nat.add_mul]; omega)
    have hmod := Nat.div_add_mod a d
    rw [hdiv, Nat.mul_comm] at hmod
    simp only [roundDiv, hdiv]
    split
    · omega
    · split <;> omega
  · have hdiv : a / d = q := Nat.div_eq_of_lt_le (by omega) (by rw [Nat.add_mul]; omega)
    have hmod := Nat.div_add_mod a d
    rw [hdiv, Nat.mul_comm] at hmod
    simp only [roundDiv, hdiv]
    split
    · rfl
    · split <;> omega

end Quotient

/-! ## Magnitudes -/

/-- The distance of the integers of 53 bits near a magnitude. -/
def spacing (n : Nat) : Nat := 2 ^ (n.log2 - 52)

/-- The magnitude of 53 bits closest to a magnitude. -/
def keep (n : Nat) : Nat := roundDiv n (spacing n) * spacing n

theorem spacing_pos (n : Nat) : 0 < spacing n := Nat.two_pow_pos _

section Magnitude

variable {m n k : Nat}

theorem spacing_of_lt (h : n < 2 ^ 53) : spacing n = 1 := by
  rcases Nat.eq_zero_or_pos n with rfl | hpos
  · rfl
  · have hlog : n.log2 < 53 := (Nat.log2_lt hpos.ne').2 h
    rw [spacing, Nat.sub_eq_zero_of_le (by omega), pow_zero]

theorem keep_of_dvd_spacing (h : spacing n ∣ n) : keep n = n := by
  obtain ⟨q, hq⟩ := h
  have hround := roundDiv_mul q (spacing_pos n)
  rw [Nat.mul_comm, ← hq] at hround
  rw [keep, hround, Nat.mul_comm, ← hq]

theorem keep_two_pow (k : Nat) : keep (2 ^ k) = 2 ^ k := by
  refine keep_of_dvd_spacing (Nat.pow_dvd_pow 2 ?_)
  rw [Nat.log2_two_pow]
  omega

/-- A multiple of a power of two keeps its value if 53 bits suffice beyond it. -/
theorem keep_of_dvd (hdvd : 2 ^ k ∣ n) (h : n ≤ 2 ^ (53 + k)) : keep n = n := by
  rcases h.lt_or_eq with hlt | rfl
  · rcases Nat.eq_zero_or_pos n with rfl | hpos
    · rfl
    · have hlog : n.log2 < 53 + k := (Nat.log2_lt hpos.ne').2 hlt
      exact keep_of_dvd_spacing ((Nat.pow_dvd_pow 2 (by omega)).trans hdvd)
  · exact keep_two_pow _

theorem keep_of_le (h : n ≤ 2 ^ 53) : keep n = n := keep_of_dvd (k := 0) (by simp) h

/-- A large magnitude has 53 bits beyond its spacing. -/
theorem roundDiv_spacing_bounds (h : 2 ^ 53 ≤ n) :
    2 ^ 52 ≤ roundDiv n (spacing n) ∧ roundDiv n (spacing n) ≤ 2 ^ 53 := by
  have hlog : 53 ≤ n.log2 := (Nat.le_log2 (by omega)).2 h
  have hends (j : Nat) : roundDiv (2 ^ (n.log2 + j)) (spacing n) = 2 ^ (52 + j) := by
    have hpow : 2 ^ (n.log2 + j) = 2 ^ (52 + j) * spacing n := by
      rw [spacing, ← Nat.pow_add]
      congr 1
      omega
    rw [hpow, roundDiv_mul _ (spacing_pos n)]
  have hlow := roundDiv_mono (d := spacing n) (Nat.log2_self_le (n := n) (by omega))
  have hhigh := roundDiv_mono (d := spacing n) (Nat.lt_log2_self (n := n)).le
  exact ⟨(hends 0).symm.trans_le hlow, hhigh.trans_eq (hends 1)⟩

/-- The digits that are kept of a magnitude are the magnitude itself or have 53 bits. -/
theorem roundDiv_spacing_cases (n : Nat) : n < 2 ^ 53 ∧ roundDiv n (spacing n) = n ∨
    2 ^ 52 ≤ roundDiv n (spacing n) ∧ roundDiv n (spacing n) ≤ 2 ^ 53 := by
  rcases Nat.lt_or_ge n (2 ^ 53) with hsmall | hlarge
  · have hexact := roundDiv_mul (d := 1) n Nat.one_pos
    rw [Nat.mul_one] at hexact
    exact Or.inl ⟨hsmall, by rw [spacing_of_lt hsmall, hexact]⟩
  · exact Or.inr (roundDiv_spacing_bounds hlarge)

/-- The powers of two around a magnitude are also around what is kept of it. -/
theorem keep_bounds (hpos : 0 < n) : 2 ^ n.log2 ≤ keep n ∧ keep n ≤ 2 ^ (n.log2 + 1) := by
  rcases Nat.lt_or_ge n (2 ^ 53) with hsmall | hlarge
  · rw [keep_of_le hsmall.le]
    exact ⟨Nat.log2_self_le hpos.ne', Nat.lt_log2_self.le⟩
  · have hlog : 53 ≤ n.log2 := (Nat.le_log2 hpos.ne').2 hlarge
    have hends (j : Nat) : 2 ^ (n.log2 + j) = 2 ^ (52 + j) * spacing n := by
      rw [spacing, ← Nat.pow_add]
      congr 1
      omega
    obtain ⟨hlow, hhigh⟩ := roundDiv_spacing_bounds hlarge
    exact ⟨(hends 0).trans_le (Nat.mul_le_mul_right _ hlow),
      (Nat.mul_le_mul_right _ hhigh).trans_eq (hends 1).symm⟩

theorem keep_mono (h : m ≤ n) : keep m ≤ keep n := by
  rcases Nat.eq_zero_or_pos m with rfl | hpos
  · exact Nat.zero_le _
  · have hlog : m.log2 ≤ n.log2 :=
      (Nat.le_log2 (by omega)).2 ((Nat.log2_self_le hpos.ne').trans h)
    rcases hlog.lt_or_eq with hlt | heq
    · calc keep m ≤ 2 ^ (m.log2 + 1) := (keep_bounds hpos).2
        _ ≤ 2 ^ n.log2 := Nat.pow_le_pow_right (by omega) hlt
        _ ≤ keep n := (keep_bounds (by omega)).1
    · have hspacing : spacing m = spacing n := by rw [spacing, spacing, heq]
      rw [keep, keep, hspacing]
      exact Nat.mul_le_mul_right _ (roundDiv_mono (d := spacing n) h)

theorem keep_error (n : Nat) :
    2 ^ 53 * keep n ≤ 2 ^ 53 * n + n ∧ 2 ^ 53 * n ≤ 2 ^ 53 * keep n + n := by
  rcases Nat.lt_or_ge n (2 ^ 53) with hsmall | hlarge
  · rw [keep_of_le hsmall.le]
    omega
  · have hlog : 53 ≤ n.log2 := (Nat.le_log2 (by omega)).2 hlarge
    have hspacing : 2 ^ 52 * spacing n ≤ n := by
      rw [spacing, ← Nat.pow_add, Nat.add_sub_cancel' (by omega)]
      exact Nat.log2_self_le (by omega)
    have herror := roundDiv_error (a := n) (spacing_pos n)
    rw [keep]
    omega

theorem keep_eq_zero_iff : keep n = 0 ↔ n = 0 := by
  constructor
  · intro h
    by_contra hne
    have := (keep_bounds (Nat.pos_of_ne_zero hne)).1
    have := Nat.two_pow_pos n.log2
    omega
  · rintro rfl
    rfl

/-- What was taken away from a multiple of a power of two gives it back, although both
the difference and the sum are rounded. -/
theorem keep_add_keep_sub (hle : m ≤ n) (hdvd : 2 ^ k ∣ n) (h : 2 * n < 2 ^ (52 + k)) :
    keep (m + keep (n - m)) = n := by
  rcases Nat.lt_or_ge (n - m) (2 ^ 53) with hsmall | hlarge
  · have hpow : 2 ^ (52 + k) ≤ 2 ^ (53 + k) := Nat.pow_le_pow_right (by omega) (by omega)
    rw [keep_of_le hsmall.le, Nat.add_sub_cancel' hle, keep_of_dvd hdvd (by omega)]
  · set b := m + keep (n - m) with hb
    have hlog : 53 ≤ (n - m).log2 := (Nat.le_log2 (by omega)).2 hlarge
    obtain ⟨hlow, hhigh⟩ := keep_bounds (n := n - m) (by omega)
    have hself := Nat.log2_self_le (n := n - m) (by omega)
    have hbpos : 0 < b := by
      have := Nat.two_pow_pos (n - m).log2
      omega
    have hlog' : (n - m).log2 ≤ b.log2 := (Nat.le_log2 (by omega)).2 (by omega)
    have hspacing : spacing (n - m) ≤ spacing b := Nat.pow_le_pow_right (by omega) (by omega)
    have htop : b.log2 < 52 + k := by
      rw [Nat.pow_succ] at hhigh
      exact (Nat.log2_lt (by omega)).2 (by omega)
    obtain ⟨p, hp⟩ : 2 * spacing b ∣ n := by
      refine Nat.dvd_trans ?_ hdvd
      rw [spacing, ← Nat.pow_succ']
      exact Nat.pow_dvd_pow 2 (by omega)
    have hn : n = 2 * p * spacing b := by rw [hp]; ring
    have herror := roundDiv_error (a := n - m) (spacing_pos (n - m))
    rw [← keep] at herror
    have hround : roundDiv b (spacing b) = 2 * p :=
      roundDiv_of_near (spacing_pos b) (by omega) (by omega) (by omega)
    rw [keep, hround, ← hn]

theorem spacing_dvd_of_keep (h : keep n = n) : spacing n ∣ n :=
  ⟨roundDiv n (spacing n), by rw [Nat.mul_comm]; exact h.symm⟩

end Magnitude

/-! ## Integers -/

section Nearest

variable {m n : Int} {k : Nat}

theorem signed_natAbs (n : Int) : signed (decide (n < 0)) n.natAbs = n := by
  rw [signed]
  split
  next hneg =>
    have := of_decide_eq_true hneg
    omega
  next hneg =>
    have := of_decide_eq_false (Bool.eq_false_of_not_eq_true hneg)
    omega

theorem nearest_eq (n : Int) : nearest n = signed (decide (n < 0)) (keep n.natAbs) := by
  rw [nearest]
  split
  next hsmall => rw [keep_of_le hsmall, signed_natAbs]
  · rfl

theorem nearest_natCast (n : Nat) : nearest n = keep n := by
  simp [nearest_eq, signed]

@[simp] theorem nearest_zero : nearest 0 = 0 := rfl

@[simp] theorem nearest_neg (n : Int) : nearest (-n) = -nearest n := by
  rw [nearest_eq, nearest_eq, Int.natAbs_neg, signed, signed]
  rcases lt_trichotomy n 0 with hneg | rfl | hpos
  · simp [hneg, hneg.le]
  · rfl
  · simp [hpos, hpos.le]

theorem nearest_of_nonneg (h : 0 ≤ n) : nearest n = keep n.toNat := by
  obtain ⟨n, rfl⟩ := Int.eq_ofNat_of_zero_le h
  exact nearest_natCast n

theorem nearest_nonneg (h : 0 ≤ n) : 0 ≤ nearest n := by
  rw [nearest_of_nonneg h]
  exact Int.natCast_nonneg _

theorem nearest_mono (h : m ≤ n) : nearest m ≤ nearest n := by
  rcases le_total 0 m with hm | hm
  · rw [nearest_of_nonneg hm, nearest_of_nonneg (hm.trans h)]
    exact_mod_cast keep_mono (Int.toNat_le_toNat h)
  · have hneg (i : Int) : nearest i = -nearest (-i) := by rw [nearest_neg, neg_neg]
    rcases le_total 0 n with hn | hn
    · have hlow := nearest_nonneg (n := -m) (by omega)
      have hhigh := nearest_nonneg hn
      rw [hneg m]
      omega
    · rw [hneg m, hneg n, nearest_of_nonneg (n := -m) (by omega),
        nearest_of_nonneg (n := -n) (by omega)]
      have := keep_mono (Int.toNat_le_toNat (show -n ≤ -m by omega))
      omega

/-- A multiple of a power of two is not rounded if 53 bits suffice beyond it. -/
theorem nearest_of_dvd (hdvd : (2 : Int) ^ k ∣ n) (h : n.natAbs ≤ 2 ^ (53 + k)) :
    nearest n = n := by
  have hnat : 2 ^ k ∣ n.natAbs := by
    have := Int.natAbs_dvd_natAbs.2 hdvd
    rwa [Int.natAbs_pow] at this
  rw [nearest_eq, keep_of_dvd hnat h, signed_natAbs]

theorem nearest_error (n : Int) : 2 ^ 53 * (nearest n - n).natAbs ≤ n.natAbs := by
  have hpos {i : Int} (hi : 0 ≤ i) : 2 ^ 53 * (nearest i - i).natAbs ≤ i.natAbs := by
    obtain ⟨i, rfl⟩ := Int.eq_ofNat_of_zero_le hi
    have := keep_error i
    rw [nearest_natCast]
    omega
  rcases le_total 0 n with hn | hn
  · exact hpos hn
  · have := hpos (i := -n) (by omega)
    rwa [nearest_neg, ← neg_sub', Int.natAbs_neg, Int.natAbs_neg] at this

/-- A number of 53 bits that is taken away from a multiple of a power of two gives it
back. -/
theorem nearest_add_nearest_sub (hm : 0 ≤ m) (hm' : m < 2 ^ (53 + k)) (hexact : nearest m = m)
    (hn : 0 ≤ n) (hdvd : (2 : Int) ^ k ∣ n) (hsmall : 2 * n < 2 ^ (52 + k)) :
    nearest (m + nearest (n - m)) = n := by
  obtain ⟨m, rfl⟩ := Int.eq_ofNat_of_zero_le hm
  obtain ⟨n, rfl⟩ := Int.eq_ofNat_of_zero_le hn
  have hdvd' : 2 ^ k ∣ n := by exact_mod_cast hdvd
  have hsmall' : 2 * n < 2 ^ (52 + k) := by exact_mod_cast hsmall
  have hm'' : m < 2 ^ (53 + k) := by exact_mod_cast hm'
  have hpow : 2 ^ (52 + k) ≤ 2 ^ (53 + k) := Nat.pow_le_pow_right (by omega) (by omega)
  rcases Nat.lt_or_ge n m with hlt | hge
  · -- The difference is a multiple of the spacing of the larger number.
    rw [nearest_natCast] at hexact
    have hlog : m.log2 < 53 + k := (Nat.log2_lt (by omega)).2 hm''
    have hmdvd := spacing_dvd_of_keep (Int.ofNat.inj hexact)
    have hndvd : spacing m ∣ n := (Nat.pow_dvd_pow 2 (by omega)).trans hdvd'
    have hdiff : nearest ((n : Int) - m) = n - m := by
      refine nearest_of_dvd (k := m.log2 - 52) ?_ ?_
      · exact_mod_cast Int.dvd_sub (Int.natCast_dvd_natCast.2 hndvd)
          (Int.natCast_dvd_natCast.2 hmdvd)
      · have hself := Nat.lt_log2_self (n := m)
        have : 2 ^ (m.log2 + 1) ≤ 2 ^ (53 + (m.log2 - 52)) :=
          Nat.pow_le_pow_right (by omega) (by omega)
        omega
    rw [hdiff, add_sub_cancel, nearest_natCast, keep_of_dvd hdvd' (by omega)]
  · have hcast : (n : Int) - m = ((n - m : Nat) : Int) := by omega
    rw [hcast, nearest_natCast, ← Nat.cast_add, nearest_natCast,
      keep_add_keep_sub hge hdvd' hsmall']

theorem nearest_eq_zero_iff : nearest n = 0 ↔ n = 0 := by
  rw [nearest_eq, signed]
  split <;> simp [keep_eq_zero_iff]

end Nearest

end Barrage.Number
