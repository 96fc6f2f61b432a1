import Mathlib.Data.Int.ModEq
import Mathlib.Data.List.Nodup
import Barrage.Circle
import Barrage.Geometry.Arc
import Barrage.Proofs.Build

/-!
# Arcs in half degrees

An arc of `n` bullets at spacing `s` reaches `(n - 1) * s` degrees from its first bullet
to its last one, so its first bullet is at the center less that many half degrees.  This
is a whole degree if the center and the reach have the same parity (`Arc.Aligned`).

Three rules about parities are checked before the start is computed.  They are no
further condition: together they say that the arc is aligned (`Arc.checkParity_eq_ok`).
So an arc that passes them has a whole start, and one that need not pass them is
refused for its start instead (`Arc.start_even_iff`).

The bullets of an aligned arc that is not wider than the circle are evenly spread around
the center (`Arc.spread_angles`), and each of them has an anchor of its own on every
circle.  Anchors are numbers without bound here, but groups of a level have 32 bits.  So a
circle near the end of their range lacks some of its anchors (`Circle.anchor?`).
-/

namespace Barrage

namespace Arc

variable {a : Arc} {k : Int}

/-- The number of bullets and the spacing are from 1 to 360 each, and the bullets fit on
the circle. -/
structure Sized (a : Arc) : Prop where
  spacing : 1 ≤ a.spacing ∧ a.spacing ≤ 360
  bullets : 1 ≤ a.bullets ∧ a.bullets ≤ 360
  width : a.bullets * a.spacing ≤ 360

/-- The degrees from the first bullet to the last one. -/
def reach (a : Arc) : Nat := (a.bullets - 1) * a.spacing

/-- Around `k` half degrees the arc starts at a whole degree. -/
def Aligned (a : Arc) (k : Int) : Prop := k ≡ a.reach [ZMOD 2]

instance : Decidable (a.Aligned k) := inferInstanceAs (Decidable (k ≡ a.reach [ZMOD 2]))

/-- The arc around `k` half degrees. -/
def placed (a : Arc) (k : Int) : Placed where
  angles := a.angles (a.start k / 2)
  closes := a.bullets * a.spacing = 360

/-! ## Checks -/

theorem place_eq_ok {p : Placed} : a.place = .ok p ↔
    a.Sized ∧ ∃ k, halves? a.center = some k ∧
      (a.anyParity = false → a.checkParity k = .ok ()) ∧ ¬ a.start k % 2 = 1 ∧ a.placed k = p := by
  constructor
  · intro h
    simp only [place, Except.guard_eq_ok, not_not, Nat.not_lt] at h
    obtain ⟨hspacing, hbullets, hwidth, h⟩ := h
    refine ⟨⟨hspacing, hbullets, hwidth⟩, ?_⟩
    split at h
    · cases h
    next k hk =>
      cases hany : a.anyParity with
      | false =>
          simp only [hany, Bool.false_eq_true, not_false_eq_true, if_true, Except.seq_eq_ok,
            Except.guard_eq_ok, Except.pure_eq_ok] at h
          exact ⟨k, hk, fun _ => h.1, h.2⟩
      | true =>
          simp only [hany, not_true_eq_false, if_false, Except.guard_eq_ok, Except.pure_eq_ok] at h
          exact ⟨k, hk, by simp, h⟩
  · rintro ⟨⟨hspacing, hbullets, hwidth⟩, k, hk, hparity, hstart, hp⟩
    simp only [place, Except.guard_eq_ok, not_not, Nat.not_lt, hk]
    refine ⟨hspacing, hbullets, hwidth, ?_⟩
    cases hany : a.anyParity with
    | false =>
        simp only [Bool.false_eq_true, not_false_eq_true, if_true, Except.seq_eq_ok,
          Except.guard_eq_ok, Except.pure_eq_ok]
        exact ⟨hparity hany, hstart, hp⟩
    | true =>
        simp only [not_true_eq_false, if_false, Except.guard_eq_ok, Except.pure_eq_ok]
        exact ⟨hstart, hp⟩

/-! ## Parity -/

theorem aligned_iff : a.Aligned k ↔ (k - a.reach) % 2 = 0 := by
  rw [Aligned, Int.ModEq]
  omega

theorem reach_mod_two (h : 1 ≤ a.bullets) :
    a.reach % 2 = if a.bullets % 2 = 1 then 0 else a.spacing % 2 := by
  rw [reach, Nat.mul_mod]
  split
  next hodd =>
    have : (a.bullets - 1) % 2 = 0 := by omega
    rw [this, Nat.zero_mul]
  next heven =>
    have : (a.bullets - 1) % 2 = 1 := by omega
    rw [this, Nat.one_mul, Nat.mod_mod]

/-- The three rules about parities are one. -/
theorem checkParity_eq_ok (h : 1 ≤ a.bullets) : a.checkParity k = .ok () ↔ a.Aligned k := by
  have hreach := reach_mod_two h
  rw [aligned_iff, checkParity]
  by_cases hbullets : a.bullets % 2 = 1
  · simp only [hbullets, if_true] at hreach ⊢
    split <;> simp <;> omega
  · simp only [hbullets, if_false] at hreach ⊢
    by_cases hspacing : a.spacing % 2 = 1
    · simp only [hspacing, if_true] at hreach ⊢
      split <;> simp <;> omega
    · simp only [hspacing, if_false] at hreach ⊢
      split <;> simp <;> omega

theorem Sized.reach_lt (h : a.Sized) : a.reach < 360 := by
  have hlt : a.reach < a.bullets * a.spacing :=
    Nat.mul_lt_mul_of_pos_right (Nat.sub_lt h.bullets.1 Nat.one_pos) h.spacing.1
  exact hlt.trans_le h.width

/-- The start is not rounded: it is the center less the reach, on the circle. -/
theorem cast_start (h : a.Sized) (hk : k.natAbs ≤ 2 ^ 52) :
    (a.start k : Int) = (k - a.reach) % 720 := by
  have hexact : (k - a.reach).natAbs ≤ Number.exactLimit := by
    have := h.reach_lt
    rw [Number.exactLimit]
    omega
  rw [start, ← reach, Number.nearest_of_small hexact]
  omega

theorem start_even_iff (h : a.Sized) (hk : k.natAbs ≤ 2 ^ 52) :
    ¬ a.start k % 2 = 1 ↔ a.Aligned k := by
  have := cast_start h hk
  rw [aligned_iff]
  omega

/-- Both modes accept the arcs that are aligned, and place them in the same way. -/
theorem place_eq_ok_iff_aligned {p : Placed} (hcenter : halves? a.center = some k)
    (hk : k.natAbs ≤ 2 ^ 52) :
    a.place = .ok p ↔ a.Sized ∧ a.Aligned k ∧ a.placed k = p := by
  rw [place_eq_ok]
  constructor
  · rintro ⟨hsized, j, hj, -, hstart, hp⟩
    obtain rfl : k = j := Option.some_inj.1 (hcenter.symm.trans hj)
    exact ⟨hsized, (start_even_iff hsized hk).1 hstart, hp⟩
  · rintro ⟨hsized, haligned, hp⟩
    exact ⟨hsized, k, hcenter, fun _ => (checkParity_eq_ok hsized.bullets.1).2 haligned,
      (start_even_iff hsized hk).2 haligned, hp⟩

theorem checkParity_ne_fractionalStart (x : Float) :
    a.checkParity k ≠ .error (.fractionalStart x) := by
  rw [checkParity]
  repeat' split
  all_goals simp

/-- The rules about parities leave no fraction at the start. -/
theorem place_ne_fractionalStart {x : Float} (hany : a.anyParity = false)
    (hcenter : halves? a.center = some k) (hk : k.natAbs ≤ 2 ^ 52) :
    a.place ≠ .error (.fractionalStart x) := by
  intro h
  simp only [place, Except.guard_eq_error, not_not, hcenter, hany, Bool.false_eq_true,
    not_false_eq_true, if_true, Except.bind_eq_error] at h
  simp only [reduceCtorEq, and_false, false_or] at h
  obtain ⟨hspacing, hbullets, hwidth, hparity | ⟨⟨⟩, hparity, ⟨hstart, -⟩ | ⟨-, hdone⟩⟩⟩ := h
  · exact checkParity_ne_fractionalStart x hparity
  · have hsized : a.Sized := ⟨hspacing, hbullets, Nat.not_lt.1 hwidth⟩
    exact (start_even_iff hsized hk).2 ((checkParity_eq_ok hbullets.1).1 hparity) hstart
  · cases hdone

/-! ## Angles -/

/-- The angles are whole degrees of the circle, one per bullet and all different, at the
spacing of the arc, and they lie evenly on both sides of `k` half degrees. -/
structure Spread (a : Arc) (k : Int) (angles : List Nat) : Prop where
  length : angles.length = a.bullets
  degrees : ∀ d ∈ angles, d < 360
  nodup : angles.Nodup
  step : ∀ i (h : i + 1 < angles.length), angles[i + 1] = (angles[i] + a.spacing) % 360
  centered : ∀ i (h : i < angles.length),
    (angles[i] + angles[angles.length - 1 - i] : Int) ≡ k [ZMOD 360]

@[simp] theorem length_angles_from (a : Arc) (first : Nat) : (a.angles first).length = a.bullets := by
  simp [angles]

theorem length_angles {p : Placed} (h : a.place = .ok p) : p.angles.length = a.bullets := by
  obtain ⟨-, k, -, -, -, rfl⟩ := place_eq_ok.1 h
  exact length_angles_from a _

/-- An arc that can be placed has a bullet. -/
theorem angles_ne_nil {p : Placed} (h : a.place = .ok p) : p.angles ≠ [] := by
  have hbullets := (place_eq_ok.1 h).1.bullets.1
  rw [← length_angles h] at hbullets
  exact List.ne_nil_of_length_pos hbullets

theorem getElem_angles {first i : Nat} (h : i < (a.angles first).length) :
    (a.angles first)[i] = (first + i * a.spacing) % 360 := by
  simp [angles]

theorem lt_of_mem_angles {first d : Nat} (h : d ∈ a.angles first) : d < 360 := by
  obtain ⟨i, -, rfl⟩ := List.mem_map.1 h
  exact Nat.mod_lt _ (by omega)

/-- Bullets that fit on the circle do not meet. -/
theorem nodup_angles (h : a.Sized) (first : Nat) : (a.angles first).Nodup := by
  have hpos : 0 < a.spacing := h.spacing.1
  have hlt : ∀ i ∈ List.range a.bullets, i * a.spacing < 360 := by
    intro i hi
    have := Nat.mul_lt_mul_of_pos_right (List.mem_range.1 hi) hpos
    have := h.width
    omega
  refine List.nodup_range.map_on ?_
  intro i hi j hj heq
  have hsame : i * a.spacing ≡ j * a.spacing [MOD 360] := Nat.ModEq.add_left_cancel' first heq
  exact Nat.eq_of_mul_eq_mul_right hpos (hsame.eq_of_lt_of_lt (hlt i hi) (hlt j hj))

/-- The bullets of an arc are spread around its center. -/
theorem spread_angles (h : a.Sized) (haligned : a.Aligned k) (hk : k.natAbs ≤ 2 ^ 52) :
    a.Spread k (a.angles (a.start k / 2)) where
  length := length_angles_from a _
  degrees := fun _ => lt_of_mem_angles
  nodup := nodup_angles h _
  step := by
    intro i hi
    rw [getElem_angles, getElem_angles, Nat.mod_add_mod, Nat.add_mul, Nat.one_mul, Nat.add_assoc]
  centered := by
    intro i hi
    have hstart := cast_start h hk
    have heven := (start_even_iff h hk).2 haligned
    rw [length_angles_from] at hi
    -- The two bullets are as far from the two ends.
    have hsum : i * a.spacing + (a.bullets - 1 - i) * a.spacing = a.reach := by
      rw [← Nat.add_mul, reach, Nat.add_sub_cancel' (by omega)]
    simp only [getElem_angles, length_angles_from]
    rw [Int.ModEq]
    omega

end Arc

/-! ## Anchors -/

namespace Circle

/-- The anchors begin at degree 1 and end at degree 360, which is degree 0. -/
theorem anchor_eq (c : Circle) (d : Nat) : c.anchor d = c.pointer + (d + 359) % 360 := by
  have hturn (p : Nat) :
      p + (if d % 360 = 0 then 360 else d % 360) - 1 = p + (d + 359) % 360 := by
    split <;> omega
  exact hturn c.pointer

theorem anchor_bounds (c : Circle) (d : Nat) :
    c.pointer ≤ c.anchor d ∧ c.anchor d < c.pointer + 360 := by
  rw [anchor_eq]
  exact ⟨Nat.le_add_right _ _, Nat.add_lt_add_left (Nat.mod_lt _ (by omega)) _⟩

/-- Every whole degree has an anchor of its own. -/
theorem anchor_inj (c : Circle) {d e : Nat} (hd : d < 360) (he : e < 360)
    (h : c.anchor d = c.anchor e) : d = e := by
  rw [anchor_eq, anchor_eq] at h
  have := Nat.add_left_cancel h
  omega

theorem nodup_map_anchor (c : Circle) {angles : List Nat} (hlt : ∀ d ∈ angles, d < 360)
    (h : angles.Nodup) : (angles.map c.anchor).Nodup :=
  h.map_on fun d hd e he => c.anchor_inj (hlt d hd) (hlt e he)

/-- The anchor at a degree, in 32 bits.  There is none if the sum of the pointer and the turn
has more. -/
def anchor? (c : Circle) (degree : Nat) : Option Group :=
  let turn := degree % 360
  let sum := c.pointer + (if turn = 0 then 360 else turn)
  if sum ≤ Group.greatest then some (sum - 1) else none

/-- The greatest group is no anchor, since the sum is one more. -/
theorem anchor?_eq (c : Circle) (d : Nat) :
    c.anchor? d = Option.guard (fun g => g < Group.greatest) (c.anchor d) := by
  let turn := if d % 360 = 0 then 360 else d % 360
  have hturn : 1 ≤ turn := by grind
  have hpos : 1 ≤ c.pointer + turn := Nat.le_trans hturn (Nat.le_add_left _ _)
  have hsum : c.pointer + turn ≤ Group.greatest ↔ c.anchor d < Group.greatest :=
    Nat.lt_succ_iff.symm.trans (Nat.sub_lt_iff_lt_add hpos).symm
  exact if_congr (hsum.trans decide_eq_true_iff.symm) rfl rfl

example : Circle.anchor? ⟨0, 0, 4294967290⟩ 5 = some 4294967294 ∧
    Circle.anchor? ⟨0, 0, 4294967290⟩ 6 = none := by decide

theorem filterMap_anchor? (c : Circle) (angles : List Nat) :
    angles.filterMap c.anchor? = (angles.map c.anchor).filter (· < Group.greatest) := by
  rw [← List.filterMap_eq_filter, List.filterMap_map]
  exact List.filterMap_congr fun d _ => c.anchor?_eq d

end Circle

end Barrage
