import Mathlib
import Barrage.Proofs.Document
import Barrage.Proofs.Number.Units

/-!
# Chains of records

A chain of records is shifted so that its least record comes to the landing place that
was drawn.  The places along the schedule are not negative, but they may be infinite.
There are two cases (`least_cases`).  If all places are infinite, so is the least one,
and the shifted places are NaN.  Otherwise the least place is finite.  Then neither the
shift nor a shifted place is NaN, and places are shifted in their order.
-/

namespace Barrage

open Number

/-! ## Numbers that are drawn -/

theorem Area.fault?_eq_none {area : Area} : area.fault? = none ↔
    area.minX < area.maxX ∧ area.minY < area.maxY ∧ 0 ≤ area.minX ∧ 0 ≤ area.minY := by
  unfold fault?
  split
  · simp only [reduceCtorEq, false_iff]
    omega
  · split
    · simp only [reduceCtorEq, false_iff]
      omega
    · simp only [true_iff]
      omega

theorem Generator.between_spec (lo hi : Int) (g : Generator) :
    lo ≤ (g.between lo hi).1 ∧ (g.between lo hi).1 ≤ max lo hi := by
  unfold between
  split
  · exact ⟨le_rfl, le_max_left _ _⟩
  next h =>
    have hlow := Int.emod_nonneg (g.next.1 : Int) (show hi - lo + 1 ≠ 0 by omega)
    have hhigh := Int.emod_lt_of_pos (g.next.1 : Int) (show 0 < hi - lo + 1 by omega)
    dsimp only
    omega

namespace Number

variable {x y : Float}

theorem units_one : units 1.0 = one := units_of_unpack (e := 0) (by decide) rfl

/-- Units from the horizon on are infinite. -/
theorem units_of_horizon_le (h : horizon ≤ units x) : units x = 2 * horizon := by
  rw [← bounded_nearest_of_le h]
  exact (proper_unpack x).bounded_nearest.symm

/-- The units of a finite float have 53 bits. -/
theorem nearest_units (h : (units x).natAbs < horizon) : nearest (units x) = units x := by
  have hexact := (proper_unpack x).bounded_nearest
  change bounded (nearest (units x)) = units x at hexact
  rw [bounded] at hexact
  split at hexact
  · omega
  · split at hexact
    · omega
    · exact hexact

theorem units_ofInt_nonneg {n : Int} (h : 0 ≤ n) : 0 ≤ units (Float.ofInt n) := by
  rw [(units_ofInt n).2, ← bounded_zero]
  exact bounded_mono (nearest_nonneg (Int.mul_nonneg h (Int.natCast_nonneg _)))

/-- An infinite place stays infinite under a shift that is not `-∞`. -/
theorem not_isNaN_add (hx : 0.0 ≤ x) (hy : ¬ y.isNaN) (hlow : -horizon < units y) :
    ¬ (x + y).isNaN := by
  obtain ⟨hnan, hpos⟩ := units_nonneg hx
  rw [isNaN_add_iff hnan hy]
  omega

theorem units_add_mono {s : Float} (h : units x ≤ units y) (hx : ¬ (x + s).isNaN)
    (hy : ¬ (y + s).isNaN) : units (x + s) ≤ units (y + s) := by
  rw [units_add hx, units_add hy]
  exact bounded_mono (nearest_mono (by omega))

end Number

namespace Placement

/-! ## The least and the greatest place -/

/-- What a search for a smallest key finds, from a first candidate on. -/
theorem foldl_spec (better : Float → Float → Prop) [DecidableRel better] (key : Float → Int)
    (hbetter : ∀ {x y}, ¬ x.isNaN → ¬ y.isNaN → (better x y ↔ key x < key y)) {xs : List Float}
    {a : Float} (ha : ¬ a.isNaN) (hxs : ∀ x ∈ xs, ¬ x.isNaN) :
    let b := xs.foldl (fun a x => if better x a then x else a) a
    ¬ b.isNaN ∧ key b ≤ key a ∧ (∀ x ∈ xs, key b ≤ key x) ∧ (b ∈ xs ∨ b = a) := by
  induction xs generalizing a with
  | nil => exact ⟨ha, le_rfl, by simp, Or.inr rfl⟩
  | cons x xs ih =>
      obtain ⟨hx, hxs⟩ := List.forall_mem_cons.1 hxs
      simp only [List.foldl_cons]
      split
      next h =>
        rw [hbetter hx ha] at h
        obtain ⟨hnan, hle, hall, hmem⟩ := ih hx hxs
        exact ⟨hnan, hle.trans h.le, List.forall_mem_cons.2 ⟨hle, hall⟩,
          Or.inl (List.mem_cons.2 hmem.symm)⟩
      next h =>
        rw [hbetter hx ha] at h
        obtain ⟨hnan, hle, hall, hmem⟩ := ih ha hxs
        exact ⟨hnan, hle, List.forall_mem_cons.2 ⟨hle.trans (by omega), hall⟩,
          hmem.imp_left (List.mem_cons_of_mem x)⟩

section Extremes

variable {xs : List Float}

theorem least_spec (h : ∀ x ∈ xs, ¬ x.isNaN) :
    ¬ (least xs).isNaN ∧ (∀ x ∈ xs, units (least xs) ≤ units x) ∧
      (least xs ∈ xs ∨ least xs = 1.0 / 0.0) := by
  obtain ⟨hnan, -, hle, hmem⟩ := foldl_spec (fun x y => x < y) units
    (fun hx hy => lt_iff_units hx hy) (a := 1.0 / 0.0) (by decide) h
  exact ⟨hnan, hle, hmem⟩

theorem greatest_spec (h : ∀ x ∈ xs, ¬ x.isNaN) :
    ¬ (greatest xs).isNaN ∧ (∀ x ∈ xs, units x ≤ units (greatest xs)) ∧
      (greatest xs ∈ xs ∨ greatest xs = -1.0 / 0.0) := by
  obtain ⟨hnan, -, hle, hmem⟩ := foldl_spec (fun x y => y < x) (fun x => -units x)
    (fun hx hy => by rw [lt_iff_units hy hx]; omega) (a := -1.0 / 0.0) (by decide) h
  exact ⟨hnan, fun x hx => neg_le_neg_iff.1 (hle x hx), hmem⟩

/-- All places are infinite, or the least one is finite. -/
theorem least_cases (h : ∀ x ∈ xs, 0.0 ≤ x) :
    (∀ x ∈ xs, units x = 2 * horizon) ∨
      (least xs ∈ xs ∧ 0 ≤ units (least xs) ∧ units (least xs) < horizon) := by
  obtain ⟨hnan, hle, hmem⟩ := least_spec fun x hx => (units_nonneg (h x hx)).1
  rcases lt_or_ge (units (least xs)) horizon with hlt | hge
  · have hin : least xs ∈ xs := by
      refine hmem.resolve_right fun hinf => ?_
      have htop : units (1.0 / 0.0) = 2 * horizon := rfl
      rw [hinf, htop] at hlt
      omega
    exact Or.inr ⟨hin, (units_nonneg (h _ hin)).2, hlt⟩
  · exact Or.inl fun x hx => units_of_horizon_le (hge.trans (hle x hx))

/-- A chain with a finite place gets a shift. -/
theorem shift_spec {least : Float} {landing : Int} (hlanding : 0 ≤ landing) (hnan : ¬ least.isNaN)
    (hpos : 0 ≤ units least) (hlt : units least < horizon) :
    ¬ (Float.ofInt landing - least).isNaN ∧ -horizon < units (Float.ofInt landing - least) := by
  obtain ⟨hnan', -⟩ := units_ofInt landing
  have hpos' := units_ofInt_nonneg hlanding
  have hshift : ¬ (Float.ofInt landing - least).isNaN := by
    rw [isNaN_sub_iff hnan' hnan]
    omega
  refine ⟨hshift, ?_⟩
  have hexact : nearest (-units least) = -units least := by
    rw [nearest_neg, nearest_units (by omega)]
  have hmono := bounded_mono
    (nearest_mono (show -units least ≤ units (Float.ofInt landing) - units least by omega))
  rw [hexact, bounded_of_lt (by omega)] at hmono
  rw [units_sub hshift]
  omega

end Extremes

end Placement

end Barrage
