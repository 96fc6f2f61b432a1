import Barrage.Proofs.Geometry.Arc
import Barrage.Proofs.Number.Halves

/-!
# Arcs and radials around a given center

The angle at the center is a float.  If it is a multiple of half a degree, it is read
without loss, so an arc is placed exactly where its number of bullets and its spacing
say (`Arc.place_exact`).

A radial is the arc whose center is moved on from the first bullet by half of the reach.
The arc moves it back.  Both moves are exact, and so the first bullet is at the angle
that was given, the others divide the circle from there, and nothing but that angle and
the division matters (`Radial.layout_exact`).
-/

namespace Barrage

open Number (Halves)

namespace Arc

variable {a : Arc} {k : Int}

theorem halves?_center (h : Halves a.center k) (hk : k.natAbs ≤ 2 ^ 52) :
    halves? a.center = some k :=
  h.whole?_mul_two (by omega)

end Arc

namespace Radial

variable {r : Radial} {k : Int} {n s : Nat}

/-! ## Division -/

/-- A number from 1 to 360 that divides the circle. -/
def Factor (n : Nat) : Prop := (1 ≤ n ∧ n ≤ 360) ∧ n ∣ 360

/-- At least one of the numbers is given, each given one divides the circle, and both
together fill it. -/
structure Complete (r : Radial) : Prop where
  given : r.bullets ≠ none ∨ r.spacing ≠ none
  bullets : ∀ n, r.bullets = some n → Factor n
  spacing : ∀ s, r.spacing = some s → Factor s
  product : ∀ n s, r.bullets = some n → r.spacing = some s → n * s = 360

/-- The circle has `n` bullets at spacing `s`, as far as this is given. -/
structure Divides (r : Radial) (n s : Nat) : Prop where
  given : r.bullets ≠ none ∨ r.spacing ≠ none
  bullets : ∀ m, r.bullets = some m → m = n
  spacing : ∀ t, r.spacing = some t → t = s
  full : n * s = 360

theorem factor_of_mul (h : n * s = 360) : Factor n := by
  have hdvd : n ∣ 360 := Dvd.intro s h
  exact ⟨⟨Nat.pos_of_dvd_of_pos hdvd (by omega), Nat.le_of_dvd (by omega) hdvd⟩, hdvd⟩

theorem Factor.mul_div (h : Factor n) : n * (360 / n) = 360 := Nat.mul_div_cancel' h.2

theorem checkCount_eq_ok : checkCount n = .ok () ↔ Factor n := by
  rw [checkCount, Factor, Nat.dvd_iff_mod_eq_zero]
  split <;> simp_all

theorem checkSpacing_eq_ok : checkSpacing s = .ok () ↔ Factor s := by
  rw [checkSpacing, Factor, Nat.dvd_iff_mod_eq_zero]
  split <;> simp_all

theorem division_eq_ok : r.division = .ok (n, s) ↔ r.Divides n s := by
  obtain ⟨bullets, spacing, center⟩ := r
  constructor
  · intro h
    rcases bullets with _ | m <;> rcases spacing with _ | t
    · cases h
    · simp only [division, Except.seq_eq_ok, checkSpacing_eq_ok, Except.pure_eq_ok,
        Prod.mk.injEq] at h
      obtain ⟨hfactor, rfl, rfl⟩ := h
      exact ⟨by simp, by simp, by simp, by rw [Nat.mul_comm, hfactor.mul_div]⟩
    · simp only [division, Except.seq_eq_ok, checkCount_eq_ok, Except.pure_eq_ok,
        Prod.mk.injEq] at h
      obtain ⟨hfactor, rfl, rfl⟩ := h
      exact ⟨by simp, by simp, by simp, hfactor.mul_div⟩
    · simp only [division, Except.seq_eq_ok, checkCount_eq_ok, checkSpacing_eq_ok,
        Except.guard_eq_ok, ne_eq, not_not, Except.pure_eq_ok, Prod.mk.injEq] at h
      obtain ⟨-, -, hfull, rfl, rfl⟩ := h
      exact ⟨by simp, by simp, by simp, hfull⟩
  · rintro ⟨hgiven, hbullets, hspacing, hfull⟩
    have hn := factor_of_mul hfull
    have hs := factor_of_mul ((Nat.mul_comm s n).trans hfull)
    rcases bullets with _ | m <;> rcases spacing with _ | t
    · simp at hgiven
    · obtain rfl := hspacing t rfl
      simp only [division, Except.seq_eq_ok, checkSpacing_eq_ok, Except.pure_eq_ok, Prod.mk.injEq]
      exact ⟨hs, Nat.div_eq_of_eq_mul_left hs.1.1 hfull.symm, trivial⟩
    · obtain rfl := hbullets m rfl
      simp only [division, Except.seq_eq_ok, checkCount_eq_ok, Except.pure_eq_ok, Prod.mk.injEq]
      exact ⟨hn, trivial, Nat.div_eq_of_eq_mul_right hn.1.1 hfull.symm⟩
    · obtain rfl := hbullets m rfl
      obtain rfl := hspacing t rfl
      simp only [division, Except.seq_eq_ok, checkCount_eq_ok, checkSpacing_eq_ok,
        Except.guard_eq_ok, ne_eq, not_not, Except.pure_eq_ok]
      exact ⟨hn, hs, hfull, trivial⟩

theorem Divides.complete (h : r.Divides n s) : r.Complete where
  given := h.given
  bullets m hm := h.bullets m hm ▸ factor_of_mul h.full
  spacing t ht := h.spacing t ht ▸ factor_of_mul ((Nat.mul_comm s n).trans h.full)
  product m t hm ht := by rw [h.bullets m hm, h.spacing t ht, h.full]

theorem Complete.exists_divides (h : r.Complete) : ∃ n s, r.Divides n s := by
  obtain ⟨hgiven, hbullets, hspacing, hproduct⟩ := h
  rcases hb : r.bullets with _ | n
  · rcases ht : r.spacing with _ | s
    · simp [hb, ht] at hgiven
    · have hfull := (hspacing s ht).mul_div
      exact ⟨360 / s, s, hgiven, by simp [hb], by simp [ht], (Nat.mul_comm _ s).trans hfull⟩
  · have hfull := (hbullets n hb).mul_div
    refine ⟨n, 360 / n, hgiven, by simp [hb], fun t ht => ?_, hfull⟩
    exact Nat.eq_of_mul_eq_mul_left (hbullets n hb).1.1 ((hproduct n t hb ht).trans hfull.symm)

/-! ## Layout -/

/-- The arc of `n` bullets at spacing `s` that starts at the center of the radial. -/
def arc (r : Radial) (n s : Nat) : Arc where
  bullets := n
  spacing := s
  center := r.center + Float.ofNat ((n - 1) * s) / 2.0
  anyParity := true

theorem toArc_eq_ok {a : Arc} : r.toArc = .ok a ↔ ∃ n s, r.Divides n s ∧ r.arc n s = a := by
  simp only [toArc, Except.bind_eq_ok, Prod.exists, division_eq_ok, Except.pure_eq_ok]
  rfl

theorem Divides.sized (h : r.Divides n s) : (r.arc n s).Sized where
  spacing := (factor_of_mul ((Nat.mul_comm s n).trans h.full)).1
  bullets := (factor_of_mul h.full).1
  width := h.full.le

/-- The center is moved on by half of the reach. -/
theorem halves_arc_center (h : r.Divides n s) (hcenter : Halves r.center k)
    (hk : k.natAbs ≤ 2 ^ 51) : Halves (r.arc n s).center (k + (r.arc n s).reach) := by
  have hreach := h.sized.reach_lt
  exact hcenter.add (Number.halves_ofInt (k := (r.arc n s).reach) (by omega)) (by omega) (by omega)

theorem arc_aligned_iff : (r.arc n s).Aligned (k + (r.arc n s).reach) ↔ 2 ∣ k := by
  rw [Arc.aligned_iff]
  omega

/-- The arc moves the center back. -/
theorem start_arc (h : r.Divides n s) (hk : k.natAbs ≤ 2 ^ 51) :
    ((r.arc n s).start (k + (r.arc n s).reach) : Int) = k % 720 := by
  have hreach := h.sized.reach_lt
  rw [Arc.cast_start h.sized (by omega), Int.add_sub_cancel]

/-- The degrees of `n` steps of `s` from `c` on. -/
def steps (c : Int) (n s : Nat) : List Nat :=
  (List.range n).map fun i : Nat => ((c + i * s) % 360).toNat

@[simp] theorem length_steps {c : Int} : (steps c n s).length = n := by simp [steps]

theorem cast_getElem_steps {c : Int} {i : Nat} (h : i < (steps c n s).length) :
    ((steps c n s)[i] : Int) = (c + i * s) % 360 := by
  simp only [steps, List.getElem_map, List.getElem_range]
  exact Int.toNat_of_nonneg (Int.emod_nonneg _ (by omega))

theorem angles_arc (h : r.Divides n s) (hk : k.natAbs ≤ 2 ^ 51) :
    (r.arc n s).angles ((r.arc n s).start (k + (r.arc n s).reach) / 2) = steps (k / 2) n s := by
  have hstart := start_arc h hk
  refine List.map_congr_left fun i _ => ?_
  change (_ + i * s) % 360 = _
  rw [← Nat.cast_mul]
  omega

/-- Steps that fill the circle reach every degree of a residue class. -/
theorem mem_steps_iff {c : Int} {d : Nat} (h : n * s = 360) :
    d ∈ steps c n s ↔ d < 360 ∧ (d : Int) ≡ c [ZMOD s] := by
  have hcast : (n * s : Int) = 360 := by exact_mod_cast h
  have hn := (factor_of_mul h).1.1
  have hdegree (x : Int) : (((x % 360).toNat : Nat) : Int) = x % 360 :=
    Int.toNat_of_nonneg (Int.emod_nonneg x (by omega))
  rw [steps, List.mem_map]
  constructor
  · rintro ⟨i, -, rfl⟩
    rw [hdegree]
    have hturn : (c + i * s) % 360 ≡ c + i * s [ZMOD s] :=
      (Int.mod_modEq _ _).of_dvd (Dvd.intro_left (n : Int) hcast)
    have hstep : c + i * s ≡ c [ZMOD s] := by
      rw [Int.mul_comm]
      exact Int.modEq_add_fac_self
    exact ⟨by omega, hturn.trans hstep⟩
  · rintro ⟨hd, hmod⟩
    obtain ⟨t, ht⟩ := hmod.symm.dvd
    -- The number of steps is taken modulo the bullets, which is a number of turns.
    have hturns : c + (t % n) * s = d - 360 * (t / n) := by
      rw [Int.emod_def]
      linear_combination -ht - (t / n) * hcast
    have hsteps : (((t % n).toNat : Nat) : Int) = t % n :=
      Int.toNat_of_nonneg (Int.emod_nonneg t (by omega))
    refine ⟨(t % n).toNat, ?_, ?_⟩
    · have := Int.emod_lt_of_pos t (b := n) (by omega)
      rw [List.mem_range]
      omega
    · rw [hsteps, hturns]
      omega

/-- The arc of a radial begins at the center of the radial, if that is a whole degree. -/
theorem place_arc_eq_ok {p : Arc.Placed} (h : r.Divides n s) (hcenter : Halves r.center k)
    (hk : k.natAbs ≤ 2 ^ 51) :
    (r.arc n s).place = .ok p ↔ 2 ∣ k ∧ ⟨steps (k / 2) n s, true⟩ = p := by
  have hreach := h.sized.reach_lt
  have hhalves := Arc.halves?_center (halves_arc_center h hcenter hk) (by omega)
  have hplaced : (r.arc n s).placed (k + (r.arc n s).reach) = ⟨steps (k / 2) n s, true⟩ := by
    rw [Arc.placed, angles_arc h hk]
    exact congrArg (Arc.Placed.mk _) (decide_eq_true h.full)
  rw [Arc.place_eq_ok_iff_aligned hhalves (by omega), arc_aligned_iff, hplaced]
  exact and_iff_right h.sized

theorem layout_eq_ok {p : Arc.Placed} (hcenter : Halves r.center k) (hk : k.natAbs ≤ 2 ^ 51) :
    (r.toArc >>= Arc.place) = .ok p ↔
      ∃ n s, r.Divides n s ∧ 2 ∣ k ∧ ⟨steps (k / 2) n s, true⟩ = p := by
  simp only [Except.bind_eq_ok, toArc_eq_ok]
  constructor
  · rintro ⟨_, ⟨n, s, h, rfl⟩, hp⟩
    exact ⟨n, s, h, (place_arc_eq_ok h hcenter hk).1 hp⟩
  · rintro ⟨n, s, h, hp⟩
    exact ⟨_, ⟨n, s, h, rfl⟩, (place_arc_eq_ok h hcenter hk).2 hp⟩

/-- The number of bullets, the spacing, or both may be given. -/
theorem toArc_of_full (r : Radial) (h : n * s = 360) {bullets spacing : Option Nat}
    (hgiven : bullets ≠ none ∨ spacing ≠ none) (hbullets : ∀ m, bullets = some m → m = n)
    (hspacing : ∀ t, spacing = some t → t = s) :
    { r with bullets, spacing }.toArc = .ok (r.arc n s) :=
  toArc_eq_ok.2 ⟨n, s, ⟨hgiven, hbullets, hspacing, h⟩, rfl⟩

/-- A radial has a layout if its numbers divide the circle and it begins at a whole
degree.  Its bullets go round the circle from there and are at all the degrees that are
whole spacings away.  One of the two numbers says as much as both. -/
theorem layout_exact (hcenter : Halves r.center k) (hk : k.natAbs ≤ 2 ^ 40) :
    ((∃ p, (r.toArc >>= Arc.place) = .ok p) ↔ r.Complete ∧ 2 ∣ k) ∧
      (∀ p, (r.toArc >>= Arc.place) = .ok p →
        p.closes ∧ ∃ n s, r.Divides n s ∧ p.angles.length = n ∧
          (∀ i (h : i < p.angles.length), (p.angles[i] : Int) = (k / 2 + i * s) % 360) ∧
          p.angles.Nodup ∧ ∀ d, d ∈ p.angles ↔ d < 360 ∧ (d : Int) ≡ k / 2 [ZMOD s]) ∧
      ∀ n s, n * s = 360 →
        let layout (bullets spacing : Option Nat) :=
          { r with bullets, spacing }.toArc >>= Arc.place
        layout (some n) none = layout (some n) (some s) ∧
          layout none (some s) = layout (some n) (some s) := by
  have hk' : k.natAbs ≤ 2 ^ 51 := by omega
  refine ⟨?_, ?_, ?_⟩
  · simp only [layout_eq_ok hcenter hk']
    constructor
    · rintro ⟨p, n, s, h, heven, -⟩
      exact ⟨h.complete, heven⟩
    · rintro ⟨hcomplete, heven⟩
      obtain ⟨n, s, h⟩ := hcomplete.exists_divides
      exact ⟨_, n, s, h, heven, rfl⟩
  · intro p hp
    obtain ⟨n, s, h, heven, rfl⟩ := (layout_eq_ok hcenter hk').1 hp
    refine ⟨rfl, n, s, h, length_steps, ?_, ?_, fun d => mem_steps_iff h.full⟩
    · intro i hi
      exact cast_getElem_steps hi
    · change (steps (k / 2) n s).Nodup
      rw [← angles_arc h hk']
      exact Arc.nodup_angles h.sized _
  · intro n s h
    simp [toArc_of_full r h]

/-- Far below zero, a spacing alone gives the degrees of its residue class. -/
theorem layout_exact_spacing :
    ∃ r : Radial, Halves r.center (-(2 ^ 40)) ∧ r.bullets = none ∧ r.spacing = some 45 ∧
      ∃ p, (r.toArc >>= Arc.place) = .ok p ∧ p.angles.Nodup ∧
        ∀ d, d ∈ p.angles ↔ d < 360 ∧ (d : Int) ≡ -(2 ^ 39) [ZMOD 45] := by
  have hcenter : Halves (Float.ofInt (-(2 ^ 40)) / 2.0) (-(2 ^ 40)) :=
    Number.halves_ofInt (by decide)
  let r : Radial := ⟨none, some 45, Float.ofInt (-(2 ^ 40)) / 2.0⟩
  have hcomplete : r.Complete := by
    refine ⟨.inr (by simp [r]), by simp [r], fun s hs => ?_, by simp [r]⟩
    obtain rfl : 45 = s := Option.some_inj.1 hs
    exact ⟨by decide, by decide⟩
  obtain ⟨hlayout, hangles, -⟩ := layout_exact (r := r) hcenter (by decide)
  obtain ⟨p, hp⟩ := hlayout.2 ⟨hcomplete, by decide⟩
  obtain ⟨-, n, s, h, -, -, hnodup, hmem⟩ := hangles p hp
  obtain rfl := h.spacing 45 rfl
  exact ⟨r, hcenter, rfl, rfl, p, hp, hnodup, hmem⟩

end Radial

end Barrage
