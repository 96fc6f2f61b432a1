import Mathlib
import Barrage.Proofs.Document.Chain
import Barrage.Proofs.Moment
import Barrage.Proofs.Number.Moderate

/-!
# Where records are placed

Across the level every record is placed in the area.  Along the level this depends on
the way in which the places of a component are drawn.

* A single record is placed in the area.
* Simultaneous records are scattered over even numbers.  The first of them is not in the
  area if the left edge is odd.
* A chain that must keep its order starts in the area.  It was found not to be wider
  than the area, but the sums are rounded, so its last record may be past the right edge
  by half a unit.
* All other records follow each other from the left edge in steps from 1 to 10, and
  nothing stops them at the right edge.  They fit if ten units for each step do.  If not
  even one unit for each step does, some record is past the edge.

Places are compared by their units.  Everything up to `2 ^ 53` is a number of moderate
size, where rounding is known.
-/

namespace Barrage

open Number

/-! ## Integers that are drawn -/

theorem Generator.mem_betweens {lo hi k : Int} {n : Nat} {g : Generator}
    (h : k ∈ (g.betweens lo hi n).1) : lo ≤ k ∧ k ≤ max lo hi := by
  induction n generalizing g with
  | zero => cases h
  | succ n ih =>
      rcases List.mem_cons.1 h with rfl | h
      · exact g.between_spec lo hi
      · exact ih h

theorem Number.units_ofInt_mono {m n : Int} (h : m ≤ n) :
    units (Float.ofInt m) ≤ units (Float.ofInt n) := by
  rw [(units_ofInt m).2, (units_ofInt n).2]
  exact bounded_mono (nearest_mono (Int.mul_le_mul_of_nonneg_right h (Int.natCast_nonneg _)))

theorem Number.ofInt_le_ofInt {m n : Int} (h : m ≤ n) : Float.ofInt m ≤ Float.ofInt n :=
  (le_iff_units (units_ofInt m).1 (units_ofInt n).1).2 (units_ofInt_mono h)

theorem Number.zero_le_ofInt {n : Int} (h : 0 ≤ n) : 0.0 ≤ Float.ofInt n := by
  rw [le_iff_units (by decide) (units_ofInt n).1, units_zero]
  exact units_ofInt_nonneg h

namespace Placement

theorem scatter_spec {area : Area} {n : Nat} {g : Generator} {y : Float} (hmin : 0 ≤ area.minX)
    (hmax : area.minX < area.maxX) (hy : y ∈ (scatter area n g).1) :
    Float.ofInt (2 * (area.minX / 2)) ≤ y ∧ y ≤ Float.ofInt area.maxX := by
  obtain ⟨k, hk, rfl⟩ := List.mem_map.1 hy
  obtain ⟨hlow, hhigh⟩ := Generator.mem_betweens hk
  rw [Int.tdiv_eq_ediv_of_nonneg hmin] at hlow hhigh
  rw [Int.tdiv_eq_ediv_of_nonneg (by omega)] at hhigh
  exact ⟨ofInt_le_ofInt (by omega), ofInt_le_ofInt (by omega)⟩

/-! ## Steps -/

section Walk

variable {x : Float} {steps : List Int} {b : Int}

/-- A step leads to the rounded sum. -/
theorem units_step {step : Int} (hx : 0.0 ≤ x) (hstep : 0 ≤ step) :
    0.0 ≤ x + Float.ofInt step ∧
      units (x + Float.ofInt step) =
        bounded (nearest (units x + units (Float.ofInt step))) := by
  have hnonneg := units_ofInt_nonneg hstep
  have hnan := not_isNaN_add hx (units_ofInt step).1 (by have := horizon_pos; omega)
  exact ⟨add_nonneg hx (zero_le_ofInt hstep), units_add hnan⟩

/-- No place is before the first one. -/
theorem le_walk (hx : 0.0 ≤ x) (hsteps : ∀ s ∈ steps, 0 ≤ s) :
    ∀ y ∈ walk x steps, 0.0 ≤ y ∧ units x ≤ units y := by
  induction steps generalizing x with
  | nil =>
      intro y hy
      cases List.mem_singleton.1 hy
      exact ⟨hx, le_rfl⟩
  | cons step rest ih =>
      obtain ⟨hstep, hrest⟩ := List.forall_mem_cons.1 hsteps
      obtain ⟨hnext, hunits⟩ := units_step hx hstep
      intro y hy
      rcases List.mem_cons.1 hy with rfl | hy
      · exact ⟨hx, le_rfl⟩
      · obtain ⟨hpos, hle⟩ := ih hnext hrest y hy
        have hnonneg := units_ofInt_nonneg hstep
        have hmono := bounded_mono (nearest_mono
          (show units x ≤ units x + units (Float.ofInt step) by omega))
        have hexact : bounded (nearest (units x)) = units x := (proper_unpack x).bounded_nearest
        rw [hexact, ← hunits] at hmono
        exact ⟨hpos, hmono.trans hle⟩

theorem mul_one_le {m n : Int} (h : m ≤ n) : m * one ≤ n * one :=
  Int.mul_le_mul_of_nonneg_right h (Int.natCast_nonneg _)

/-- A step from a place that is not after an integer. -/
theorem units_step_le {step c : Int} (hx : 0.0 ≤ x) (hstep : 0 ≤ step) (hstep' : step ≤ c)
    (hxb : units x ≤ b * one) (hb : 0 ≤ b) (hlimit : b + c ≤ 2 ^ 53) :
    units (x + Float.ofInt step) ≤ (b + c) * one := by
  have hle := mul_one_le hstep'
  rw [(units_step hx hstep).2, (moderate_ofInt (by omega)).2,
    ← bounded_nearest_mul_one (n := b + c) (by omega)]
  exact bounded_mono (nearest_mono (by rw [Int.add_mul]; omega))

/-- A step from a place that is not before an integer. -/
theorem le_units_step {step c : Int} (hx : 0.0 ≤ x) (hstep : 0 ≤ c) (hstep' : c ≤ step)
    (hstep'' : step ≤ 10) (hxb : b * one ≤ units x) (hb : 0 ≤ b) (hlimit : b + c ≤ 2 ^ 53) :
    (b + c) * one ≤ units (x + Float.ofInt step) := by
  have hle := mul_one_le hstep'
  rw [(units_step hx (hstep.trans hstep')).2, (moderate_ofInt (by omega)).2,
    ← bounded_nearest_mul_one (n := b + c) (by omega)]
  exact bounded_mono (nearest_mono (by rw [Int.add_mul]; omega))

/-- Steps of at most ten units do not lead far. -/
theorem walk_le (hx : 0.0 ≤ x) (hsteps : ∀ s ∈ steps, 1 ≤ s ∧ s ≤ 10) (hb : 0 ≤ b)
    (hxb : units x ≤ b * one) (hlimit : b + 10 * steps.length ≤ 2 ^ 53) :
    ∀ y ∈ walk x steps, units y ≤ (b + 10 * steps.length) * one := by
  induction steps generalizing x b with
  | nil =>
      intro y hy
      cases List.mem_singleton.1 hy
      rwa [List.length_nil, Nat.cast_zero, mul_zero, add_zero]
  | cons step rest ih =>
      obtain ⟨hstep, hrest⟩ := List.forall_mem_cons.1 hsteps
      rw [List.length_cons, Nat.cast_succ] at hlimit ⊢
      have hnext := units_step_le hx (by omega) hstep.2 hxb hb (by omega)
      intro y hy
      rcases List.mem_cons.1 hy with rfl | hy
      · exact hxb.trans (mul_one_le (by omega))
      · have hle := ih (units_step hx (by omega)).1 hrest (by omega) hnext (by omega) y hy
        rwa [add_assoc, ← mul_one_add, add_comm 1] at hle

/-- Steps of at least one unit lead on. -/
theorem exists_le_walk (hx : 0.0 ≤ x) (hsteps : ∀ s ∈ steps, 1 ≤ s ∧ s ≤ 10) {j : Nat}
    (hj : j ≤ steps.length) (hb : 0 ≤ b) (hxb : b * one ≤ units x) (hlimit : b + j ≤ 2 ^ 53) :
    ∃ y ∈ walk x steps, (b + j) * one ≤ units y := by
  induction j generalizing x b steps with
  | zero =>
      refine ⟨x, by cases steps <;> exact List.mem_cons_self, ?_⟩
      rwa [Nat.cast_zero, add_zero]
  | succ j ih =>
      cases steps with
      | nil => cases hj
      | cons step rest =>
          obtain ⟨hstep, hrest⟩ := List.forall_mem_cons.1 hsteps
          rw [Nat.cast_succ] at hlimit ⊢
          have hnext := le_units_step (c := 1) hx (by omega) hstep.1 hstep.2 hxb hb (by omega)
          obtain ⟨y, hy, hle⟩ := ih (units_step hx (by omega)).1 hrest (Nat.le_of_succ_le_succ hj)
            (by omega) hnext (by omega)
          rw [add_assoc, add_comm 1] at hle
          exact ⟨y, List.mem_cons_of_mem _ hy, hle⟩

end Walk

/-! ## Chains -/

section Rigid

variable {l h x left right landing : Int}

/-- Rounding a number up to `2 ^ 50` moves it by an eighth of a unit at most. -/
theorem nearest_error_le {n : Int} (h : n.natAbs ≤ 2 ^ 50 * one) :
    8 * (nearest n - n).natAbs ≤ one := by
  have := nearest_error n
  omega

/-- A chain from `l` to `h` that was not found wider than the area ends not more than a
quarter of a unit past the right edge. -/
theorem landing_spec (hl : 0 ≤ l) (hlh : l ≤ h) (hh : h ≤ 2 ^ 50 * one) (hleft : 0 ≤ left)
    (hright : right ≤ 2 ^ 50) (hedges : left ≤ right)
    (hfits : nearest (h - l) ≤ (right - left) * one)
    (hlanding : landing * one ≤ max (left * one) (nearest (right * one - nearest (h - l)))) :
    landing ≤ right ∧ 4 * (landing * one + (h - l)) ≤ 4 * (right * one) + one := by
  have hwidth := nearest_error_le (n := h - l) (by omega)
  have hpos := nearest_nonneg (n := h - l) (by omega)
  have hrightUnits := mul_one_le hright
  have hleftUnits := mul_one_le hleft
  rw [Int.sub_mul] at hfits
  have hroom := nearest_error_le (n := right * one - nearest (h - l)) (by omega)
  have hroomLe : nearest (right * one - nearest (h - l)) ≤ right * one :=
    (nearest_mono (by omega)).trans_eq (nearest_mul_one (by omega))
  have hedgeUnits := mul_one_le hedges
  refine ⟨?_, by omega⟩
  exact Int.le_of_mul_le_mul_right (show landing * one ≤ right * one by omega)
    (by exact_mod_cast one_pos)

/-- Where a record of a chain comes to lie. -/
theorem shifted_spec (hl : 0 ≤ l) (hexact : nearest l = l) (hlx : l ≤ x) (hxh : x ≤ h)
    (hh : h ≤ 2 ^ 50 * one) (hlanding : 0 ≤ landing) (hlanding' : landing ≤ right)
    (hright : right ≤ 2 ^ 50)
    (hend : 4 * (landing * one + (h - l)) ≤ 4 * (right * one) + one) :
    landing * one ≤ nearest (x + nearest (landing * one - l)) ∧
      nearest (x + nearest (landing * one - l)) ≤ (2 * right + 1) * half := by
  have hone := one_pos
  have hstart := mul_one_le hlanding
  have hlandingUnits := mul_one_le (hlanding'.trans hright)
  constructor
  · obtain ⟨k, hk⟩ := exists_one_eq
    have hpow (j : Nat) : (2 : Int) ^ (j + k) = 2 ^ j * one := by
      rw [hk, Int.pow_add, Nat.cast_pow, Nat.cast_ofNat]
    have hback : nearest (l + nearest (landing * one - l)) = landing * one := by
      refine nearest_add_nearest_sub (k := k) hl ?_ hexact (by omega) ?_ ?_
      · rw [hpow]
        omega
      · rw [hk, Nat.cast_pow, Nat.cast_ofNat]
        exact Int.dvd_mul_left _ _
      · rw [hpow]
        omega
    exact hback.symm.trans_le (nearest_mono (by omega))
  · have hshift := nearest_error_le (n := landing * one - l) (by omega)
    have hhalf : (2 * right + 1) * (half : Int) = right * one + half := by
      rw [one_eq_two_mul_half, Nat.cast_mul]
      ring
    have hhalf' := one_eq_two_mul_half
    rw [← nearest_mul_half (n := 2 * right + 1) (by omega)]
    exact nearest_mono (by omega)

end Rigid

/-- Places from the start up to `2 ^ 50`. -/
def Near (x : Float) : Prop := 0.0 ≤ x ∧ x ≤ Float.ofInt (2 ^ 50)

section Near

variable {xs : List Float} {x : Float}

theorem Near.spec (h : Near x) : Moderate x ∧ 0 ≤ units x ∧ units x ≤ 2 ^ 50 * one := by
  obtain ⟨hnan, hpos⟩ := units_nonneg h.1
  have hle := h.2
  rw [le_iff_units hnan (units_ofInt _).1, (moderate_ofInt (by decide)).2] at hle
  refine ⟨⟨hnan, ?_⟩, hpos, hle⟩
  rw [limit]
  omega

/-- The ends of a chain are two of its places. -/
theorem ends_mem (hne : xs ≠ []) (hxs : ∀ x ∈ xs, Near x) : least xs ∈ xs ∧ greatest xs ∈ xs := by
  obtain ⟨x, hx⟩ := List.exists_mem_of_ne_nil xs hne
  obtain ⟨hmoderate, hpos, -⟩ := (hxs x hx).spec
  have hlt := hmoderate.le.trans_lt limit_lt_horizon
  constructor
  · refine ((least_cases fun x hx => (hxs x hx).1).resolve_left fun hinfinite => ?_).1
    have := hinfinite x hx
    omega
  · obtain ⟨-, hle, hmem⟩ := greatest_spec fun x hx => (hxs x hx).spec.1.number
    refine hmem.resolve_right fun hinf => ?_
    have hbottom : units (-1.0 / 0.0) = -(2 * horizon) := rfl
    have := hle x hx
    rw [hinf, hbottom] at this
    omega

/-- The landing place of a chain. -/
theorem landing_of_rigid {area : Area} {g : Generator} (harea : area.fault? = none)
    (hmax : area.maxX ≤ 2 ^ 50) (hne : xs ≠ []) (hxs : ∀ x ∈ xs, Near x)
    (hfits : ¬ area.width < greatest xs - least xs) :
    let landing := (g.between area.minX
      (truncate (Float.ofInt area.maxX - (greatest xs - least xs)))).1
    area.minX ≤ landing ∧ landing ≤ area.maxX ∧
      4 * (landing * one + (units (greatest xs) - units (least xs))) ≤
        4 * (area.maxX * one) + one := by
  obtain ⟨hedges, -, hmin, -⟩ := Area.fault?_eq_none.1 harea
  obtain ⟨hleast, hgreatest⟩ := ends_mem hne hxs
  obtain ⟨hl, hl₀, hl₁⟩ := (hxs _ hleast).spec
  obtain ⟨hh, hh₀, hh₁⟩ := (hxs _ hgreatest).spec
  have hle := (least_spec fun x hx => (hxs x hx).spec.1.number).2.1 _ hgreatest
  have hlimit : limit = 2 ^ 53 * one := rfl
  obtain ⟨hwidth, hwidthUnits⟩ := hh.sub hl (by omega)
  obtain ⟨hmaxFloat, hmaxUnits⟩ := moderate_ofInt (n := area.maxX) (by omega)
  obtain ⟨hareaWidth, hareaUnits⟩ := moderate_ofInt (n := area.maxX - area.minX) (by omega)
  rw [Area.width, lt_iff_units hareaWidth.number hwidth.number, hareaUnits, hwidthUnits,
    Int.not_lt] at hfits
  -- The room that is left for the landing place, rounded.
  have hpos := nearest_nonneg (n := units (greatest xs) - units (least xs)) (by omega)
  have hmaxOne := mul_one_le hmax
  have hminOne := mul_one_le hmin
  have hfits' := hfits
  rw [Int.sub_mul] at hfits'
  obtain ⟨hroom, hroomUnits⟩ := hmaxFloat.sub hwidth (by rw [hmaxUnits, hwidthUnits]; omega)
  rw [hmaxUnits, hwidthUnits] at hroomUnits
  have hroomPos : 0 ≤ units (Float.ofInt area.maxX - (greatest xs - least xs)) := by
    rw [hroomUnits]
    exact nearest_nonneg (by omega)
  have htruncate := hroom.truncate_mul_one_le hroomPos
  obtain ⟨hlow, hhigh⟩ := g.between_spec area.minX
    (truncate (Float.ofInt area.maxX - (greatest xs - least xs)))
  refine ⟨hlow, landing_spec hl₀ hle hh₁ hmin hmax hedges.le hfits ?_⟩
  rw [← hroomUnits]
  rcases le_max_iff.1 hhigh with hleft | hright
  · exact (mul_one_le hleft).trans (le_max_left _ _)
  · exact ((mul_one_le hright).trans htruncate).trans (le_max_right _ _)

/-- Half a unit past the right edge is a float. -/
theorem edge_spec {right : Int} (hright : 0 ≤ right) (hright' : right ≤ 2 ^ 50) :
    ¬ (Float.ofInt right + 0.5).isNaN ∧
      units (Float.ofInt right + 0.5) = (2 * right + 1) * half := by
  have hhalf := one_eq_two_mul_half
  have hlimit : limit = 2 ^ 53 * one := rfl
  have hsum : right * one + (half : Int) = (2 * right + 1) * half := by
    rw [one_eq_two_mul_half, Nat.cast_mul]
    ring
  have hpos := mul_one_le hright
  have hle := mul_one_le hright'
  obtain ⟨hedge, hedgeUnits⟩ := moderate_ofInt (n := right) (by omega)
  obtain ⟨hplus, hplusUnits⟩ := hedge.add (y := 0.5) ⟨by decide, by rw [units_half]; omega⟩
    (by rw [hedgeUnits, units_half]; omega)
  rw [hedgeUnits, units_half, hsum, nearest_mul_half (by omega)] at hplusUnits
  exact ⟨hplus.number, hplusUnits⟩

/-- A chain is placed from the left edge on, and at most half a unit past the right
edge. -/
theorem rigid_spec {name : String} {area : Area} {g g' : Generator} {ys : List Float}
    (harea : area.fault? = none) (hmax : area.maxX ≤ 2 ^ 50) (hne : xs ≠ [])
    (hxs : ∀ x ∈ xs, Near x) (h : rigid name area xs g = .ok (ys, g')) :
    ∀ y ∈ ys, Float.ofInt area.minX ≤ y ∧ y ≤ Float.ofInt area.maxX + 0.5 := by
  obtain ⟨hfits, landing, hlanding, rfl⟩ := rigid_eq_ok.1 h
  obtain ⟨hlow, hhigh, hend⟩ := landing_of_rigid (g := g) harea hmax hne hxs hfits
  rw [hlanding] at hlow hhigh hend
  dsimp only at hlow hhigh hend
  obtain ⟨hedges, -, hmin, -⟩ := Area.fault?_eq_none.1 harea
  obtain ⟨hleast, hgreatest⟩ := ends_mem hne hxs
  have hnumber : ∀ x ∈ xs, ¬ x.isNaN := fun x hx => (hxs x hx).spec.1.number
  obtain ⟨hl, hl₀, hl₁⟩ := (hxs _ hleast).spec
  obtain ⟨-, -, hh₁⟩ := (hxs _ hgreatest).spec
  have hlimit : limit = 2 ^ 53 * one := rfl
  have hlandingOne := mul_one_le (hhigh.trans hmax)
  have hlandingPos := mul_one_le (hmin.trans hlow)
  obtain ⟨hstart, hstartUnits⟩ := moderate_ofInt (n := landing) (by omega)
  obtain ⟨hshift, hshiftUnits⟩ := hstart.sub hl (by rw [hstartUnits]; omega)
  rw [hstartUnits] at hshiftUnits
  have hshiftError := nearest_error_le (n := landing * one - units (least xs)) (by omega)
  intro y hy
  obtain ⟨x, hx, rfl⟩ := List.mem_map.1 hy
  obtain ⟨hxm, hx₀, hx₁⟩ := (hxs x hx).spec
  obtain ⟨hplace, hplaceUnits⟩ := hxm.add hshift (by rw [hshiftUnits]; omega)
  rw [hshiftUnits] at hplaceUnits
  obtain ⟨hleft, hright⟩ := shifted_spec hl₀ hl.nearest_units ((least_spec hnumber).2.1 x hx)
    ((greatest_spec hnumber).2.1 x hx) hh₁ (hmin.trans hlow) hhigh hmax hend
  constructor
  · rw [le_iff_units (units_ofInt _).1 hplace.number, (moderate_ofInt (by omega)).2, hplaceUnits]
    exact (mul_one_le hlow).trans hleft
  · obtain ⟨hedge, hedgeUnits⟩ := edge_spec (by omega) hmax
    rw [le_iff_units hplace.number hedge, hplaceUnits, hedgeUnits]
    exact hright

end Near

/-! ## Steps from the left edge -/

section Elastic

variable {area : Area} {n : Nat} {g : Generator}

theorem elastic_eq (area : Area) (n : Nat) (g : Generator) : ∃ steps : List Int,
    (elastic area n g).1 = walk (Float.ofInt area.minX) steps ∧ steps.length = n - 1 ∧
      ∀ s ∈ steps, 1 ≤ s ∧ s ≤ 10 := by
  refine ⟨(g.betweens 1 10 (n - 1)).1, rfl, g.length_betweens 1 10 (n - 1), fun s hs => ?_⟩
  exact Generator.mem_betweens hs

theorem le_elastic (hmin : 0 ≤ area.minX) {y : Float} (hy : y ∈ (elastic area n g).1) :
    Float.ofInt area.minX ≤ y := by
  obtain ⟨steps, heq, -, hsteps⟩ := elastic_eq area n g
  rw [heq] at hy
  obtain ⟨hpos, hle⟩ := le_walk (zero_le_ofInt hmin)
    (fun s hs => (by have := hsteps s hs; omega)) y hy
  exact (le_iff_units (units_ofInt _).1 (units_nonneg hpos).1).2 hle

/-- Records fit if there are ten units for each step. -/
theorem elastic_le (hmin : 0 ≤ area.minX) (hmax : area.maxX < 2 ^ 53)
    (hfits : 10 * ((n - 1 : Nat) : Int) ≤ area.maxX - area.minX) {y : Float}
    (hy : y ∈ (elastic area n g).1) : y ≤ Float.ofInt area.maxX := by
  obtain ⟨steps, heq, hlength, hsteps⟩ := elastic_eq area n g
  rw [heq] at hy
  have hstart := zero_le_ofInt hmin
  have hnumber := (le_walk hstart (fun s hs => (by have := hsteps s hs; omega)) y hy).1
  have hle := walk_le hstart hsteps hmin (moderate_ofInt (by omega)).2.le
    (by rw [hlength]; omega) y hy
  rw [le_iff_units (units_nonneg hnumber).1 (units_ofInt _).1, (moderate_ofInt (by omega)).2]
  exact hle.trans (mul_one_le (by rw [hlength]; omega))

/-- Some record does not fit if there is not even one unit for each step. -/
theorem exists_lt_elastic (hmin : 0 ≤ area.minX) (hmax : area.maxX < 2 ^ 53)
    (hedges : area.minX < area.maxX) (hlong : area.maxX - area.minX < ((n - 1 : Nat) : Int)) :
    ∃ y ∈ (elastic area n g).1, ¬ y ≤ Float.ofInt area.maxX := by
  obtain ⟨steps, heq, hlength, hsteps⟩ := elastic_eq area n g
  have hstart := zero_le_ofInt hmin
  have hj : area.minX + ((area.maxX - area.minX + 1).toNat : Int) = area.maxX + 1 := by omega
  obtain ⟨y, hy, hle⟩ := exists_le_walk (j := (area.maxX - area.minX + 1).toNat) hstart hsteps
    (by omega) hmin (moderate_ofInt (by omega)).2.ge (by omega)
  refine ⟨y, heq ▸ hy, ?_⟩
  have hnumber := (le_walk hstart (fun s hs => (by have := hsteps s hs; omega)) y hy).1
  have hone := one_pos
  rw [le_iff_units (units_nonneg hnumber).1 (units_ofInt _).1, (moderate_ofInt (by omega)).2]
  rw [hj, Int.add_mul] at hle
  omega

end Elastic

end Placement

/-! ## Documents -/

/-- The record lies in the area. -/
def Area.Holds (area : Area) (r : Record) : Prop :=
  (Float.ofInt area.minX ≤ r.x ∧ r.x ≤ Float.ofInt area.maxX) ∧
    ∃ y, r.y = some y ∧ Float.ofInt area.minY ≤ y ∧ y ≤ Float.ofInt area.maxY

namespace Document

/-- How far the records of a component are in the area.  Steps are exact below `2 ^ 53`,
and a chain is rounded by little up to `2 ^ 50`. -/
structure Placed (area : Area) (c : Component) (part : List Record) : Prop where
  across : ∀ r ∈ part, ∃ y, r.y = some y ∧ Float.ofInt area.minY ≤ y ∧ y ≤ Float.ofInt area.maxY
  single : c.records.length = 1 → ∀ r ∈ part, area.Holds r
  /-- Simultaneous records are in the area if its left edge is even. -/
  scattered : 2 ≤ c.records.length → c.requiresSpawnOrder = false →
    Placement.sameMoment (c.records.map Record.x) →
    ∀ r ∈ part, { area with minX := 2 * (area.minX / 2) }.Holds r
  /-- Records of different moments never go left of the area. They are in it if it has ten
  units for each step, and some are not if it has less than one. -/
  stepping : 2 ≤ c.records.length → c.requiresSpawnOrder = false →
    Placement.sameMoment (c.records.map Record.x) = false →
    (∀ r ∈ part, Float.ofInt area.minX ≤ r.x) ∧
    (area.maxX < 2 ^ 53 → 10 * (c.records.length - 1 : Nat) ≤ area.maxX - area.minX →
      ∀ r ∈ part, area.Holds r) ∧
    (area.maxX < 2 ^ 53 → area.maxX - area.minX < (c.records.length - 1 : Nat) →
      ∃ r ∈ part, ¬ area.Holds r)
  /-- A chain is in the area but for half a unit at the right edge. -/
  chained : 2 ≤ c.records.length → c.requiresSpawnOrder → area.maxX ≤ 2 ^ 50 →
    (∀ r ∈ c.records, r.x ≤ Float.ofInt (2 ^ 50)) →
    ∀ r ∈ part, Float.ofInt area.minX ≤ r.x ∧ r.x ≤ Float.ofInt area.maxX + 0.5

/-- The places of a part along the level are those that were drawn. -/
theorem PartOf.exists_places {config : Config} {area : Area} {c : Component} {part : List Record}
    (h : PartOf config area c part) :
    ∃ g xs g₁, Placement.places c area (c.records.map Record.x) g = .ok (xs, g₁) ∧
      (part.map Record.x).Perm xs ∧ ∀ r ∈ part, ∃ g : Generator,
        r.y = some (Float.ofInt (g.between area.minY area.maxY).1) := by
  obtain ⟨g, xs, g₁, origin, hplaces, hperm, hsettled, -, -⟩ := h.exists_origin
  have hlength : xs.length ≤ c.records.length :=
    Nat.le_of_eq (by rw [Placement.length_of_places hplaces, List.length_map])
  refine ⟨g, xs, g₁, hplaces, ?_, ?_⟩
  · have hsame : origin.map Prod.snd = part.map Record.x := by
      refine List.forall₂_eq_eq_eq ▸ List.forall₂_map_left_iff.2 (List.forall₂_map_right_iff.2 ?_)
      refine hsettled.imp fun o r hr => ?_
      obtain ⟨_, rfl⟩ := hr
      rfl
    rw [← hsame, ← List.map_snd_zip hlength]
    exact hperm.map Prod.snd
  · refine ((List.forall₂_and_left _ _).1 (hsettled.flip.imp fun r o hr => ⟨?_, hr⟩)).1
    obtain ⟨g', rfl⟩ := hr
    exact ⟨g', rfl⟩

theorem PartOf.placed {config : Config} {area : Area} {c : Component} {part : List Record}
    (h : PartOf config area c part) (harea : area.fault? = none)
    (htimely : ∀ r ∈ c.records, 0.0 ≤ r.x) : Placed area c part := by
  obtain ⟨g, xs, g₁, hplaces, hperm, hy⟩ := h.exists_places
  obtain ⟨hedges, hedges', hmin, hmin'⟩ := Area.fault?_eq_none.1 harea
  have hacross : ∀ r ∈ part, ∃ y, r.y = some y ∧ Float.ofInt area.minY ≤ y ∧
      y ≤ Float.ofInt area.maxY := by
    intro r hr
    obtain ⟨g', hg'⟩ := hy r hr
    obtain ⟨hlow, hhigh⟩ := g'.between_spec area.minY area.maxY
    exact ⟨_, hg', ofInt_le_ofInt hlow, ofInt_le_ofInt (hhigh.trans (max_le hedges'.le le_rfl))⟩
  have hxs : ∀ {r}, r ∈ part → r.x ∈ xs := fun hr => hperm.subset (List.mem_map_of_mem hr)
  rcases Placement.places_eq_ok hplaces with ⟨x₀, x, hsingle, hdraw, rfl⟩ |
    ⟨htwo, ⟨hsame, hfree, hscatter⟩ | ⟨horder, hrigid⟩ | ⟨hfree, hdiffer, helastic⟩⟩
  · have hone : c.records.length = 1 := by simpa using congrArg List.length hsingle
    refine ⟨hacross, fun _ r hr => ⟨?_, hacross r hr⟩, fun htwo => by omega, fun htwo => by omega,
      fun htwo => by omega⟩
    obtain ⟨hlow, hhigh⟩ := g.between_spec area.minX area.maxX
    rw [hdraw] at hlow hhigh
    rw [List.mem_singleton.1 (hxs hr)]
    exact ⟨ofInt_le_ofInt hlow, ofInt_le_ofInt (hhigh.trans (max_le hedges.le le_rfl))⟩
  · rw [List.length_map] at htwo
    refine ⟨hacross, fun hone => by omega, fun _ _ _ r hr => ⟨?_, hacross r hr⟩,
      fun _ _ hdiffer => by simp [hsame] at hdiffer,
      fun _ horder => by simp [hfree] at horder⟩
    have hmem := hxs hr
    rw [← show _ = xs from congrArg Prod.fst hscatter] at hmem
    exact Placement.scatter_spec hmin hedges hmem
  · rw [List.length_map] at htwo
    refine ⟨hacross, fun hone => by omega, fun _ hfree => by simp [hfree] at horder,
      fun _ hfree => by simp [hfree] at horder, fun _ _ hmax hnear r hr => ?_⟩
    refine Placement.rigid_spec harea hmax ?_ ?_ hrigid r.x (hxs hr)
    · exact List.ne_nil_of_length_pos (by rw [List.length_map]; omega)
    · exact List.forall_mem_map.2 fun r hr => ⟨htimely r hr, hnear r hr⟩
  · rw [List.length_map] at htwo helastic
    have hys : (Placement.elastic area c.records.length g).1 = xs := congrArg Prod.fst helastic
    have hleft : ∀ r ∈ part, Float.ofInt area.minX ≤ r.x := fun r hr =>
      Placement.le_elastic hmin (hys ▸ hxs hr)
    refine ⟨hacross, fun hone => by omega,
      fun _ _ hsame => by simp [hdiffer] at hsame, fun _ _ _ => ⟨hleft, ?_, ?_⟩,
      fun _ horder => by simp [hfree] at horder⟩
    · exact fun hmax hfits r hr => ⟨⟨hleft r hr, Placement.elastic_le hmin hmax hfits (hys ▸ hxs hr)⟩,
        hacross r hr⟩
    · intro hmax hlong
      obtain ⟨y, hy, hpast⟩ := Placement.exists_lt_elastic (g := g) hmin hmax hedges hlong
      rw [hys] at hy
      obtain ⟨r, hr, rfl⟩ := List.mem_map.1 (hperm.symm.subset hy)
      exact ⟨r, hr, fun hholds => hpast hholds.1.2⟩

/-- Records of a document are in the area across the level, and along the level as far
as the way in which they are placed keeps them there. -/
theorem ofContext_placed {ctx : Context} {s : ExportSettings} {d : Document} (hctx : Reachable ctx)
    (h : ofContext ctx s = .ok d) :
    ∃ parts, d.records = parts.flatten ∧
      List.Forall₂ (Placed s.area) (occupied ctx.components) parts := by
  obtain ⟨harea, parts, hrecords, hparts⟩ := ofContext_eq_ok h
  have htimely : ∀ c ∈ occupied ctx.components, ∀ r ∈ c.records, 0.0 ≤ r.x := fun c hc =>
    hctx.timely c (List.mem_of_mem_filter hc)
  exact ⟨parts, hrecords, ((List.forall₂_and_left _ _).2 ⟨htimely, hparts⟩).imp
    fun _ _ hpart => hpart.2.placed harea hpart.1⟩

/-- Two switches at different moments are exported although the area is too narrow, and
the second is past its right edge. -/
theorem ofContext_placed_switches :
    ∃ d, ofContext (switches false 0.0 1.0) { area := ⟨0, 0, 1, 1⟩ } = .ok d ∧
      d.records.map Record.x = [0.0, 5.0] ∧
      (∃ r ∈ d.records, ¬ Area.Holds ⟨0, 0, 1, 1⟩ r) ∧
      ∃ parts, d.records = parts.flatten ∧
        List.Forall₂ (Placed ⟨0, 0, 1, 1⟩) (occupied (switches false 0.0 1.0).components) parts := by
  have hcs : (switches false 0.0 1.0).components = [switchBoard false 0.0 1.0] := by decide +kernel
  have hplaces : Placement.places (switchBoard false 0.0 1.0) ⟨0, 0, 1, 1⟩
      [Schedule.distance 0.0, Schedule.distance 1.0] ⟨24301⟩ =
        .ok ([0.0, 5.0], ⟨17261500834634580984⟩) := by
    decide +kernel
  have hbuilt := ofContext_of_pair (s := { area := ⟨0, 0, 1, 1⟩ }) hcs rfl (by decide)
    (by decide +kernel) hplaces (by decide +kernel)
  refine ⟨_, hbuilt, by decide +kernel, ⟨_, List.mem_cons_of_mem _ List.mem_cons_self, ?_⟩,
    ofContext_placed (Reachable.runAll Run.new _) hbuilt⟩
  exact fun hholds => absurd hholds.1.2 (by decide +kernel)

end Document

end Barrage
