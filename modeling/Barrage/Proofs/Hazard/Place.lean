import Mathlib
import Barrage.Proofs.Call
import Barrage.Proofs.Hazard

/-!
# Places that compare as equal

The check takes spawns as simultaneous when their places have the same bits.  Places
that compare as equal have the same bits, with one exception: the two zeros do not.  So
two plain spawns of one group at equal places are refused, unless one of them is at
`0.0` and the other one at `-0.0` and no third one is at a zero (`check_of_equal_places`).

A time of `-0.0` is not negative and its place is `-0.0`, so the exception does occur
(`check_of_equal_places_zeros`).
-/

namespace Barrage.Hazard

variable {cs : List Component} {c : Component} {g : Group} {i j : Nat} {r s : Record}

/-- The record spawns the group at once and as it is. -/
def PlainTo (g : Group) (r : Record) : Prop :=
  r.isSpawn ∧ r.effect.delay == 0.0 ∧ r.effect.remap? = none ∧ r.effect.target? = some g

instance : Decidable (PlainTo g r) := inferInstanceAs (Decidable (_ ∧ _))

theorem PlainTo.plainAt (h : PlainTo g r) : PlainAt (placeBits r, g) r :=
  ⟨h.1, h.2.1, h.2.2.1, rfl, h.2.2.2⟩

/-- Elements at two positions are counted twice. -/
theorem two_le_countP {α : Type} {p : α → Bool} {l : List α} {a b : α} (hij : i < j)
    (hi : l[i]? = some a) (hj : l[j]? = some b) (ha : p a) (hb : p b) : 2 ≤ l.countP p := by
  have hfirst : a ∈ l.take j := List.mem_of_getElem? ((List.getElem?_take_of_lt hij).trans hi)
  have hsecond : b ∈ l.drop j := List.mem_of_getElem? (i := 0) (by rwa [List.getElem?_drop])
  have hfirst := List.countP_pos_iff.2 ⟨a, hfirst, ha⟩
  have hsecond := List.countP_pos_iff.2 ⟨b, hsecond, hb⟩
  rw [← List.take_append_drop j l, List.countP_append]
  omega

/-- Two plain spawns of a group from one place are a hazard. -/
theorem error_of_same_place (hc : c ∈ cs) (hordered : c.requiresSpawnOrder)
    (hbearing : Bearing cs g) (hij : i ≠ j) (hr : c.records[i]? = some r)
    (hs : c.records[j]? = some s) (hr' : PlainTo g r) (hs' : PlainTo g s) (hx : r.x = s.x) :
    ∃ e, check cs = .error e := by
  have hbits : placeBits r = placeBits s := congrArg (fun x : Float => x.toBits.toNat) hx
  have hr' := decide_eq_true hr'.plainAt
  have hs' := decide_eq_true (hbits ▸ hs'.plainAt)
  have htwice : 2 ≤ c.records.countP (PlainAt (placeBits r, g) ·) := by
    rcases Nat.lt_or_gt_of_ne hij with hlt | hgt
    · exact two_le_countP hlt hr hs hr' hs'
    · exact two_le_countP hgt hs hr hs' hr'
  obtain ⟨_, _, _, _, -, -, -, herror⟩ := check_of_direct ⟨c, hc, _, hordered, htwice, hbearing⟩
  exact ⟨_, herror⟩

/-- One of the places is the positive zero, and the other one is the negative zero. -/
def OppositeZeros (x y : Float) : Prop := x = 0.0 ∧ y = -0.0 ∨ x = -0.0 ∧ y = 0.0

theorem eq_or_oppositeZeros {x y : Float} (h : x == y) : x = y ∨ OppositeZeros x y :=
  (Float.beq_iff_ne_nan_and_eq.1 h).2.2

/-- A place that compares as equal to zero is one of two opposite zeros. -/
theorem OppositeZeros.eq_of_beq {x y z : Float} (h : OppositeZeros x y) (hz : z == 0.0) :
    x = z ∨ y = z := by
  rcases eq_or_oppositeZeros hz with rfl | ⟨rfl, -⟩ | ⟨rfl, -⟩ <;>
    rcases h with ⟨rfl, rfl⟩ | ⟨rfl, rfl⟩ <;> simp

/-- Two plain spawns of a group that holds a spawn are refused if their places compare as
equal, but for two that are at opposite zeros and are the only ones at a zero. -/
theorem check_of_equal_places (hc : c ∈ cs) (hordered : c.requiresSpawnOrder)
    (hbearing : Bearing cs g) (hij : i ≠ j) (hr : c.records[i]? = some r)
    (hs : c.records[j]? = some s) (hr' : PlainTo g r) (hs' : PlainTo g s) (hx : r.x == s.x) :
    (∃ e, check cs = .error e) ∨
      OppositeZeros r.x s.x ∧
        ∀ k t, c.records[k]? = some t → PlainTo g t → t.x == 0.0 → k = i ∨ k = j := by
  cases hcheck : check cs with
  | error e => exact .inl ⟨e, rfl⟩
  | ok _ =>
      have hpassed : ¬ ∃ e, check cs = .error e := by simp [hcheck]
      have hzeros : OppositeZeros r.x s.x := (eq_or_oppositeZeros hx).resolve_left fun heq =>
        hpassed (error_of_same_place hc hordered hbearing hij hr hs hr' hs' heq)
      refine .inr ⟨hzeros, fun k t ht ht' hzero => ?_⟩
      by_contra! hk
      rcases hzeros.eq_of_beq hzero with heq | heq
      · exact hpassed (error_of_same_place hc hordered hbearing hk.1.symm hr ht hr' ht' heq)
      · exact hpassed (error_of_same_place hc hordered hbearing hk.2.symm hs ht hs' ht' heq)

/-- A group with a spawn is spawned at the times `0.0` and `-0.0`. -/
def zeros : Context :=
  Call.runAll
    [.register "Spawner" 40 none, .edit 0 (.trigger 0.0 (.spawn (.group 41) false .none 0.0)),
      .register "Caller" 36 none, .edit 1 (.spawnOrder true),
      .edit 1 (.trigger 0.0 (.spawn (.group 40) false .none 0.0)),
      .edit 1 (.trigger (-0.0) (.spawn (.group 40) false .none 0.0))]
    (Context.ofConfig {})

/-- At opposite zeros two spawns pass the check. -/
theorem check_of_equal_places_zeros :
    check zeros.components = .ok () ∧ Bearing zeros.components 40 ∧
      ∃ c ∈ zeros.components, c.requiresSpawnOrder ∧
        ∃ r ∈ c.records[0]?, ∃ s ∈ c.records[1]?, PlainTo 40 r ∧ PlainTo 40 s ∧ r.x == s.x ∧
          OppositeZeros r.x s.x := by
  have hcheck : check zeros.components = .ok () := by decide +kernel
  have hbearing : Bearing zeros.components 40 := by decide +kernel
  have hspawns : ∃ c ∈ zeros.components, c.requiresSpawnOrder ∧
      ∃ r ∈ c.records[0]?, ∃ s ∈ c.records[1]?, PlainTo 40 r ∧ PlainTo 40 s ∧ r.x == s.x := by
    decide +kernel
  obtain ⟨c, hc, hordered, r, hr, s, hs, hr', hs', hx⟩ := hspawns
  refine ⟨hcheck, hbearing, c, hc, hordered, r, hr, s, hs, hr', hs', hx, ?_⟩
  rcases check_of_equal_places hc hordered hbearing Nat.zero_ne_one hr hs hr' hs' hx
    with ⟨e, he⟩ | ⟨hzeros, -⟩
  · rw [hcheck] at he
    cases he
  · exact hzeros

end Barrage.Hazard
