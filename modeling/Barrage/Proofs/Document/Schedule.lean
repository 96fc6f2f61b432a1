import Mathlib
import Barrage.Proofs.Document.Chain
import Barrage.Proofs.Moment

/-!
# Chains keep their schedule

The records of a component that must keep their order are shifted as one chain.  All of
them get the same shift, so a record that is later on the schedule is not placed before
an earlier one: a sum of floats is monotone.  It is not strictly monotone.  Two places
that differ on the schedule may be the same after the shift, and then the records stand
in the order in which they were added.

The check of spaces looks at neighbours in the document.  It refuses a gap of less than
one unit, but not the gap zero.  Hence any two records of a chain have the same place on
the schedule, or have been exported to the same place, or follow each other in the order
of the schedule with at least one unit between them (`Document.InStep`).

The argument is one about integers.  A list in which neighbours are `Spaced` is spaced
throughout (`spaced_trans`), and gaps are compared by their units.
-/

namespace Barrage

open Number

/-! ## Gaps -/

namespace Number

/-- The second of two numbers of units is the first, or larger by what is at least one
after rounding. -/
def Spaced (m n : Int) : Prop := m = n ∨ m < n ∧ (one : Int) ≤ bounded (nearest (n - m))

theorem spaced_trans {m n k : Int} (h : Spaced m n) (h' : Spaced n k) : Spaced m k := by
  rcases h with rfl | ⟨hlt, hgap⟩
  · exact h'
  · rcases h' with rfl | ⟨hlt', -⟩
    · exact Or.inr ⟨hlt, hgap⟩
    · exact Or.inr ⟨hlt.trans hlt', hgap.trans (bounded_mono (nearest_mono (by omega)))⟩

instance : Trans Spaced Spaced Spaced := ⟨spaced_trans⟩

section Gap

variable {x y : Float}

/-- The difference of two numbers that differ is a number. -/
theorem not_isNaN_sub (hx : ¬ x.isNaN) (hy : ¬ y.isNaN) (h : units x < units y) :
    ¬ (y - x).isNaN := by
  rw [isNaN_sub_iff hy hx]
  omega

theorem sub_pos (hx : ¬ x.isNaN) (hy : ¬ y.isNaN) (h : units x < units y) : 0.0 < y - x := by
  have hnan := not_isNaN_sub hx hy h
  have hne : nearest (units y - units x) ≠ 0 := nearest_eq_zero_iff.not.2 (by omega)
  have hnonneg := nearest_nonneg (n := units y - units x) (by omega)
  rw [lt_iff_units (by decide) hnan, units_zero, units_sub hnan]
  exact bounded_pos (by omega)

/-- A gap that is not between zero and one is zero or at least one. -/
theorem spaced_of_gap (hx : ¬ x.isNaN) (hy : ¬ y.isNaN) (hle : units x ≤ units y)
    (hgap : ¬ (0.0 < y - x ∧ y - x < 1.0)) : Spaced (units x) (units y) := by
  rcases hle.eq_or_lt with heq | hlt
  · exact Or.inl heq
  · refine Or.inr ⟨hlt, ?_⟩
    have hnan := not_isNaN_sub hx hy hlt
    have hlarge : ¬ y - x < 1.0 := fun hsmall => hgap ⟨sub_pos hx hy hlt, hsmall⟩
    rw [lt_iff_units hnan (by decide), units_one, units_sub hnan] at hlarge
    omega

theorem Spaced.one_le (h : Spaced (units x) (units y)) (hx : ¬ x.isNaN) (hy : ¬ y.isNaN)
    (hne : units x ≠ units y) : 1.0 ≤ y - x := by
  obtain ⟨hlt, hgap⟩ := h.resolve_left hne
  have hnan := not_isNaN_sub hx hy hlt
  rwa [le_iff_units (by decide) hnan, units_one, units_sub hnan]

end Gap

end Number

/-! ## The check of spaces -/

namespace Placement

/-- Neighbours in a chain that passed the check have no gap between zero and one. -/
theorem checkFrom_eq_ok {c : Component} {config : Config} (horder : c.requiresSpawnOrder)
    {previous : Float} {rs : List Record} (h : checkFrom c config previous rs = .ok ()) :
    (previous :: rs.map Record.x).IsChain fun x y => ¬ (0.0 < y - x ∧ y - x < 1.0) := by
  induction rs generalizing previous with
  | nil => exact .singleton _
  | cons r rest ih =>
      rw [checkFrom] at h
      split at h
      · cases h
      · dsimp only at h
        split at h
        · cases h
        next hgap => exact .cons_cons (fun hbad => hgap ⟨horder, hbad⟩) (ih h)

/-- The places of a chain that passed the check are spaced throughout. -/
theorem pairwise_spaced {c : Component} {config : Config} {rs : List Record}
    (horder : c.requiresSpawnOrder) (h : check c config rs = .ok ())
    (hnan : ∀ r ∈ rs, ¬ r.x.isNaN) (hsorted : rs.Pairwise fun r r' => totalLe r.x r'.x) :
    rs.Pairwise fun r r' => Spaced (units r.x) (units r'.x) := by
  have hgaps : rs.IsChain fun r r' => ¬ (0.0 < r'.x - r.x ∧ r'.x - r.x < 1.0) :=
    (List.isChain_map _).1 (checkFrom_eq_ok horder h).tail
  have hspaced : (rs.map fun r => units r.x).IsChain Spaced := by
    refine List.isChain_iff_getElem.2 fun i hi => ?_
    rw [List.length_map] at hi
    have hleft := hnan rs[i] (List.getElem_mem _)
    have hright := hnan rs[i + 1] (List.getElem_mem _)
    have hle := units_le_of_totalLe hleft hright (List.isChain_iff_getElem.1 hsorted.isChain i hi)
    simp only [List.getElem_map]
    exact spaced_of_gap hleft hright hle (List.isChain_iff_getElem.1 hgaps i hi)
  exact List.pairwise_map.1 (List.isChain_iff_pairwise.1 hspaced)

end Placement

/-! ## Records of a chain -/

namespace Document

/-- Two records of a chain, each as it was and as it was exported, the first before the
second in the document.  They are of one moment, or they were exported to one place, or
they are in the order of the schedule with at least one unit between them. -/
def InStep (p q : Record × Record) : Prop :=
  p.1.x == q.1.x ∨ p.2.x == q.2.x ∨ p.1.x < q.1.x ∧ 1.0 ≤ q.2.x - p.2.x

/-- The part of a document keeps the schedule of the component.  The history has the
records of the component, each with its exported record, in the order of the document. -/
structure KeepsSchedule (c : Component) (part : List Record) (history : List (Record × Record)) :
    Prop where
  originals : (history.map Prod.fst).Perm c.records
  exported : history.map Prod.snd = part
  moved : ∀ p ∈ history, p.1.Moved p.2
  /-- A chain is moved as a whole. -/
  shifted : 2 ≤ c.records.length → ∃ shift, ∀ p ∈ history, p.2.x = p.1.x + shift
  inStep : history.Pairwise InStep

/-- A part of a document with its history: each record of the component is there with
the record that it was moved to, which is at the place that was drawn for it. -/
theorem PartOf.exists_history {config : Config} {area : Area} {c : Component} {part : List Record}
    (h : PartOf config area c part) :
    ∃ g xs g₁, ∃ history : List (Record × Record),
      Placement.places c area (c.records.map Record.x) g = .ok (xs, g₁) ∧
      (history.map Prod.fst).Perm c.records ∧ history.map Prod.snd = part ∧
      (∀ p ∈ history, p.1.Moved p.2 ∧ (p.1, p.2.x) ∈ c.records.zip xs) ∧
      (part.Pairwise fun r r' => totalLe r.x r'.x) ∧ Placement.check c config part = .ok () := by
  obtain ⟨g, xs, g₁, origin, hplaces, hperm, hsettled, hsorted, hcheck⟩ := h.exists_origin
  have hlength : c.records.length ≤ xs.length :=
    Nat.le_of_eq (by rw [Placement.length_of_places hplaces, List.length_map])
  obtain ⟨hsame, hsettled⟩ := List.forall₂_iff_zip.1 hsettled
  refine ⟨g, xs, g₁, (origin.zip part).map fun q => (q.1.1, q.2), hplaces, ?_, ?_, ?_, hsorted,
    hcheck⟩
  · have hfst : ((origin.zip part).map fun q => (q.1.1, q.2)).map Prod.fst =
        origin.map Prod.fst := by
      calc ((origin.zip part).map fun q => (q.1.1, q.2)).map Prod.fst
          = ((origin.zip part).map Prod.fst).map Prod.fst := by simp only [List.map_map]; rfl
        _ = origin.map Prod.fst := by rw [List.map_fst_zip hsame.le]
    rw [hfst, ← List.map_fst_zip hlength]
    exact hperm.map Prod.fst
  · rw [List.map_map]
    exact List.map_snd_zip hsame.ge
  · intro p hp
    obtain ⟨⟨o, r⟩, hq, rfl⟩ := List.mem_map.1 hp
    have hplaced := hsettled hq
    have hx : r.x = o.2 := by
      obtain ⟨g, rfl⟩ := hplaced
      rfl
    refine ⟨hplaced.moved, ?_⟩
    rw [hx]
    exact hperm.subset (List.of_mem_zip hq).1

section Chain

variable {c : Component} {config : Config} {part : List Record} {history : List (Record × Record)}
  {landing : Int}

/-- The records of a chain are in step. -/
theorem inStep_of_shift (horder : c.requiresSpawnOrder) (htimely : ∀ r ∈ c.records, 0.0 ≤ r.x)
    (hlanding : 0 ≤ landing) (hpart : history.map Prod.snd = part)
    (hshift : ∀ p ∈ history, p.1 ∈ c.records ∧
      p.2.x = p.1.x + (Float.ofInt landing - Placement.least (c.records.map Record.x)))
    (hsorted : part.Pairwise fun r r' => totalLe r.x r'.x)
    (hcheck : Placement.check c config part = .ok ()) : history.Pairwise InStep := by
  have hnan {p : Record × Record} (hp : p ∈ history) : ¬ p.1.x.isNaN :=
    (units_nonneg (htimely _ (hshift p hp).1)).1
  have hxs : ∀ x ∈ c.records.map Record.x, 0.0 ≤ x := List.forall_mem_map.2 htimely
  rcases Placement.least_cases hxs with hinfinite | ⟨hmem, hpos, hlt⟩
  · -- All records are at the end of time.
    refine List.pairwise_of_forall_mem_list fun p hp q hq => Or.inl ?_
    rw [beq_iff_units (hnan hp) (hnan hq), hinfinite _ (List.mem_map_of_mem (hshift p hp).1),
      hinfinite _ (List.mem_map_of_mem (hshift q hq).1)]
  · obtain ⟨hshiftNaN, hlow⟩ := Placement.shift_spec hlanding (units_nonneg (hxs _ hmem)).1 hpos hlt
    generalize Float.ofInt landing - Placement.least (c.records.map Record.x) = shift at *
    have hnan' {p : Record × Record} (hp : p ∈ history) : ¬ (p.1.x + shift).isNaN :=
      not_isNaN_add (htimely _ (hshift p hp).1) hshiftNaN hlow
    have hspaced := Placement.pairwise_spaced horder hcheck (hpart ▸ List.forall_mem_map.2
      fun p hp => (hshift p hp).2 ▸ hnan' hp) hsorted
    rw [← hpart, List.pairwise_map] at hspaced
    refine hspaced.imp_of_mem fun {p q} hp hq hpq => ?_
    rw [(hshift p hp).2, (hshift q hq).2] at hpq
    rw [InStep, (hshift p hp).2, (hshift q hq).2, beq_iff_units (hnan' hp) (hnan' hq)]
    refine or_iff_not_imp_left.2 fun _ => or_iff_not_imp_left.2 fun hne => ⟨?_, ?_⟩
    · rw [lt_iff_units (hnan hp) (hnan hq)]
      by_contra hle
      have hback := units_add_mono (Int.not_lt.1 hle) (hnan' hq) (hnan' hp)
      have := (hpq.resolve_left hne).1
      omega
    · exact hpq.one_le (hnan' hp) (hnan' hq) hne

theorem PartOf.keepsSchedule {area : Area} (h : PartOf config area c part)
    (harea : area.fault? = none) (horder : c.requiresSpawnOrder)
    (htimely : ∀ r ∈ c.records, 0.0 ≤ r.x) : ∃ history, KeepsSchedule c part history := by
  obtain ⟨g, xs, g₁, history, hplaces, horiginals, hexported, hmoved, hsorted, hcheck⟩ :=
    h.exists_history
  have hmoved' : ∀ p ∈ history, p.1.Moved p.2 := fun p hp => (hmoved p hp).1
  rcases Placement.places_eq_ok hplaces with ⟨x₀, _, hsingle, -, -⟩ |
    ⟨-, ⟨-, hfree, -⟩ | ⟨-, hrigid⟩ | ⟨hfree, -, -⟩⟩
  · have hone : c.records.length = 1 := by simpa using congrArg List.length hsingle
    have hlength := horiginals.length_eq
    rw [List.length_map, hone] at hlength
    obtain ⟨p, rfl⟩ := List.length_eq_one_iff.1 hlength
    exact ⟨[p], horiginals, hexported, hmoved', fun htwo => by omega, List.pairwise_singleton _ _⟩
  · exact absurd horder (by rw [hfree]; decide)
  · obtain ⟨-, landing, hlanding, rfl⟩ := Placement.rigid_eq_ok.1 hrigid
    have hnonneg : 0 ≤ landing := by
      have hlow := (g.between_spec area.minX (truncate (Float.ofInt area.maxX -
        (Placement.greatest (c.records.map Record.x) -
          Placement.least (c.records.map Record.x))))).1
      rw [hlanding] at hlow
      exact (Area.fault?_eq_none.1 harea).2.2.1.trans hlow
    have hshift : ∀ p ∈ history, p.1 ∈ c.records ∧
        p.2.x = p.1.x + (Float.ofInt landing - Placement.least (c.records.map Record.x)) := by
      intro p hp
      have hplace := (hmoved p hp).2
      rw [List.map_map, ← List.map_prod_left_eq_zip] at hplace
      obtain ⟨r, hr, heq⟩ := List.mem_map.1 hplace
      obtain ⟨hp₁, hp₂⟩ := Prod.mk.inj heq
      rw [← hp₁, ← hp₂]
      exact ⟨hr, rfl⟩
    exact ⟨history, horiginals, hexported, hmoved', fun _ => ⟨_, fun p hp => (hshift p hp).2⟩,
      inStep_of_shift horder htimely hnonneg hexported hshift hsorted hcheck⟩
  · exact absurd horder (by rw [hfree]; decide)

end Chain

/-- A document keeps the schedule of the components that must keep their order. -/
theorem ofContext_keepsSchedule {ctx : Context} {s : ExportSettings} {d : Document}
    (hctx : Reachable ctx) (h : ofContext ctx s = .ok d) :
    ∃ parts, d.records = parts.flatten ∧ List.Forall₂ (fun c part =>
      c.requiresSpawnOrder → ∃ history, KeepsSchedule c part history)
        (occupied ctx.components) parts := by
  obtain ⟨harea, parts, hrecords, hparts⟩ := ofContext_eq_ok h
  have htimely : ∀ c ∈ occupied ctx.components, ∀ r ∈ c.records, 0.0 ≤ r.x := fun c hc =>
    hctx.timely c (List.mem_of_mem_filter hc)
  exact ⟨parts, hrecords, ((List.forall₂_and_left _ _).2 ⟨htimely, hparts⟩).imp
    fun _ _ hpart horder => hpart.2.keepsSchedule harea horder hpart.1⟩

/-- Two switches at `0.1 + 0.2` and at `0.3` seconds are exported to one place.  They
must keep their order, and the later one is first. -/
theorem ofContext_keepsSchedule_switches :
    ∃ d, ofContext (switches true 0.30000000000000004 0.3) {} = .ok d ∧
      d.records.map (fun r => r.effect.target?) = [some 41, some 42] ∧
      d.records.map Record.x = [20960.0, 20960.0] ∧
      Schedule.distance 0.3 < Schedule.distance 0.30000000000000004 ∧
      ∃ parts, d.records = parts.flatten ∧ List.Forall₂ (fun c part =>
        c.requiresSpawnOrder → ∃ history, KeepsSchedule c part history)
          (occupied (switches true 0.30000000000000004 0.3).components) parts := by
  have hcs : (switches true 0.30000000000000004 0.3).components =
      [switchBoard true 0.30000000000000004 0.3] := by decide +kernel
  have hplaces : Placement.places (switchBoard true 0.30000000000000004 0.3) {}
      [Schedule.distance 0.30000000000000004, Schedule.distance 0.3] ⟨24301⟩ =
        .ok ([20960.0, 20960.0], ⟨17261500834634580984⟩) := by
    decide +kernel
  have hbuilt := ofContext_of_pair (s := {}) hcs rfl (by decide) (by decide +kernel) hplaces
    (by decide +kernel)
  exact ⟨_, hbuilt, by decide +kernel, by decide +kernel, by decide +kernel,
    ofContext_keepsSchedule (Reachable.runAll Run.new _) hbuilt⟩

end Document

end Barrage
