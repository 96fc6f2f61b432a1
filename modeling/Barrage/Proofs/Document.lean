import Mathlib.Data.List.Perm.Basic
import Barrage.Export.Save
import Barrage.Proofs.Call
import Barrage.Proofs.Record

/-!
# A document holds the records of its context

An export changes where records are and nothing else.  A component without records
is left out.  For any other component places are drawn, one for each record, the
records are moved there in turn, and then they are sorted by their places.  So the
document is made of one part per component, in the order of the components, and each
part is a permutation of the moved records (`Document.Holds`).

Documents are opened by `Document.segments_eq_ok`, which gives the part of each
component as the result of `Document.segment`, and by `Document.segment_eq_ok`, which
gives the places that were drawn for it.
-/

namespace Barrage

/-! ## Moved records -/

/-- The record has another place, and its fields show no other change. -/
structure Record.Moved (r r' : Record) : Prop where
  others : ∀ f, f ≠ Field.x → f ≠ Field.y → r'.field? f = r.field? f
  along : r'.field? Field.x = some (.float r'.x)
  across : ∃ y, r'.field? Field.y = some (.float y)

theorem Record.mem_commonFields_moveTo {r : Record} {x y : Float} {f : Field} {v : Value}
    (hx : f ≠ Field.x) (hy : f ≠ Field.y) :
    (f, v) ∈ (r.moveTo x y).commonFields ↔ (f, v) ∈ r.commonFields := by
  simp [commonFields, moveTo, kind, hx, hy, hy.symm]

theorem Record.moved_moveTo (r : Record) (x y : Float) : r.Moved (r.moveTo x y) := by
  refine ⟨fun f hx hy => Option.ext fun v => ?_, ?_, y, ?_⟩
  · rw [field?_eq_some_iff, field?_eq_some_iff, mem_fields, mem_fields,
      mem_commonFields_moveTo hx hy]
    rfl
  · exact field?_of_common (by simp [commonFields])
  · exact field?_of_common (by simp [commonFields, moveTo])

/-! ## Places -/

theorem Generator.length_betweens (lo hi : Int) (n : Nat) (g : Generator) :
    (g.betweens lo hi n).1.length = n := by
  induction n generalizing g with
  | zero => rfl
  | succ n ih => exact congrArg (· + 1) (ih _)

namespace Placement

theorem length_walk (x : Float) (steps : List Int) : (walk x steps).length = steps.length + 1 := by
  induction steps generalizing x with
  | nil => rfl
  | cons step rest ih => exact congrArg (· + 1) (ih _)

theorem rigid_eq_ok {name : String} {area : Area} {xs ys : List Float} {g g' : Generator} :
    rigid name area xs g = .ok (ys, g') ↔
      ¬ area.width < greatest xs - least xs ∧ ∃ landing,
        g.between area.minX
          (Number.truncate (Float.ofInt area.maxX - (greatest xs - least xs))) = (landing, g') ∧
        ys = xs.map fun x => x + (Float.ofInt landing - least xs) := by
  unfold rigid
  dsimp only
  split
  next hwide => simp [hwide]
  next hfits =>
    simp only [hfits, not_false_eq_true, true_and, Except.ok.injEq, Prod.mk.injEq]
    constructor
    · rintro ⟨rfl, rfl⟩
      exact ⟨_, rfl, rfl⟩
    · rintro ⟨landing, hlanding, rfl⟩
      rw [hlanding]
      exact ⟨rfl, rfl⟩

/-- There are four ways to draw places. -/
theorem places_eq_ok {c : Component} {area : Area} {xs ys : List Float} {g g' : Generator}
    (h : places c area xs g = .ok (ys, g')) :
    (∃ x₀ x, xs = [x₀] ∧ g.between area.minX area.maxX = (x, g') ∧ ys = [Float.ofInt x]) ∨
      2 ≤ xs.length ∧
        ((sameMoment xs ∧ c.requiresSpawnOrder = false ∧ scatter area xs.length g = (ys, g')) ∨
          (c.requiresSpawnOrder ∧ rigid c.name area xs g = .ok (ys, g')) ∨
          (c.requiresSpawnOrder = false ∧ sameMoment xs = false ∧
            elastic area xs.length g = (ys, g'))) := by
  unfold places at h
  split at h
  · cases h
  · cases h
    exact Or.inl ⟨_, _, rfl, rfl, rfl⟩
  next hnil hone =>
    have htwo : 2 ≤ xs.length := by
      rcases xs with _ | ⟨x, _ | ⟨y, rest⟩⟩
      · exact absurd rfl hnil
      · exact absurd rfl (hone x)
      · simp
    refine Or.inr ⟨htwo, ?_⟩
    cases horder : c.requiresSpawnOrder with
    | true =>
        simp only [horder, Bool.not_true, Bool.and_false, Bool.false_eq_true, if_false,
          if_true] at h
        exact Or.inr (Or.inl ⟨rfl, h⟩)
    | false =>
        cases hsame : sameMoment xs with
        | true =>
            simp only [horder, hsame, Bool.not_false, Bool.and_self, if_true,
              Except.ok.injEq] at h
            exact Or.inl ⟨rfl, rfl, h⟩
        | false =>
            simp only [horder, hsame, Bool.not_false, Bool.and_true, Bool.false_eq_true, if_false,
              Except.ok.injEq] at h
            exact Or.inr (Or.inr ⟨rfl, rfl, h⟩)

/-- There are as many places as records. -/
theorem length_of_places {c : Component} {area : Area} {xs ys : List Float} {g g' : Generator}
    (h : places c area xs g = .ok (ys, g')) : ys.length = xs.length := by
  rcases places_eq_ok h with ⟨_, _, rfl, -, rfl⟩ | ⟨htwo, ⟨-, -, h⟩ | ⟨-, h⟩ | ⟨-, -, h⟩⟩
  · rfl
  · have hys : (scatter area xs.length g).1 = ys := congrArg Prod.fst h
    rw [← hys]
    simp [scatter, Generator.length_betweens]
  · obtain ⟨-, _, -, rfl⟩ := rigid_eq_ok.1 h
    exact List.length_map _
  · have hys : (elastic area xs.length g).1 = ys := congrArg Prod.fst h
    rw [← hys]
    simp only [elastic, length_walk, Generator.length_betweens]
    omega

/-- The record is moved to its place along the level, and to a place across that was
drawn. -/
def Settled (area : Area) (p : Record × Float) (r : Record) : Prop :=
  ∃ g : Generator, r = p.1.moveTo p.2 (Float.ofInt (g.between area.minY area.maxY).1)

theorem settle_settled (area : Area) {rs : List Record} {xs : List Float}
    (h : xs.length = rs.length) (g : Generator) :
    List.Forall₂ (Settled area) (rs.zip xs) (settle area rs xs g).1 := by
  induction rs generalizing xs g with
  | nil => exact .nil
  | cons r rs ih =>
      cases xs with
      | nil => cases h
      | cons x xs => exact .cons ⟨g, rfl⟩ (ih (Nat.succ.inj h) _)

theorem Settled.moved {area : Area} {p : Record × Float} {r : Record} (h : Settled area p r) :
    p.1.Moved r := by
  obtain ⟨g, rfl⟩ := h
  exact p.1.moved_moveTo _ _

theorem sort_perm (rs : List Record) : (sort rs).Perm rs := List.mergeSort_perm _ _

theorem sort_sorted (rs : List Record) :
    (sort rs).Pairwise fun r r' => Number.totalLe r.x r'.x := by
  refine List.pairwise_mergeSort (fun a b c hab hbc => ?_) (fun a b => ?_) rs
  · simp only [Number.totalLe, decide_eq_true_eq] at hab hbc ⊢
    exact Int.le_trans hab hbc
  · simp only [Number.totalLe, Bool.or_eq_true, decide_eq_true_eq]
    exact Int.le_total _ _

end Placement

/-! ## Parts of a document -/

namespace Document

theorem segment_eq_ok {config : Config} {area : Area} {c : Component} {g g' : Generator}
    {rs : List Record} :
    segment config area c g = .ok (rs, g') ↔
      ∃ xs g₁, Placement.places c area (c.records.map Record.x) g = .ok (xs, g₁) ∧
        (Placement.settle area c.records xs g₁).2 = g' ∧
        Placement.sort (Placement.settle area c.records xs g₁).1 = rs ∧
        Placement.check c config rs = .ok () := by
  simp only [segment, Placement.spread, Except.bind_eq_ok, Except.pure_eq_ok, Prod.exists,
    Prod.mk.injEq]
  constructor
  · rintro ⟨placed, g₂, ⟨xs, g₁, hplaces, hsettle⟩, _, hcheck, rfl, rfl⟩
    exact ⟨xs, g₁, hplaces, by rw [hsettle], by rw [hsettle], hcheck⟩
  · rintro ⟨xs, g₁, hplaces, rfl, rfl, hcheck⟩
    exact ⟨_, _, ⟨xs, g₁, hplaces, rfl⟩, (), hcheck, rfl, rfl⟩

/-- The list is what `segment` gives for the component, from some state of the
generator. -/
def PartOf (config : Config) (area : Area) (c : Component) (part : List Record) : Prop :=
  ∃ g g', segment config area c g = .ok (part, g')

/-- The components that have records. -/
def occupied (cs : List Component) : List Component := cs.filter fun c => c.records ≠ []

theorem segments_eq_ok {config : Config} {area : Area} {cs : List Component} {g : Generator}
    {rs : List Record} (h : segments config area cs g = .ok rs) :
    ∃ parts, rs = parts.flatten ∧ List.Forall₂ (PartOf config area) (occupied cs) parts := by
  induction cs generalizing g rs with
  | nil =>
      cases h
      exact ⟨[], rfl, .nil⟩
  | cons c cs ih =>
      rw [segments] at h
      split at h
      next hempty =>
        obtain ⟨parts, hrs, hparts⟩ := ih h
        exact ⟨parts, hrs, by simpa [occupied, hempty] using hparts⟩
      next hrecords =>
        simp only [Except.bind_eq_ok, Except.pure_eq_ok, Prod.exists] at h
        obtain ⟨part, g', hpart, others, hothers, rfl⟩ := h
        obtain ⟨parts, rfl, hparts⟩ := ih hothers
        have hoccupied : occupied (c :: cs) = c :: occupied cs := by simp [occupied, hrecords]
        exact ⟨part :: parts, rfl, hoccupied ▸ .cons ⟨g, g', hpart⟩ hparts⟩

theorem segments_of_ofContext {ctx : Context} {s : ExportSettings} {d : Document}
    (h : ofContext ctx s = .ok d) :
    s.area.validate = .ok () ∧
      segments ctx.config s.area ctx.components ⟨s.seed.toUInt64⟩ = .ok d.records := by
  simp only [ofContext, build, Except.bind_eq_ok, Except.pure_eq_ok] at h
  obtain ⟨_, hvalid, _, -, rs, hrs, rfl⟩ := h
  exact ⟨hvalid, hrs⟩

theorem ofContext_eq_ok {ctx : Context} {s : ExportSettings} {d : Document}
    (h : ofContext ctx s = .ok d) :
    s.area.fault? = none ∧ ∃ parts, d.records = parts.flatten ∧
      List.Forall₂ (PartOf ctx.config s.area) (occupied ctx.components) parts := by
  obtain ⟨hvalid, hsegments⟩ := segments_of_ofContext h
  refine ⟨?_, segments_eq_ok hsegments⟩
  unfold Area.validate at hvalid
  split at hvalid
  next hfault => exact hfault
  next => cases hvalid

/-! ## Nothing is lost -/

/-- What a part of a document consists of: places were drawn for the records of the
component, and the records were moved there and sorted.  The list `origin` has the
records with their places in the order of the document. -/
theorem PartOf.exists_origin {config : Config} {area : Area} {c : Component} {part : List Record}
    (h : PartOf config area c part) :
    ∃ g xs g₁ origin, Placement.places c area (c.records.map Record.x) g = .ok (xs, g₁) ∧
      origin.Perm (c.records.zip xs) ∧ List.Forall₂ (Placement.Settled area) origin part ∧
      (part.Pairwise fun r r' => Number.totalLe r.x r'.x) ∧
      Placement.check c config part = .ok () := by
  obtain ⟨g, g', hsegment⟩ := h
  obtain ⟨xs, g₁, hplaces, -, rfl, hcheck⟩ := segment_eq_ok.1 hsegment
  have hlength : xs.length = c.records.length := by
    rw [Placement.length_of_places hplaces, List.length_map]
  -- What was moved is sorted together with what it was.
  obtain ⟨origin, hsettled, hperm⟩ := List.perm_comp_forall₂ (Placement.sort_perm _)
    (Placement.settle_settled area hlength g₁).flip
  exact ⟨g, xs, g₁, origin, hplaces, hperm, hsettled.flip, Placement.sort_sorted _, hcheck⟩

/-- The part of a document holds the records of the component: each of them was moved,
and they are sorted by their new places. -/
structure Holds (c : Component) (part : List Record) : Prop where
  records : ∃ originals, originals.Perm c.records ∧ List.Forall₂ Record.Moved originals part
  sorted : part.Pairwise fun r r' => Number.totalLe r.x r'.x

theorem PartOf.holds {config : Config} {area : Area} {c : Component} {part : List Record}
    (h : PartOf config area c part) : Holds c part := by
  obtain ⟨g, xs, g₁, origin, hplaces, hperm, hsettled, hsorted, -⟩ := h.exists_origin
  have hlength : c.records.length ≤ xs.length :=
    Nat.le_of_eq (by rw [Placement.length_of_places hplaces, List.length_map])
  refine ⟨⟨origin.map Prod.fst, ?_, ?_⟩, hsorted⟩
  · rw [← List.map_fst_zip hlength]
    exact hperm.map Prod.fst
  · exact List.forall₂_map_left_iff.2 (hsettled.imp fun _ _ => Placement.Settled.moved)

theorem Holds.length_eq {c : Component} {part : List Record} (h : Holds c part) :
    part.length = c.records.length := by
  obtain ⟨originals, hperm, hmoved⟩ := h.records
  rw [← hmoved.length_eq, hperm.length_eq]

/-- Components without records do not count. -/
theorem length_flatten_of_holds {cs : List Component} {parts : List (List Record)}
    (h : List.Forall₂ Holds (occupied cs) parts) :
    parts.flatten.length = (cs.flatMap Component.records).length := by
  induction cs generalizing parts with
  | nil =>
      cases h
      rfl
  | cons c cs ih =>
      by_cases hempty : c.records = []
      · have hoccupied : occupied (c :: cs) = occupied cs := by simp [occupied, hempty]
        rw [ih (hoccupied ▸ h), List.flatMap_cons, hempty, List.nil_append]
      · have hoccupied : occupied (c :: cs) = c :: occupied cs := by simp [occupied, hempty]
        rw [hoccupied] at h
        cases h with
        | cons hpart hparts =>
            rw [List.flatten_cons, List.length_append, List.flatMap_cons, List.length_append,
              hpart.length_eq, ih hparts]

/-- A document consists of one part per component that has records, in the order of
the components.  Each part holds the records of its component, and the document has as
many records as the statistics count. -/
theorem ofContext_holds {ctx : Context} {s : ExportSettings} {d : Document}
    (h : ofContext ctx s = .ok d) :
    (∃ parts, d.records = parts.flatten ∧
      List.Forall₂ Holds (occupied ctx.components) parts) ∧
    ∀ budget, d.records.length = (ctx.tally budget).total := by
  obtain ⟨-, parts, hrecords, hparts⟩ := ofContext_eq_ok h
  have hholds := hparts.imp fun _ _ => PartOf.holds
  refine ⟨⟨parts, hrecords, hholds⟩, fun budget => ?_⟩
  rw [hrecords]
  exact length_flatten_of_holds hholds

/-! ## Documents of two records -/

/-- The part of a component with two records, for which two places were drawn. -/
def pairPart (area : Area) (r₁ r₂ : Record) (x₁ x₂ : Float) (g : Generator) : List Record :=
  let (y₁, g) := g.between area.minY area.maxY
  let (y₂, _) := g.between area.minY area.maxY
  let a := r₁.moveTo x₁ (Float.ofInt y₁)
  let b := r₂.moveTo x₂ (Float.ofInt y₂)
  if Number.totalLe x₁ x₂ then [a, b] else [b, a]

theorem sort_settle_pair (area : Area) (r₁ r₂ : Record) (x₁ x₂ : Float) (g : Generator) :
    Placement.sort (Placement.settle area [r₁, r₂] [x₁, x₂] g).1 = pairPart area r₁ r₂ x₁ x₂ g := by
  simp [Placement.sort, Placement.settle, pairPart, List.mergeSort, List.merge, Record.moveTo]

/-- A document with one component of two records. -/
theorem ofContext_of_pair {ctx : Context} {s : ExportSettings} {c : Component} {r₁ r₂ : Record}
    {x₁ x₂ : Float} {g : Generator} (hcs : ctx.components = [c]) (hrecords : c.records = [r₁, r₂])
    (harea : s.area.validate = .ok ()) (hhazard : Hazard.check [c] = .ok ())
    (hplaces : Placement.places c s.area [r₁.x, r₂.x] ⟨s.seed.toUInt64⟩ = .ok ([x₁, x₂], g))
    (hcheck : Placement.check c ctx.config (pairPart s.area r₁ r₂ x₁ x₂ g) = .ok ()) :
    ofContext ctx s = .ok ⟨pairPart s.area r₁ r₂ x₁ x₂ g⟩ := by
  have hsegment : ∃ g', segment ctx.config s.area c ⟨s.seed.toUInt64⟩ =
      .ok (pairPart s.area r₁ r₂ x₁ x₂ g, g') := by
    refine ⟨_, segment_eq_ok.2 ⟨[x₁, x₂], g, ?_, rfl, ?_, hcheck⟩⟩
    · rw [hrecords]
      exact hplaces
    · rw [hrecords]
      exact sort_settle_pair s.area r₁ r₂ x₁ x₂ g
  obtain ⟨g', hsegment⟩ := hsegment
  have hsome : c.records ≠ [] := by simp [hrecords]
  simp only [ofContext, build, hcs, segments, if_neg hsome, harea, hhazard, hsegment,
    Except.ok_bind, Except.mapError_ok, List.append_nil]
  rfl

/-- A component on group 40 with two switches, which must keep their order or need
not. -/
def switches (ordered : Bool) (first second : Float) : Context :=
  Call.runAll
    [.register "Switches" 40 none, .edit 0 (.spawnOrder ordered),
      .edit 0 (.trigger first (.toggle (.group 41) true)),
      .edit 0 (.trigger second (.toggle (.group 42) true))]
    (Context.ofConfig {})

/-- A switch of the component. -/
def switch (time : Float) (g : Group) : Record :=
  { x := Schedule.distance time, groups := [40], layer := 4, effect := .toggle g true }

/-- The component of `switches`. -/
def switchBoard (ordered : Bool) (first second : Float) : Component :=
  { name := "Switches", caller := 40, layer := 4, spawnOrder := some ordered,
    records := [switch first 41, switch second 42] }

/-- Two records that must keep their order are exchanged if the first is later. -/
theorem ofContext_holds_switches :
    ∃ d, ofContext (switches true 2.0 1.0) {} = .ok d ∧
      d.records.map (fun r => r.effect.target?) = [some 42, some 41] ∧
      (∃ parts, d.records = parts.flatten ∧
        List.Forall₂ Holds (occupied (switches true 2.0 1.0).components) parts) ∧
      ∀ budget, d.records.length = ((switches true 2.0 1.0).tally budget).total := by
  have hcs : (switches true 2.0 1.0).components = [switchBoard true 2.0 1.0] := by decide +kernel
  have hplaces : (Placement.places (switchBoard true 2.0 1.0) {}
      [Schedule.distance 2.0, Schedule.distance 1.0] ⟨24301⟩) = .ok ([16935.58, 16624.0], ⟨17261500834634580984⟩) := by
    decide +kernel
  have hbuilt := ofContext_of_pair (s := {}) hcs rfl (by decide) (by decide +kernel) hplaces
    (by decide +kernel)
  exact ⟨_, hbuilt, by decide +kernel, ofContext_holds hbuilt⟩

end Document

end Barrage
