import Barrage.Proofs.Document
import Barrage.Proofs.Validity

/-!
# What an export refuses

An export has checks that the context of a run always passes.  The records of a run
belong to valid groups, so none of them belongs to a reserved group, and moving and
sorting records does not change that.  A component without records is left out before
places are drawn for it.

So an export fails for one of three reasons: the area is refused, spawns would be lost,
or a component that must keep the order of its records cannot (`ChainFault`).  The
failures of places and of checks are read off in `Placement.places_eq_error` and
`Placement.checkFrom_eq_error`, and carried through the components in
`Document.segments_eq_error`.
-/

namespace Barrage

theorem Area.validate_eq_error {area : Area} {e : ExportError} :
    area.validate = .error e ↔ ∃ f, area.fault? = some f ∧ e = .invalidArea f := by
  unfold validate
  cases area.fault? with
  | none => simp
  | some f => simp [eq_comm]

/-- How far the records of a component are apart on the schedule. -/
def Component.chainWidth (c : Component) : Float :=
  Placement.greatest (c.records.map Record.x) - Placement.least (c.records.map Record.x)

/-- Why a component that must keep the order of its records is refused: its chain is
wider than the area, or a record is less than a unit after the one before it. -/
inductive ChainFault (area : Area) (c : Component) : ExportError → Prop
  | tooWide (hwide : area.width < c.chainWidth) :
      ChainFault area c (.chainTooWide c.name c.chainWidth area.width)
  | tooClose {x previous : Float} (hgap : 0.0 < x - previous ∧ x - previous < 1.0) :
      ChainFault area c (.spawnOrderBroken c.name x previous)

/-! ## Failures of one component -/

namespace Placement

theorem rigid_eq_error {name : String} {area : Area} {xs : List Float} {g : Generator}
    {e : ExportError} (h : rigid name area xs g = .error e) :
    area.width < greatest xs - least xs ∧
      e = .chainTooWide name (greatest xs - least xs) area.width := by
  unfold rigid at h
  dsimp only at h
  split at h
  next hwide =>
    cases h
    exact ⟨hwide, rfl⟩
  next => cases h

/-- Places are refused only to a chain, if there is a record at all. -/
theorem places_eq_error {c : Component} {area : Area} {xs : List Float} {g : Generator}
    {e : ExportError} (hne : xs ≠ []) (h : places c area xs g = .error e) :
    c.requiresSpawnOrder ∧ rigid c.name area xs g = .error e := by
  unfold places at h
  split at h
  · exact absurd rfl hne
  · cases h
  next =>
    split at h
    · cases h
    · split at h
      next horder => exact ⟨horder, h⟩
      next => cases h

/-- The check refuses records without reserved groups only where the order matters. -/
theorem checkFrom_eq_error {c : Component} {config : Config} {previous : Float}
    {rs : List Record} {e : ExportError} (hfree : ∀ r ∈ rs, ∀ g ∈ r.groups, ¬ config.isReserved g)
    (h : checkFrom c config previous rs = .error e) :
    c.requiresSpawnOrder ∧ ∃ x previous, (0.0 < x - previous ∧ x - previous < 1.0) ∧
      e = .spawnOrderBroken c.name x previous := by
  induction rs generalizing previous with
  | nil => cases h
  | cons r rest ih =>
      rw [checkFrom] at h
      split at h
      next g hg =>
        have hreserved := hfree r (by simp) g (List.mem_of_find?_eq_some hg)
        exact absurd (List.find?_some hg) hreserved
      next =>
        dsimp only at h
        split at h
        next hgap =>
          cases h
          exact ⟨hgap.1, r.x, previous, hgap.2, rfl⟩
        next => exact ih (fun r' hr' => hfree r' (List.mem_cons_of_mem _ hr')) h

theorem groups_of_mem_settle {area : Area} {rs : List Record} {xs : List Float} {g : Generator}
    {r : Record} (h : r ∈ (settle area rs xs g).1) : ∃ r₀ ∈ rs, r.groups = r₀.groups := by
  induction rs generalizing xs g with
  | nil => simp [settle] at h
  | cons r₀ rs ih =>
      cases xs with
      | nil => simp [settle] at h
      | cons x xs =>
          rcases List.mem_cons.1 h with rfl | h
          · exact ⟨r₀, by simp, rfl⟩
          · obtain ⟨r₁, hr₁, hgroups⟩ := ih h
            exact ⟨r₁, List.mem_cons_of_mem _ hr₁, hgroups⟩

end Placement

/-! ## Failures of a document -/

namespace Document

theorem segment_eq_error {config : Config} {area : Area} {c : Component} {g : Generator}
    {e : ExportError} (h : segment config area c g = .error e) :
    Placement.places c area (c.records.map Record.x) g = .error e ∨
      ∃ xs g₁, Placement.check c config
        (Placement.sort (Placement.settle area c.records xs g₁).1) = .error e := by
  simp only [segment, Placement.spread, Except.bind_eq_error, Except.bind_eq_ok,
    Except.pure_eq_ok, Prod.exists] at h
  rcases h with (hplaces | ⟨_, _, _, h⟩) | ⟨rs, g', ⟨xs, g₁, -, hsettle⟩, hcheck | ⟨_, _, h⟩⟩
  · exact Or.inl hplaces
  · cases h
  · exact Or.inr ⟨xs, g₁, by rw [hsettle]; exact hcheck⟩
  · cases h

/-- A component with records outside reserved groups is refused only as a chain. -/
theorem chainFault_of_segment {config : Config} {area : Area} {c : Component} {g : Generator}
    {e : ExportError} (hne : c.records ≠ [])
    (hfree : ∀ r ∈ c.records, ∀ g ∈ r.groups, ¬ config.isReserved g)
    (h : segment config area c g = .error e) : c.requiresSpawnOrder ∧ ChainFault area c e := by
  rcases segment_eq_error h with hplaces | ⟨xs, g₁, hcheck⟩
  · obtain ⟨horder, hrigid⟩ := Placement.places_eq_error (by simpa using hne) hplaces
    obtain ⟨hwide, rfl⟩ := Placement.rigid_eq_error hrigid
    exact ⟨horder, .tooWide hwide⟩
  · -- Sorted and moved records belong to the groups that they belonged to.
    have hfree' : ∀ r ∈ Placement.sort (Placement.settle area c.records xs g₁).1,
        ∀ g ∈ r.groups, ¬ config.isReserved g := by
      intro r hr g hg
      obtain ⟨r₀, hr₀, hgroups⟩ :=
        Placement.groups_of_mem_settle ((Placement.sort_perm _).mem_iff.1 hr)
      exact hfree r₀ hr₀ g (hgroups ▸ hg)
    obtain ⟨horder, x, previous, hgap, rfl⟩ := Placement.checkFrom_eq_error hfree' hcheck
    exact ⟨horder, .tooClose hgap⟩

theorem segments_eq_error {config : Config} {area : Area} {cs : List Component} {g : Generator}
    {e : ExportError} (h : segments config area cs g = .error e) :
    ∃ c ∈ occupied cs, ∃ g', segment config area c g' = .error e := by
  induction cs generalizing g with
  | nil => cases h
  | cons c cs ih =>
      have hsub : occupied cs ⊆ occupied (c :: cs) :=
        List.filter_subset _ (List.subset_cons_self c cs)
      rw [segments] at h
      split at h
      next =>
        obtain ⟨d, hd, hsegment⟩ := ih h
        exact ⟨d, hsub hd, hsegment⟩
      next hrecords =>
        simp only [Except.bind_eq_error, Prod.exists] at h
        rcases h with hsegment | ⟨_, g', -, hothers | ⟨_, -, h⟩⟩
        · exact ⟨c, by simp [occupied, hrecords], g, hsegment⟩
        · obtain ⟨d, hd, hsegment⟩ := ih hothers
          exact ⟨d, hsub hd, hsegment⟩
        · cases h

/-- A context with sound records is refused for its area, for a hazard, or for a chain. -/
theorem ofContext_eq_error {ctx : Context} {s : ExportSettings} {e : ExportError}
    (hsound : ctx.Sound) (h : ofContext ctx s = .error e) :
    (∃ f, s.area.fault? = some f ∧ e = .invalidArea f) ∨
      (∃ f, Hazard.check ctx.components = .error f ∧ e = .hazard f) ∨
      ∃ c ∈ ctx.components, c.requiresSpawnOrder ∧ ChainFault s.area c e := by
  simp only [ofContext, build, Except.bind_eq_error, Except.mapError_eq_error] at h
  rcases h with harea | ⟨_, -, hhazard | ⟨_, -, hsegments | ⟨_, -, h⟩⟩⟩
  · exact Or.inl (Area.validate_eq_error.1 harea)
  · exact Or.inr (Or.inl hhazard)
  · obtain ⟨c, hc, g, hsegment⟩ := segments_eq_error hsegments
    obtain ⟨hmem, hrecords⟩ := List.mem_filter.1 hc
    have hfree : ∀ r ∈ c.records, ∀ g ∈ r.groups, ¬ ctx.config.isReserved g := by
      intro r hr g hg
      have hvalid := (Context.valid_iff.1 ((hsound c hmem r hr).owners g hg)).1
      simpa [Config.isReserved] using hvalid
    exact Or.inr (Or.inr ⟨c, hmem, chainFault_of_segment (by simpa using hrecords) hfree hsegment⟩)
  · cases h

/-- A failure that is not about the area or a hazard is about a chain. -/
theorem exists_chainFault {ctx : Context} {s : ExportSettings} {e : ExportError}
    (hsound : ctx.Sound) (h : ofContext ctx s = .error e) (harea : ∀ f, e ≠ .invalidArea f)
    (hhazard : ∀ f, e ≠ .hazard f) :
    ∃ c ∈ ctx.components, c.requiresSpawnOrder ∧ ChainFault s.area c e := by
  rcases ofContext_eq_error hsound h with ⟨f, -, he⟩ | ⟨f, -, he⟩ | hchain
  · exact absurd he (harea f)
  · exact absurd he (hhazard f)
  · exact hchain

/-- Sound records without an order to keep are exported, if the area is valid and no spawns
would be lost. -/
theorem exists_of_unordered {ctx : Context} {s : ExportSettings} (hsound : ctx.Sound)
    (hvalid : s.area.validate = .ok ()) (hhazard : Hazard.check ctx.components = .ok ())
    (hfree : ∀ c ∈ ctx.components, c.requiresSpawnOrder = false) :
    ∃ d, ofContext ctx s = .ok d := by
  cases h : ofContext ctx s with
  | ok d => exact ⟨d, rfl⟩
  | error e =>
      rcases ofContext_eq_error hsound h with ⟨f, hf, -⟩ | ⟨f, hf, -⟩ | ⟨c, hc, horder, -⟩
      · cases hvalid.symm.trans (Area.validate_eq_error.2 ⟨f, hf, rfl⟩)
      · cases hhazard.symm.trans hf
      · rw [hfree c hc] at horder
        cases horder

/-- Of the failures of an export, a context that a run reaches never meets the one of a
reserved group and the one of a component without records.  The two failures of chains
name a component that must keep the order of its records.  So a context without such
components is exported, if the area is valid and no spawns would be lost. -/
theorem ofContext_refuses_only {ctx : Context} (hctx : Reachable ctx) (s : ExportSettings) :
    (∀ name g, ofContext ctx s ≠ .error (.reservedGroup name g)) ∧
    (∀ name, ofContext ctx s ≠ .error (.emptyComponent name)) ∧
    (∀ name width room, ofContext ctx s = .error (.chainTooWide name width room) →
      ∃ c ∈ ctx.components, c.name = name ∧ c.requiresSpawnOrder ∧
        width = c.chainWidth ∧ room = s.area.width ∧ room < width) ∧
    (∀ name x previous, ofContext ctx s = .error (.spawnOrderBroken name x previous) →
      ∃ c ∈ ctx.components, c.name = name ∧ c.requiresSpawnOrder ∧
        0.0 < x - previous ∧ x - previous < 1.0) ∧
    (s.area.validate = .ok () → Hazard.check ctx.components = .ok () →
      (∀ c ∈ ctx.components, c.requiresSpawnOrder = false) → ∃ d, ofContext ctx s = .ok d) := by
  refine ⟨fun name g h => ?_, fun name h => ?_, fun name width room h => ?_,
    fun name x previous h => ?_, fun hvalid hhazard hfree => ?_⟩
  · obtain ⟨c, -, -, hfault⟩ := exists_chainFault hctx.sound h nofun nofun
    cases hfault
  · obtain ⟨c, -, -, hfault⟩ := exists_chainFault hctx.sound h nofun nofun
    cases hfault
  · obtain ⟨c, hc, horder, hfault⟩ := exists_chainFault hctx.sound h nofun nofun
    cases hfault with
    | tooWide hwide => exact ⟨c, hc, rfl, horder, rfl, rfl, hwide⟩
  · obtain ⟨c, hc, horder, hfault⟩ := exists_chainFault hctx.sound h nofun nofun
    cases hfault with
    | tooClose hgap => exact ⟨c, hc, rfl, horder, hgap⟩
  · exact exists_of_unordered hctx.sound hvalid hhazard hfree

/-- Two switches a hundred seconds apart do not fit in the area as a chain.  They are
exported if they need not keep their order. -/
theorem ofContext_refuses_only_switches :
    ofContext (switches true 0.0 100.0) {} = .error (.chainTooWide "Switches" 31158.0 23650.0) ∧
    (∃ c ∈ (switches true 0.0 100.0).components, c.name = "Switches" ∧ c.requiresSpawnOrder ∧
      31158.0 = c.chainWidth ∧ 23650.0 = (({} : ExportSettings).area).width ∧
        (23650.0 : Float) < 31158.0) ∧
    ∃ d, ofContext (switches false 0.0 100.0) {} = .ok d := by
  have hrefused : ofContext (switches true 0.0 100.0) {} =
      .error (.chainTooWide "Switches" 31158.0 23650.0) := by decide +kernel
  have hreachable (ordered : Bool) : Reachable (switches ordered 0.0 100.0) :=
    Reachable.runAll .new _
  obtain ⟨-, -, hwide, -, -⟩ := ofContext_refuses_only (hreachable true) {}
  obtain ⟨-, -, -, -, hfree⟩ := ofContext_refuses_only (hreachable false) {}
  refine ⟨hrefused, hwide _ _ _ hrefused, hfree (by decide) (by decide +kernel) ?_⟩
  decide +kernel

end Document

end Barrage
