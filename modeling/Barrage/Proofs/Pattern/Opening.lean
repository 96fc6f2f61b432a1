import Barrage.Proofs.Geometry.Arc
import Barrage.Proofs.Pool
import Barrage.Proofs.Regular

/-!
# The first burst of a firing

A firing plans its bursts and then spawns them one by one.  Up to the first burst it edits
new components only, those of the bases (`Context.openFire_eq_error`).  The first burst is
a record of the caller, so from then on something is left behind for good
(`Firing.Unchanged.not_of_growth`).

The template matters in one respect.  A burst may fail after another one only if the
template runs on the group that is the placeholder for templates.  For any other template
the first burst decides (`Context.each_emitBurst_of_openFire`).
-/

namespace Barrage

open Build

/-! ## Unchanged -/

/-- The components that were there have the records that they had, and the pool
gives next what it would have given. -/
structure Firing.Unchanged (s s' : Firing) : Prop where
  records : ∀ (j : Nat) (c : Component), s.context.components[j]? = some c →
    ∃ c' : Component, s'.context.components[j]? = some c' ∧ c'.records = c.records
  draw : s'.pool.next.1 = s.pool.next.1

namespace Firing.Unchanged

/-- Only new components were edited. -/
theorem of_evolves {s s' : Firing}
    (h : Evolves (fun j => s.context.components.length ≤ j) s.context s'.context)
    (hpool : s'.pool = s.pool) : s.Unchanged s' := by
  refine ⟨fun j c hc => ?_, by rw [hpool]⟩
  obtain ⟨c', hc', -, -, hsame⟩ := h.extension.component j c hc
  have hj : j < s.context.components.length := (List.getElem?_eq_some_iff.1 hc).1
  exact ⟨c', hc', by rw [hsame (Nat.not_le.2 hj)]⟩

/-- Records are never removed, so a component that has got one is changed for good. -/
theorem not_of_growth {A : Nat → Prop} {s s₁ s' : Firing} {i : Nat} {c c₁ : Component}
    (hc : s.context.components[i]? = some c) (hc₁ : s₁.context.components[i]? = some c₁)
    (hgrowth : c.records.length < c₁.records.length)
    (h : Evolves A s₁.context s'.context) : ¬ s.Unchanged s' := by
  intro hunchanged
  obtain ⟨c', hc', hrecords⟩ := hunchanged.records i c hc
  obtain ⟨c'', hc'', -, hle, -⟩ := h.extension.component i c₁ hc₁
  cases hc'.symm.trans hc''
  rw [hrecords] at hle
  omega

end Firing.Unchanged

/-! ## The first burst -/

namespace Context

/-- Fires a template up to its first burst.  Gives the other bursts. -/
def openFire (caller : Nat) (time : Float) (template : Nat) (as : List Assignment) :
    Build Context (List Burst) := do
  let bursts ← prepare time template as
  Build.each (emitBurst caller time) (bursts.take 1)
  pure (bursts.drop 1)

variable {caller template : Nat} {time : Float} {as : List Assignment} {ctx ctx' : Context}

theorem fire_eq_openFire : fire caller time template as =
    (openFire caller time template as >>= Build.each (emitBurst caller time)) := by
  simp only [fire, openFire, bind_assoc, pure_bind, ← each_append, List.take_append_drop]

theorem evolves_of_prepare {bursts : Except BuildError (List Burst)}
    (h : prepare time template as ctx = (bursts, ctx')) :
    Evolves (fun j => ctx.components.length ≤ j) ctx ctx' := by
  have hkeeps : Keeps (Evolves (fun j => ctx.components.length ≤ j) ctx)
      (prepare time template as) :=
    .prepare (fun _ _ h => h.note rfl rfl rfl) (fun _ _ h => h.note rfl rfl rfl)
      (Evolves.requireBases fun _ hj => hj) time template as
  exact hkeeps.of_run h (.refl ctx)

/-- A template that does not get its first burst out edits new components only. -/
theorem openFire_eq_error {e : BuildError}
    (h : openFire caller time template as ctx = (.error e, ctx')) :
    Evolves (fun j => ctx.components.length ≤ j) ctx ctx' := by
  rcases bind_eq_error.1 h with h | ⟨bursts, ctx₁, hprepare, h⟩
  · exact evolves_of_prepare h
  rcases bind_eq_error.1 h with h | ⟨_, _, -, h⟩
  · cases bursts with
    | nil => cases h
    | cons burst rest =>
        rcases each_cons_eq_error.1 h with h | ⟨_, -, h⟩
        · obtain ⟨-, rfl⟩ := perform_eq_error.1 h
          exact evolves_of_prepare hprepare
        · cases h
  · cases h

/-- A plan is made for the bases that the context has afterwards. -/
theorem plan_of_prepare {bursts : List Burst} {c : Component}
    (h : prepare time template as ctx = (.ok bursts, ctx'))
    (hc : ctx.components[template]? = some c) :
    ∃ b, ctx'.bases = some b ∧ b.planAll c.caller as = .ok bursts := by
  obtain ⟨c', b, warnings, journal, ctx₁, journal', hc', hb, hplan, rfl⟩ := prepare_eq_ok h
  cases hc.symm.trans hc'
  refine ⟨b, ?_, hplan⟩
  rcases requireBases_eq_ok hb with ⟨hbases, rfl⟩ | ⟨hbases, -⟩ <;> exact hbases

theorem Durable.of_prepare {P : Context → Prop} (hP : Durable P)
    {bursts : Except BuildError (List Burst)} (h : prepare time template as ctx = (bursts, ctx'))
    (hctx : P ctx) : P ctx' :=
  ((hP.ingredients template).prepare time template as).of_run h hctx

/-- The bursts of a plan run bases with valid groups.  Their remaps are not lost in
cleaning, unless the template takes the place of the placeholder for templates. -/
theorem prepare_bursts {bursts : List Burst} {c : Component}
    (h : prepare time template as ctx = (.ok bursts, ctx')) (hctx : ctx.Regular) (has : as ≠ [])
    (hc : ctx.components[template]? = some c) :
    bursts ≠ [] ∧ ∀ burst ∈ bursts, ctx'.Valid burst.group ∧
      (c.caller ≠ Group.template → burst.remap.cleaned.pairs ≠ []) := by
  obtain ⟨b, hbases, hplan⟩ := plan_of_prepare h hc
  have hregular : ctx'.Regular := Regular.durable.of_prepare h hctx
  obtain ⟨hcapacities, hvalid⟩ := hregular.enrolled b hbases
  obtain ⟨parts, hparts, hcarries⟩ := Bases.planAll_carries (Bases.binary_of_capacities hcapacities)
    (Bases.tiers_ne_nil hregular.accepted hcapacities) hplan
  refine ⟨?_, ?_⟩
  · rintro rfl
    cases hcarries
    exact has hparts.symm
  · refine ((List.forall₂_and_left _ _).1 (hcarries.imp fun burst part hburst => ⟨?_, hburst⟩)).1
    obtain ⟨base, hbase, hgroup, -⟩ := hburst.base
    refine ⟨hgroup ▸ hvalid base hbase, fun hne hnil => ?_⟩
    have hmem : (Group.template, c.caller) ∈ burst.remap.cleaned.pairs :=
      List.mem_filter.2 ⟨by simp [hburst.remap], by simpa using hne.symm⟩
    rw [hnil] at hmem
    cases hmem

/-- A template that gets its first burst out has done so in a context that differs in
new components only. -/
theorem openFire_eq_ok {rest : List Burst} {c : Component}
    (h : openFire caller time template as ctx = (.ok rest, ctx')) (hctx : ctx.Regular)
    (has : as ≠ []) (hc : ctx.components[template]? = some c) :
    ∃ first ctx₁, Evolves (fun j => ctx.components.length ≤ j) ctx ctx₁ ∧
      emitBurst caller time first ctx₁ = (.ok (), ctx') ∧
      ∀ burst ∈ rest, ctx₁.Valid burst.group ∧
        (c.caller ≠ Group.template → burst.remap.cleaned.pairs ≠ []) := by
  simp only [openFire, bind_eq_ok] at h
  obtain ⟨bursts, ctx₁, hprepare, _, _, hemit, hpure⟩ := h
  obtain ⟨rfl, rfl⟩ := pure_eq_ok.1 hpure
  obtain ⟨hne, hbursts⟩ := prepare_bursts hprepare hctx has hc
  cases bursts with
  | nil => exact absurd rfl hne
  | cons first rest =>
      obtain ⟨ctx₂, hfirst, hnil⟩ := each_cons_eq_ok.1 hemit
      cases hnil
      exact ⟨first, ctx₁, evolves_of_prepare hprepare, hfirst, fun burst hburst =>
        hbursts burst (List.mem_cons_of_mem first hburst)⟩

/-- The first burst is a record of the caller. -/
theorem openFire_grows {rest : List Burst} {c c₀ : Component}
    (h : openFire caller time template as ctx = (.ok rest, ctx')) (hctx : ctx.Regular)
    (has : as ≠ []) (hc : ctx.components[template]? = some c)
    (hcaller : ctx.components[caller]? = some c₀) :
    ∃ r, ctx'.components[caller]? = some (c₀.push r) := by
  obtain ⟨first, ctx₁, hevolves, hfirst, -⟩ := openFire_eq_ok h hctx has hc
  have hlt : caller < ctx.components.length := (List.getElem?_eq_some_iff.1 hcaller).1
  obtain ⟨c₁, hc₁, -, -, hsame⟩ := hevolves.extension.component caller c₀ hcaller
  cases hsame (Nat.not_le.2 hlt)
  obtain ⟨r, -, rfl⟩ := perform_eq_ok.1 hfirst
  exact ⟨r, by simp [hc₁]⟩

/-! ## The other bursts -/

/-- A caller that has taken one burst takes others too. -/
theorem takes_of_emitBurst {burst : Burst} (h : emitBurst caller time burst ctx = (.ok (), ctx')) :
    ctx'.Takes caller time ∧ ∀ g, ctx.Valid g → ctx'.Valid g := by
  obtain ⟨r, -, rfl⟩ := perform_eq_ok.1 h
  exact ⟨takes_of_perform h, fun _ hg => hg⟩

theorem emitBurst_of_takes {burst : Burst} (h : ctx.Takes caller time)
    (hgroup : ctx.Valid burst.group) (hclean : burst.remap.cleaned.pairs ≠ []) :
    ∃ ctx', emitBurst caller time burst ctx = (.ok (), ctx') := by
  have hne : burst.remap.pairs ≠ [] := fun hnil => hclean (by simp [Remap.cleaned, hnil])
  let e : Effect := .spawn burst.group false none (some burst.remap.cleaned)
  have heffect : (Action.spawn (.group burst.group) false (.table burst.remap) 0.0).effect ctx
      = .ok e := (Action.effect_spawn_table hne).2 ⟨hclean, rfl⟩
  have htarget : ∀ g ∈ e.target?, ctx.Valid g := by simpa [e, Effect.target?] using hgroup
  exact (perform_succeeds_iff heffect).2 ⟨h, htarget⟩

/-- Bursts with valid groups and remaps that are not lost are all taken. -/
theorem each_emitBurst_of_takes {bursts : List Burst} (h : ctx.Takes caller time)
    (hbursts : ∀ burst ∈ bursts, ctx.Valid burst.group ∧ burst.remap.cleaned.pairs ≠ []) :
    ∃ ctx', Build.each (emitBurst caller time) bursts ctx = (.ok (), ctx') := by
  induction bursts generalizing ctx with
  | nil => exact ⟨ctx, rfl⟩
  | cons burst rest ih =>
      obtain ⟨hgroup, hclean⟩ := hbursts burst List.mem_cons_self
      obtain ⟨ctx₁, hburst⟩ := emitBurst_of_takes h hgroup hclean
      obtain ⟨htakes, hvalid⟩ := takes_of_emitBurst hburst
      obtain ⟨ctx', hrest⟩ := ih htakes fun other hother =>
        (hbursts other (List.mem_cons_of_mem burst hother)).imp_left (hvalid _)
      exact ⟨ctx', each_cons_eq_ok.2 ⟨ctx₁, hburst, hrest⟩⟩

/-- After the first burst of an ordinary template nothing can fail. -/
theorem each_emitBurst_of_openFire {rest : List Burst} {c : Component}
    (h : openFire caller time template as ctx = (.ok rest, ctx')) (hctx : ctx.Regular)
    (has : as ≠ []) (hc : ctx.components[template]? = some c) (hne : c.caller ≠ Group.template) :
    ∃ ctx'', Build.each (emitBurst caller time) rest ctx' = (.ok (), ctx'') := by
  obtain ⟨first, ctx₁, -, hfirst, hrest⟩ := openFire_eq_ok h hctx has hc
  obtain ⟨htakes, hvalid⟩ := takes_of_emitBurst hfirst
  exact each_emitBurst_of_takes htakes fun burst hburst =>
    ⟨hvalid _ (hrest burst hburst).1, (hrest burst hburst).2 hne⟩

end Context

/-! ## Aiming -/

theorem Context.enforceTemplate_eq_ok {ctx : Context} {template : Nat} {family : PatternFamily}
    {required : List Group} {c : Component}
    (h : ctx.enforceTemplate template family required = .ok c) :
    ctx.components[template]? = some c := by
  simp only [enforceTemplate, liftM, monadLift, MonadLift.monadLift, Except.bind_eq_ok,
    Except.guard_eq_ok, Except.mapError_eq_ok, Except.pure_eq_ok, component_eq_ok] at h
  obtain ⟨_, hc, -, -, -, rfl⟩ := h
  exact hc

theorem Pattern.aimArc_eq_ok {ctx : Context} {pool : Pool} {time : Float} {template : Nat}
    {circle : Circle} {arc : Arc} {volley : Volley}
    (h : aimArc ctx pool time template circle arc = .ok volley) :
    volley.assignments ≠ [] ∧ ∃ c, ctx.components[template]? = some c := by
  simp only [aimArc, liftM, monadLift, MonadLift.monadLift, Except.bind_eq_ok,
    Except.mapError_eq_ok, Except.pure_eq_ok] at h
  obtain ⟨_, -, c, htemplate, placed, hplaced, _, -, _, -, rfl⟩ := h
  refine ⟨fun hnil => ?_, c, Context.enforceTemplate_eq_ok htemplate⟩
  have hlen := congrArg List.length hnil
  simp only [arcAssignments, List.length_map, List.length_zip, Pool.length_take, Nat.min_self,
    List.length_nil] at hlen
  exact Arc.angles_ne_nil hplaced (List.eq_nil_of_length_eq_zero hlen)

end Barrage
