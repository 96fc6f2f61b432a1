import Barrage.Proofs.Record
import Barrage.Proofs.Regular

/-!
# Bursts expand to their assignments

A burst is a spawn of a base with an outer remap, and each record of the base is a
spawn of the template placeholder with an inner remap.  What is run in the end is
the template, with every group sent through the inner and then through the outer
remap.  `Context.expandAll?` computes this from the records alone, by reading the
texts of both remaps as a level does.

Firing a template is faithful: the records that it appends to the caller expand to
the template, once per assignment and in the order of the assignments, with the
four placeholders at the groups of the assignment (`fire_expands`).  No other group
moves, unless it belongs to the machinery of bursts.

The two layers agree since both number the scratch area in the same way.  The inner
remap of the record `k` sends the placeholders to the block `k`
(`Assignment.map_resolve` with `Assignment.remap`), and the outer remap sends the
block `k` to the assignment `k` (`Bases.mem_blockPairs`).
-/

namespace Barrage

/-! ## Expansion -/

/-- A run of a template: the group that is spawned, and where each group of the
template ends up. -/
structure Shot where
  template : Group
  place : Group → Group

/-- An assignment with all its groups sent elsewhere. -/
def Assignment.map (f : Group → Group) (a : Assignment) : Assignment :=
  ⟨f a.bullet, f a.target, f a.emitter, f a.collision⟩

/-- What takes the place of the placeholders of the template. -/
def Shot.assignment (s : Shot) : Assignment := Assignment.placeholders.map s.place

/-- The shot of a record of a base that runs under an outer remap.  The record must
spawn the template placeholder. -/
def Record.shot? (outer : Remap) (r : Record) : Option Shot := do
  let inner ← r.shownRemap?
  if r.isSpawn ∧ r.shownTarget? = some Group.template then
    some ⟨outer.resolve Group.template, fun g => outer.resolve (inner.resolve g)⟩
  else
    none

namespace Context

/-- The base that a group runs. -/
def baseOf? (ctx : Context) (g : Group) : Option Component := do
  let b ← ctx.bases
  let base ← b.tiers.find? fun base => base.group = g
  ctx.components[base.component]?

/-- The shots of a spawn of a base, in order. -/
def expand? (ctx : Context) (r : Record) : Option (List Shot) := do
  let outer ← r.shownRemap?
  let target ← r.shownTarget?
  let c ← ctx.baseOf? target
  if r.isSpawn then c.records.mapM (Record.shot? outer) else none

/-- The shots of spawns of bases, in order. -/
def expandAll? (ctx : Context) (rs : List Record) : Option (List Shot) :=
  (rs.mapM ctx.expand?).map List.flatten

end Context

/-- The shot runs the template with an assignment in the place of its placeholders,
and leaves other groups alone. -/
structure Shot.Realizes (config : Config) (template : Group) (s : Shot) (a : Assignment) :
    Prop where
  template : s.template = template
  assignment : s.assignment = a
  others : ∀ g, g ∉ Assignment.placeholders.toList → g ≠ Group.template →
    ¬ (config.scratchStart ≤ g ∧ g ≤ config.scratchEnd) → s.place g = g

/-- The records expand to the template, once per assignment and in the order of the
assignments. -/
def Context.Delivers (ctx : Context) (rs : List Record) (template : Group)
    (as : List Assignment) : Prop :=
  ∃ shots, ctx.expandAll? rs = some shots ∧
    List.Forall₂ (Shot.Realizes ctx.config template) shots as

/-! ## The scratch area -/

namespace Config

/-- The blocks of all records of a base lie in the scratch area. -/
theorem scratch_bounds {config : Config} {k : Nat} {g : Group} (hk : k < config.largestTier)
    (hg : g ∈ (Assignment.scratch config.scratchStart k).toList) :
    config.scratchStart ≤ g ∧ g ≤ config.scratchEnd := by
  have hbounds : ∀ start n i : Nat, k < n → i < 4 →
      start ≤ start + 4 * k + i ∧ start + 4 * k + i ≤ start + 4 * n - 1 := by
    intro start n i hn hi
    omega
  simp only [Assignment.scratch, Assignment.toList, stride, List.mem_cons, List.not_mem_nil,
    or_false] at hg
  rcases hg with rfl | rfl | rfl | rfl
  · exact hbounds _ _ 0 hk (by decide)
  · exact hbounds _ _ 1 hk (by decide)
  · exact hbounds _ _ 2 hk (by decide)
  · exact hbounds _ _ 3 hk (by decide)

end Config

theorem Bases.capacity_le {b : Bases} {config : Config}
    (hcapacities : b.tiers.map Base.capacity = (List.range config.tiers).map (Nat.pow 2))
    {base : Base} (hbase : base ∈ b.tiers) : base.capacity ≤ config.largestTier := by
  have hmem : base.capacity ∈ b.tiers.map Base.capacity := List.mem_map_of_mem hbase
  rw [hcapacities] at hmem
  obtain ⟨t, ht, hcap⟩ := List.mem_map.1 hmem
  have ht' : t ≤ config.tiers - 1 := by
    have := List.mem_range.1 ht
    omega
  rw [← hcap]
  exact Nat.pow_le_pow_right (by decide) ht'

/-! ## Both layers of remaps -/

namespace Assignment

/-- A remap with the pairs of two assignments sends one to the other. -/
theorem map_resolve {r : Remap} {source target : Assignment}
    (h : ∀ p ∈ source.pairs target, p ∈ r.pairs) : source.map r.resolve = target := by
  have hresolve : ∀ p ∈ source.pairs target, r.resolve p.1 = p.2 := fun p hp =>
    Remap.resolve_of_mem (h p hp)
  simp only [pairs, toList, List.zip_cons_cons, List.zip_nil_right, List.mem_cons, List.not_mem_nil,
    or_false, forall_eq_or_imp, forall_eq] at hresolve
  obtain ⟨hbullet, htarget, hemitter, hcollision⟩ := hresolve
  simp only [map, hbullet, htarget, hemitter, hcollision]

end Assignment

namespace Bases

theorem mem_blockPairs {start : Group} {index : Nat} {as : List Assignment}
    {p : Group × Group} :
    p ∈ blockPairs start index as ↔
      ∃ k a, as[k]? = some a ∧ p ∈ (Assignment.scratch start (index + k)).pairs a := by
  induction as generalizing index with
  | nil => simp [blockPairs]
  | cons a rest ih =>
      rw [blockPairs, List.mem_append, ih]
      constructor
      · rintro (hp | ⟨k, a', ha', hp⟩)
        · exact ⟨0, a, rfl, hp⟩
        · exact ⟨k + 1, a', ha', by rwa [← Nat.add_assoc, Nat.add_right_comm]⟩
      · rintro ⟨_ | k, a', ha', hp⟩
        · cases ha'
          exact Or.inl hp
        · exact Or.inr ⟨k, a', ha', by rwa [Nat.add_right_comm, Nat.add_assoc]⟩

end Bases

/-- The shot of the record `k` of a base under an outer remap. -/
def Base.shot (outer : Remap) (start : Group) (k : Nat) : Shot :=
  ⟨outer.resolve Group.template,
    fun g => outer.resolve ((Assignment.scratch start k).remap.resolve g)⟩

namespace Base

variable {config : Config} {template : Group} {outer : Remap} {part : List Assignment}

/-- The inner remap leads to the block `k`, and the outer remap from there to the
assignment `k`. -/
theorem shot_assignment {start : Group}
    (houter : outer.pairs = (Group.template, template) :: Bases.blockPairs start 0 part) {k : Nat}
    {a : Assignment} (ha : part[k]? = some a) : (shot outer start k).assignment = a := by
  have hinner := Assignment.map_resolve (r := (Assignment.scratch start k).remap) fun p hp => hp
  have hblock : ∀ p ∈ (Assignment.scratch start k).pairs a, p ∈ outer.pairs := by
    intro p hp
    rw [houter]
    exact List.mem_cons_of_mem _ (Bases.mem_blockPairs.2 ⟨k, a, ha, by rwa [Nat.zero_add]⟩)
  calc (shot outer start k).assignment
      = (Assignment.placeholders.map (Assignment.scratch start k).remap.resolve).map
          outer.resolve := rfl
    _ = (Assignment.scratch start k).map outer.resolve := by rw [hinner]
    _ = a := Assignment.map_resolve hblock

/-- The outer remap of a burst moves the template placeholder and the scratch area
only. -/
theorem resolve_outer
    (houter : outer.pairs =
      (Group.template, template) :: Bases.blockPairs config.scratchStart 0 part)
    (hlen : part.length ≤ config.largestTier) {g : Group} (htemplate : g ≠ Group.template)
    (hscratch : ¬ (config.scratchStart ≤ g ∧ g ≤ config.scratchEnd)) : outer.resolve g = g := by
  refine Remap.resolve_of_not_source fun p hp hpg => ?_
  rw [houter] at hp
  rcases List.mem_cons.1 hp with rfl | hp
  · exact htemplate hpg.symm
  · obtain ⟨j, a, ha, hp⟩ := Bases.mem_blockPairs.1 hp
    have hj : j < part.length := (List.getElem?_eq_some_iff.1 ha).1
    rw [Nat.zero_add] at hp
    refine hscratch (Config.scratch_bounds (Nat.lt_of_lt_of_le hj hlen) ?_)
    exact hpg ▸ (List.of_mem_zip (a := p.1) (b := p.2) hp).1

/-- The record `k` of a base runs the assignment `k` of a burst. -/
theorem shot_realizes
    (houter : outer.pairs =
      (Group.template, template) :: Bases.blockPairs config.scratchStart 0 part)
    (hlen : part.length ≤ config.largestTier) {k : Nat} {a : Assignment} (ha : part[k]? = some a) :
    (shot outer config.scratchStart k).Realizes config template a := by
  refine ⟨Remap.resolve_of_mem (by simp [houter]), shot_assignment houter ha, ?_⟩
  intro g hplaceholder htemplate hscratch
  have hinner : (Assignment.scratch config.scratchStart k).remap.resolve g = g := by
    refine Remap.resolve_of_not_source fun p hp hpg => hplaceholder ?_
    exact hpg ▸ (List.of_mem_zip (a := p.1) (b := p.2) hp).1
  simp only [shot, hinner]
  exact resolve_outer houter hlen htemplate hscratch

end Base

/-! ## Reading the records -/

theorem Remap.fits_iff {r : Remap} :
    r.Fits ↔ ∀ p ∈ r.pairs, p.1 ≤ Group.greatest ∧ p.2 ≤ Group.greatest := by
  simp only [Fits, flatten, List.mem_flatMap, List.mem_cons, List.not_mem_nil, or_false]
  constructor
  · exact fun h p hp => ⟨h p.1 ⟨p, hp, Or.inl rfl⟩, h p.2 ⟨p, hp, Or.inr rfl⟩⟩
  · rintro h g ⟨p, hp, rfl | rfl⟩
    · exact (h p hp).1
    · exact (h p hp).2

/-- All groups of the assignment have at most 32 bits. -/
def Assignment.Fits (a : Assignment) : Prop := ∀ g ∈ a.toList, g ≤ Group.greatest

instance (a : Assignment) : Decidable a.Fits :=
  inferInstanceAs (Decidable (∀ g ∈ a.toList, g ≤ Group.greatest))

theorem Assignment.Fits.pairs {source target : Assignment} (hs : source.Fits) (ht : target.Fits) :
    ∀ p ∈ source.pairs target, p.1 ≤ Group.greatest ∧ p.2 ≤ Group.greatest := by
  intro p hp
  obtain ⟨h₁, h₂⟩ := List.of_mem_zip (a := p.1) (b := p.2) hp
  exact ⟨hs _ h₁, ht _ h₂⟩

theorem Assignment.fits_placeholders : placeholders.Fits := by
  decide

/-- The groups of a configuration have at most 32 bits. -/
theorem Config.fits_scratch {config : Config} (hfault : config.fault? = none)
    (hmax : config.maxGroup ≤ Group.greatest) {k : Nat} (hk : k < config.largestTier) :
    (Assignment.scratch config.scratchStart k).Fits := fun _ hg =>
  Nat.le_trans (scratch_bounds hk hg).2 (Nat.le_trans (bounds_of_fault? hfault).2 hmax)

/-- A record of a base is read as it was built. -/
theorem Record.shot?_of_effect {r : Record} {start : Group} {k : Nat} (outer : Remap)
    (h : r.effect = Base.effect start k) (hfit : (Assignment.scratch start k).Fits) :
    r.shot? outer = some (Base.shot outer start k) := by
  have hremap : (Assignment.scratch start k).remap.Fits :=
    Remap.fits_iff.2 (Assignment.fits_placeholders.pairs hfit)
  have hspawn : r.isSpawn := by
    rw [isSpawn, h]
    rfl
  simp [shot?, shownRemap?_of_spawn h (Assignment.cleaned_scratch_ne_nil start k) hremap.cleaned,
    shownTarget?_of_spawn h, hspawn, Base.shot, Remap.resolve_cleaned]

/-- The records of a base are read one by one. -/
theorem Record.mapM_shot? {rs : List Record} {ks : List Nat} {start : Group} (outer : Remap)
    (h : rs.map Record.effect = ks.map (Base.effect start))
    (hfit : ∀ k ∈ ks, (Assignment.scratch start k).Fits) :
    rs.mapM (Record.shot? outer) = some (ks.map (Base.shot outer start)) := by
  induction ks generalizing rs with
  | nil =>
      obtain rfl : rs = [] := by simpa using h
      rfl
  | cons k ks ih =>
      obtain ⟨r, rest, rfl, hr, hrest⟩ := List.map_eq_cons_iff.1 h
      have hshot := Record.shot?_of_effect outer hr (hfit k List.mem_cons_self)
      have hshots := ih hrest fun k' hk' => hfit k' (List.mem_cons_of_mem k hk')
      simp [List.mapM_cons, hshot, hshots]

/-- The action that spawns a burst. -/
def Burst.action (burst : Burst) : Action :=
  .spawn (.group burst.group) false (.table burst.remap) 0.0

/-- The record is one that spawns the burst. -/
def Burst.Emits (burst : Burst) (r : Record) : Prop :=
  ∃ ctx, burst.action.effect ctx = .ok r.effect

/-- The context has intact bases, and its hand-assigned groups have at most 32
bits. -/
structure Context.Armed (ctx : Context) (b : Bases) : Prop where
  bases : ctx.bases = some b
  intact : b.Intact ctx
  accepted : ctx.config.fault? = none
  fits : ctx.config.maxGroup ≤ Group.greatest

namespace Context.Armed

variable {ctx : Context} {b : Bases}

/-- The group of a base leads to the component of the base. -/
theorem baseOf? (h : ctx.Armed b) {base : Base} (hbase : base ∈ b.tiers) {c : Component}
    (hc : ctx.components[base.component]? = some c) : ctx.baseOf? base.group = some c := by
  have hfind : b.tiers.find? (fun other => other.group = base.group) = some base := by
    obtain ⟨before, after, heq⟩ := List.append_of_mem hbase
    refine List.find?_eq_some_iff_append.2 ⟨by simp, before, after, heq, fun other hother => ?_⟩
    have hnodup := h.intact.groups
    rw [heq, List.map_append, List.nodup_append] at hnodup
    simpa using hnodup.2.2 _ (List.mem_map_of_mem hother) base.group (by simp)
  simp [Context.baseOf?, h.bases, hfind, hc]

/-- The outer remap of a burst is read as it was planned. -/
theorem fits_burst (h : ctx.Armed b) {template : Group} (htemplate : template ≤ Group.greatest)
    {burst : Burst} {part : List Assignment} (hcarries : b.Carries template burst part)
    (hpart : ∀ a ∈ part, a.Fits) : burst.remap.Fits := by
  obtain ⟨base, hbase, -, hcap⟩ := hcarries.base
  rw [Remap.fits_iff, hcarries.remap, h.intact.scratchStart]
  intro p hp
  rcases List.mem_cons.1 hp with rfl | hp
  · exact ⟨(by decide : Group.template ≤ Group.greatest), htemplate⟩
  · obtain ⟨k, a, ha, hp⟩ := Bases.mem_blockPairs.1 hp
    have hk : k < ctx.config.largestTier := by
      have := (List.getElem?_eq_some_iff.1 ha).1
      have := Bases.capacity_le h.intact.capacities hbase
      omega
    rw [Nat.zero_add] at hp
    exact (Config.fits_scratch h.accepted h.fits hk).pairs (hpart a (List.mem_of_getElem? ha)) p hp

/-- A burst expands to the part of the assignments that it carries. -/
theorem expand? (h : ctx.Armed b) {template : Group} (htemplate : template ≤ Group.greatest)
    {burst : Burst} {part : List Assignment} (hcarries : b.Carries template burst part)
    (hpart : ∀ a ∈ part, a.Fits) {r : Record} (hne : burst.remap.cleaned.pairs ≠ [])
    (hr : r.effect = .spawn burst.group false none (some burst.remap.cleaned)) :
    ∃ shots, ctx.expand? r = some shots ∧
      List.Forall₂ (Shot.Realizes ctx.config template) shots part := by
  obtain ⟨base, hbase, hgroup, hcap⟩ := hcarries.base
  obtain ⟨c, hc, -, heffects⟩ := h.intact.built base hbase
  have hle := Bases.capacity_le h.intact.capacities hbase
  have hfits := h.fits_burst htemplate hcarries hpart
  have hspawn : r.isSpawn := by
    rw [Record.isSpawn, hr]
    rfl
  have hshots := Record.mapM_shot? burst.remap.cleaned heffects fun k hk =>
    Config.fits_scratch h.accepted h.fits (Nat.lt_of_lt_of_le (List.mem_range.1 hk) hle)
  refine ⟨(List.range base.capacity).map
    (Base.shot burst.remap.cleaned ctx.config.scratchStart), ?_, ?_⟩
  · simp only [Context.expand?, Record.shownRemap?_of_spawn hr hne hfits.cleaned,
      Record.shownTarget?_of_spawn hr, ← hgroup, h.baseOf? hbase hc, hspawn, if_true, hshots,
      Option.bind_eq_bind, Option.bind_some]
  · rw [List.forall₂_iff_get]
    refine ⟨by simpa using hcap, fun k hk hk' => ?_⟩
    have hremap := hcarries.remap
    rw [h.intact.scratchStart] at hremap
    have hshot := Base.shot_realizes hremap (hcap ▸ hle) (List.getElem?_eq_getElem hk')
    simpa [Base.shot, Remap.resolve_cleaned] using hshot

/-- Bursts that carry consecutive parts of the assignments expand to the whole of
them. -/
theorem delivers (h : ctx.Armed b) {template : Group} (htemplate : template ≤ Group.greatest)
    {bursts : List Burst} {parts : List (List Assignment)}
    (hcarries : List.Forall₂ (b.Carries template) bursts parts)
    (hfits : ∀ a ∈ parts.flatten, a.Fits) {rs : List Record}
    (hrs : List.Forall₂ Burst.Emits bursts rs) :
    ctx.Delivers rs template parts.flatten := by
  induction hcarries generalizing rs with
  | nil =>
      cases hrs
      exact ⟨[], rfl, .nil⟩
  | @cons burst part bursts parts hburst _ ih =>
      cases hrs with
      | @cons _ r _ rs hr hrs =>
          obtain ⟨ctx₁, hr⟩ := hr
          obtain ⟨hne, hr⟩ := (Action.effect_spawn_table (by simp [hburst.remap])).1 hr
          simp only [List.flatten_cons, List.mem_append] at hfits
          obtain ⟨shots, hshots, hpart⟩ :=
            h.expand? htemplate hburst (fun a ha => hfits a (Or.inl ha)) hne hr.symm
          obtain ⟨others, hothers, hparts⟩ := ih (fun a ha => hfits a (Or.inr ha)) hrs
          refine ⟨shots ++ others, ?_, List.rel_append hpart hparts⟩
          obtain ⟨lists, hlists, rfl⟩ := Option.map_eq_some_iff.1 hothers
          simp [Context.expandAll?, List.mapM_cons, hshots, hlists]

end Context.Armed

/-! ## Firing -/

namespace Context

open Build

/-- What has happened after a template was fired: a plan for some bases was made,
and its bursts were appended to the caller. -/
structure Fired (ctx ctx' : Context) (caller : Nat) (c₀ : Component) (template : Group)
    (as : List Assignment) (b : Bases) (bursts : List Burst) (added : List Record) : Prop where
  plan : b.planAll template as = .ok bursts
  bases : ctx'.bases = some b
  config : ctx'.config = ctx.config
  /-- The bases are intact but for the new records. -/
  intact : b.Intact (ctx'.setComponent caller c₀)
  /-- The bases were there before, or they are new components. -/
  places : ∀ base ∈ b.tiers, ctx.IsBase base.component ∨ ctx.components.length ≤ base.component
  appended : ctx'.components[caller]? = some { c₀ with records := c₀.records ++ added }
  emitted : List.Forall₂ Burst.Emits bursts added

theorem BasesIntact.fired {caller template : Nat} {time : Float} {as : List Assignment}
    {ctx ctx' : Context} {c₀ c : Component} (hctx : ctx.BasesIntact)
    (hcaller : ctx.components[caller]? = some c₀) (htemplate : ctx.components[template]? = some c)
    (h : fire caller time template as ctx = (.ok (), ctx')) :
    ∃ b bursts added, Fired ctx ctx' caller c₀ c.caller as b bursts added := by
  obtain ⟨bursts, _, hprepare, hemit⟩ := bind_eq_ok.1 h
  obtain ⟨c', b, warnings, journal, ctx₁, journal', hc', hb, hplan, rfl⟩ := prepare_eq_ok hprepare
  cases htemplate.symm.trans hc'
  let noted : Context := { ctx with warnings, journal }
  have hnoted : noted.BasesIntact := fun b hb => (hctx b hb).frame rfl fun _ _ => rfl
  obtain ⟨hbases, hintact, hplaces⟩ := hnoted.of_requireBases hb
  have hevolves : Evolves (fun j => ctx.components.length ≤ j) noted ctx₁ :=
    (Evolves.requireBases fun _ hj => hj).of_run hb (.refl noted)
  -- The caller was there before, so the building of bases did not touch it.
  have hlt : caller < ctx.components.length := (List.getElem?_eq_some_iff.1 hcaller).1
  obtain ⟨c₁, hc₁, -, -, hsame⟩ := hevolves.extension.component caller c₀ hcaller
  obtain rfl : c₁ = c₀ := hsame (Nat.not_le.2 hlt)
  have hc₂ : ({ ctx₁ with journal := journal' } : Context).components[caller]? = some c₁ := hc₁
  obtain ⟨added, warnings', journal'', hadded, rfl⟩ :=
    each_perform_eq_ok (f := Burst.action) hc₂ hemit
  obtain ⟨hlt₁, hget⟩ := List.getElem?_eq_some_iff.1 hc₁
  refine ⟨b, bursts, added, hplan, hbases, hevolves.extension.config, hintact.frame rfl ?_, hplaces,
    List.getElem?_set_self hlt₁, hadded⟩
  intro base _
  simp only [setComponent, List.set_set, ← hget, List.set_getElem_self]

end Context

/-- Firing a template from a component appends records to it that expand to the
template, once per assignment.  The new records do not count as records of a base,
which matters only if the caller is a base itself. -/
theorem fire_expands {ctx ctx' : Context} {caller template : Nat} {time : Float}
    {as : List Assignment} {c₀ c : Component} (h : Untouched ctx)
    (hmax : ctx.config.maxGroup ≤ Group.greatest) (hcaller : ctx.components[caller]? = some c₀)
    (htemplate : ctx.components[template]? = some c) (hgroup : c.caller ≤ Group.greatest)
    (hfits : ∀ a ∈ as, a.Fits)
    (hfire : Context.fire caller time template as ctx = (.ok (), ctx')) :
    ∃ added, ctx'.components[caller]? = some { c₀ with records := c₀.records ++ added } ∧
      (ctx'.setComponent caller c₀).Delivers added c.caller as ∧
      (¬ ctx.IsBase caller → ctx'.Delivers added c.caller as) := by
  obtain ⟨b, bursts, added, hfired⟩ := h.intact.fired hcaller htemplate hfire
  have hlt : caller < ctx.components.length := (List.getElem?_eq_some_iff.1 hcaller).1
  have hcapacities := hfired.intact.capacities
  have haccepted : ctx'.config.fault? = none := hfired.config ▸ h.regular.accepted
  obtain ⟨parts, rfl, hcarries⟩ := Bases.planAll_carries (Bases.binary_of_capacities hcapacities)
    (Bases.tiers_ne_nil haccepted hcapacities) hfired.plan
  have hdelivers : ∀ ctx₂ : Context, ctx₂.bases = some b → ctx₂.config = ctx.config →
      b.Intact ctx₂ → ctx₂.Delivers added c.caller parts.flatten := by
    intro ctx₂ hbases hconfig hintact
    have harmed : ctx₂.Armed b := ⟨hbases, hintact, hconfig ▸ h.regular.accepted, hconfig ▸ hmax⟩
    exact harmed.delivers hgroup hcarries hfits hfired.emitted
  refine ⟨added, hfired.appended, ?_, fun hspared => ?_⟩
  · exact hdelivers _ hfired.bases hfired.config hfired.intact
  · refine hdelivers ctx' hfired.bases hfired.config (hfired.intact.frame rfl fun base hbase => ?_)
    have hne : caller ≠ base.component := by
      rintro rfl
      rcases hfired.places base hbase with hold | hnew
      · exact hspared hold
      · exact absurd hlt (Nat.not_lt.2 hnew)
    exact (List.getElem?_set_ne hne).symm

/-- A caller and a template.  The bases will have the capacities 1 and 2. -/
def callerAndTemplate : Context :=
  (Call.register "Template" 37 none).run
    ((Call.register "Caller" 36 none).run (Context.ofConfig { tiers := 2 }))

theorem untouched_callerAndTemplate : Untouched callerAndTemplate := by
  have hconfig : Context.withConfig { tiers := 2 } = .ok (Context.ofConfig { tiers := 2 }) :=
    Context.withConfig_eq_ok.2 ⟨by decide, rfl⟩
  exact .call _ (.call _ (.withConfig hconfig) fun _ h => nomatch h) fun _ h => nomatch h

/-- More assignments than the two bases can spawn together.  Two groups of the first
are in their place already. -/
def fiveAssignments : List Assignment :=
  [⟨7001, 601, 30, 7004⟩, ⟨502, 602, 30, 702⟩, ⟨503, 603, 30, 703⟩, ⟨504, 604, 30, 704⟩,
    ⟨505, 605, 30, 705⟩]

theorem fire_expands_above_ceiling :
    callerAndTemplate.config.ceiling < fiveAssignments.length ∧
      ∃ ctx', Context.fire 0 0.0 1 fiveAssignments callerAndTemplate = (.ok (), ctx') ∧
        ∃ added c, ctx'.components[0]? = some c ∧ c.records = added ∧ added.length = 3 ∧
          ctx'.Delivers added 37 fiveAssignments := by
  have hok : (Context.fire 0 0.0 1 fiveAssignments callerAndTemplate).1.isOk := by decide +kernel
  have hlen : ((Context.fire 0 0.0 1 fiveAssignments callerAndTemplate).2.components[0]?.map
      (·.records.length)) = some 3 := by decide +kernel
  rcases hrun : Context.fire 0 0.0 1 fiveAssignments callerAndTemplate with ⟨_ | _, ctx'⟩
  · rw [hrun] at hok
    cases hok
  · obtain ⟨added, hadded, -, hdelivers⟩ := fire_expands untouched_callerAndTemplate (by decide)
      rfl rfl (by decide) (by decide) hrun
    rw [hrun, hadded] at hlen
    refine ⟨by decide, ctx', rfl, added, _, hadded, rfl, ?_, hdelivers ?_⟩
    · simpa using hlen
    · rintro ⟨b, hb, -⟩
      cases hb

end Barrage
