import Barrage.Proofs.Burst.Plan
import Barrage.Proofs.Call

/-!
# The bases stay as they were built

The base of a tier is a component of its own.  Its records spawn the template
placeholder once for each block of the scratch area, up to its capacity.
`Bases.Intact` says so of all bases of a context, and that the bases are told
apart by their groups.

Bases that were just built are intact (`Context.requireBases_eq_ok`).  They stay
so as long as no call addresses one of them.  A call may build bases in the
middle, but bases are new components when they are built, and everything else
that a call does is done to the component it addresses or to other new ones.  So
the bases are intact in every context that is reached by calls that leave the
bases alone (`Untouched`, `Untouched.intact`).
-/

namespace Barrage

open Build

namespace Context

/-- A loop of actions on a component appends one record per action. -/
theorem each_perform_eq_ok {α : Type} {f : α → Action} {xs : List α} {i : Nat} {time : Float}
    {ctx ctx' : Context} {c : Component} (hc : ctx.components[i]? = some c)
    (h : Build.each (fun x => perform i time (f x)) xs ctx = (.ok (), ctx')) :
    ∃ rs warnings journal,
      List.Forall₂ (fun x r => ∃ ctx₁, (f x).effect ctx₁ = .ok r.effect) xs rs ∧
      ctx' =
        { ctx.setComponent i { c with records := c.records ++ rs } with warnings, journal } := by
  induction xs generalizing ctx c with
  | nil =>
      cases h
      refine ⟨[], ctx'.warnings, ctx'.journal, .nil, ?_⟩
      obtain ⟨hi, rfl⟩ := List.getElem?_eq_some_iff.1 hc
      rw [List.append_nil]
      change ctx' = { ctx' with components := ctx'.components.set i ctx'.components[i] }
      rw [List.set_getElem_self]
  | cons x xs ih =>
      obtain ⟨ctx₁, h₁, h₂⟩ := each_cons_eq_ok.1 h
      obtain ⟨r, hr, rfl⟩ := perform_eq_ok.1 h₁
      have hi : i < ctx.components.length := (List.getElem?_eq_some_iff.1 hc).1
      rw [Component.modify_push r hc] at h₂
      obtain ⟨rs, warnings, journal, hrs, rfl⟩ := ih (List.getElem?_set_self hi) h₂
      refine ⟨r :: rs, warnings, journal, .cons ⟨ctx, effect_of_draft hr⟩ hrs, ?_⟩
      simp [setComponent, Component.push]

end Context

/-! ## Building -/

/-- The placeholders are no block of the scratch area, so cleaning leaves a pair. -/
theorem Assignment.cleaned_scratch_ne_nil (start : Group) (k : Nat) :
    (scratch start k).remap.cleaned.pairs ≠ [] := by
  intro hnil
  have hall : ∀ p ∈ placeholders.pairs (scratch start k), p.1 = p.2 := by
    intro p hp
    by_contra hne
    have : p ∈ (scratch start k).remap.cleaned.pairs := List.mem_filter.2 ⟨hp, by simpa using hne⟩
    rw [hnil] at this
    cases this
  simp only [pairs, toList, placeholders, scratch, List.zip_cons_cons, List.mem_cons,
    forall_eq_or_imp] at hall
  obtain ⟨hbullet, htarget, -⟩ := hall
  rw [← hbullet] at htarget
  exact absurd htarget (by decide)

/-- The name of the base of a tier. -/
def Base.title (tier : Nat) : String := "Multitarget base " ++ toString (Nat.pow 2 tier)

/-- What a base does for one block of the scratch area. -/
def Base.effect (start : Group) (index : Nat) : Effect :=
  .spawn Group.template true none (some (Assignment.scratch start index).remap.cleaned)

/-- The component of a base is as it was built. -/
def Base.Built (start : Group) (components : List Component) (base : Base) : Prop :=
  ∃ c, components[base.component]? = some c ∧ c.caller = base.group ∧
    c.records.map Record.effect = (List.range base.capacity).map (Base.effect start)

namespace Base.Built

variable {start : Group} {components components' : List Component} {base : Base}

theorem lt_length (h : base.Built start components) : base.component < components.length := by
  obtain ⟨c, hc, -⟩ := h
  exact (List.getElem?_eq_some_iff.1 hc).1

/-- Only the component of the base matters. -/
theorem frame (h : base.Built start components)
    (hsame : components'[base.component]? = components[base.component]?) :
    base.Built start components' := by
  obtain ⟨c, hc, hrest⟩ := h
  exact ⟨c, hsame.trans hc, hrest⟩

theorem append (h : base.Built start components) (cs : List Component) :
    base.Built start (components ++ cs) :=
  h.frame (List.getElem?_append_left h.lt_length)

end Base.Built

namespace Context

theorem effect_baseSpawn (ctx : Context) (start : Group) (index : Nat) :
    (baseSpawn start index).effect ctx = .ok (Base.effect start index) :=
  (Action.effect_spawn_table (by simp [Assignment.remap, Assignment.pairs, Assignment.toList,
    Assignment.placeholders])).2 ⟨Assignment.cleaned_scratch_ne_nil start index, rfl⟩

theorem effect_of_baseSpawn {ctx : Context} {start : Group} {index : Nat} {e : Effect}
    (h : (baseSpawn start index).effect ctx = .ok e) : e = Base.effect start index := by
  cases (effect_baseSpawn ctx start index).symm.trans h
  rfl

theorem effects_of_baseSpawns {start : Group} {indices : List Nat} {rs : List Record}
    (h : List.Forall₂ (fun k r => ∃ ctx, (baseSpawn start k).effect ctx = .ok r.effect)
      indices rs) :
    rs.map Record.effect = indices.map (Base.effect start) := by
  induction h with
  | nil => rfl
  | cons hr _ ih =>
      obtain ⟨ctx, hr⟩ := hr
      rw [List.map_cons, List.map_cons, effect_of_baseSpawn hr, ih]

/-- A base is filled from an empty component that was just registered. -/
theorem buildBase_eq (tier : Nat) (ctx : Context) :
    ∃ (ctx₁ : Context) (c : Component), ctx₁.components = ctx.components ++ [c] ∧
      c.name = Base.title tier ∧ c.caller = ctx.nextUnknown ∧ c.context = none ∧ c.records = [] ∧
      ctx₁.config = ctx.config ∧ ctx₁.nextUnknown = ctx.nextUnknown + 1 ∧
      buildBase tier ctx = (do
        Build.each (fun k => perform ctx.components.length 0.0
          (baseSpawn ctx.config.scratchStart k)) (List.range (Nat.pow 2 tier))
        pure (Base.mk (Nat.pow 2 tier) ctx.components.length ctx.nextUnknown)) ctx₁ := by
  let c : Component :=
    { name := Base.title tier, caller := ctx.nextUnknown,
      layer := ctx.config.defaultLayer, spawnOrder := some false }
  let ctx₀ := (ctx.issueGroup.2.register c.name ctx.nextUnknown (some ctx.config.defaultLayer)).2
  have horder : assertSpawnOrder ctx.components.length false ctx₀ =
      (.ok (), { ctx₀ with components := ctx.components ++ [c] }) := by
    refine assertSpawnOrder_eq_ok.2 ⟨_, List.getElem?_concat_length, ?_⟩
    simp [ctx₀, c, setComponent, register, issueGroup, log]
  refine ⟨{ ctx₀ with components := ctx.components ++ [c] }, c, rfl, rfl, rfl, rfl, rfl, rfl, rfl, ?_⟩
  rw [buildBase, bind_of_ok (read_apply _), bind_of_ok (update_apply _ _),
    bind_of_ok (update_apply _ _)]
  exact bind_of_ok horder

theorem each_of_buildBase {tier : Nat} {ctx ctx' : Context} {base : Base}
    (h : buildBase tier ctx = (.ok base, ctx')) :
    base = ⟨Nat.pow 2 tier, ctx.components.length, ctx.nextUnknown⟩ ∧
      ∃ ctx₁ c, ctx₁.components = ctx.components ++ [c] ∧ c.caller = ctx.nextUnknown ∧
        c.records = [] ∧ ctx₁.config = ctx.config ∧ ctx₁.nextUnknown = ctx.nextUnknown + 1 ∧
        Build.each (fun k => perform base.component 0.0 (baseSpawn ctx.config.scratchStart k))
          (List.range base.capacity) ctx₁ = (.ok (), ctx') := by
  obtain ⟨ctx₁, c, hcomponents, -, hcaller, -, hempty, hconfig, hnext, hbuild⟩ :=
    buildBase_eq tier ctx
  rw [hbuild] at h
  obtain ⟨_, _, hloop, hpure⟩ := bind_eq_ok.1 h
  obtain ⟨rfl, rfl⟩ := pure_eq_ok.1 hpure
  exact ⟨rfl, ctx₁, c, hcomponents, hcaller, hempty, hconfig, hnext, hloop⟩

/-- The base of a tier is a new component with a fresh group. -/
theorem buildBase_eq_ok {tier : Nat} {ctx ctx' : Context} {base : Base}
    (h : buildBase tier ctx = (.ok base, ctx')) :
    base = ⟨Nat.pow 2 tier, ctx.components.length, ctx.nextUnknown⟩ ∧
      base.Built ctx.config.scratchStart ctx'.components ∧
      (∃ cs, ctx'.components = ctx.components ++ cs) ∧ ctx'.config = ctx.config ∧
      ctx'.nextUnknown = ctx.nextUnknown + 1 := by
  obtain ⟨rfl, ctx₁, c, hcomponents, hcaller, hempty, hconfig, hnext, hloop⟩ := each_of_buildBase h
  have hc : ctx₁.components[ctx.components.length]? = some c := by
    rw [hcomponents]
    exact List.getElem?_concat_length
  obtain ⟨rs, warnings, journal, hrs, rfl⟩ := each_perform_eq_ok hc hloop
  simp only [setComponent, hcomponents, List.set_append_right _ _ (Nat.le_refl _), Nat.sub_self,
    List.set_cons_zero, hempty, List.nil_append]
  exact ⟨trivial, ⟨_, List.getElem?_concat_length, hcaller, effects_of_baseSpawns hrs⟩, ⟨_, rfl⟩,
    hconfig, hnext⟩

/-- Bases that are built together are new components with fresh groups. -/
theorem buildTiers_eq_ok {tiers : List Nat} {ctx ctx' : Context} {bases : List Base}
    (h : buildTiers tiers ctx = (.ok bases, ctx')) :
    bases.map Base.capacity = tiers.map (Nat.pow 2) ∧ (bases.map Base.group).Nodup ∧
      (∀ base ∈ bases, base.Built ctx.config.scratchStart ctx'.components ∧
        ctx.components.length ≤ base.component ∧ ctx.nextUnknown ≤ base.group) ∧
      (∃ cs, ctx'.components = ctx.components ++ cs) ∧ ctx'.config = ctx.config := by
  induction tiers generalizing ctx bases with
  | nil =>
      cases h
      exact ⟨rfl, List.nodup_nil, by simp, ⟨[], by simp⟩, rfl⟩
  | cons tier rest ih =>
      simp only [buildTiers, bind_eq_ok] at h
      obtain ⟨base, ctx₁, hbase, others, ctx₂, hothers, hpure⟩ := h
      obtain ⟨rfl, rfl⟩ := pure_eq_ok.1 hpure
      obtain ⟨rfl, hbuilt, ⟨cs, hcs⟩, hconfig, hnext⟩ := buildBase_eq_ok hbase
      obtain ⟨hcap, hnodup, hall, ⟨cs', hcs'⟩, hconfig'⟩ := ih hothers
      rw [hconfig, hcs, hnext] at hall
      refine ⟨by rw [List.map_cons, hcap]; rfl, ?_, ?_, ⟨cs ++ cs', ?_⟩, hconfig'.trans hconfig⟩
      · -- Later groups are issued later.
        refine List.nodup_cons.2 ⟨fun hmem => ?_, hnodup⟩
        obtain ⟨other, hother, hgroup⟩ := List.mem_map.1 hmem
        have hlater := (hall other hother).2.2
        rw [hgroup] at hlater
        exact absurd hlater (Nat.not_succ_le_self _)
      · intro base hmem
        rcases List.mem_cons.1 hmem with rfl | hmem
        · exact ⟨hcs' ▸ hbuilt.append cs', Nat.le_refl _, Nat.le_refl _⟩
        · obtain ⟨hbuilt', hlen, hgroup⟩ := hall base hmem
          rw [List.length_append] at hlen
          exact ⟨hbuilt', by omega, Nat.le_of_succ_le hgroup⟩
      · rw [hcs', hcs, List.append_assoc]

end Context

/-! ## Intact bases -/

/-- The bases of a context are as they were built. -/
structure Bases.Intact (b : Bases) (ctx : Context) : Prop where
  scratchStart : b.scratchStart = ctx.config.scratchStart
  capacities : b.tiers.map Base.capacity = (List.range ctx.config.tiers).map (Nat.pow 2)
  /-- A group belongs to one base only. -/
  groups : (b.tiers.map Base.group).Nodup
  built : ∀ base ∈ b.tiers, base.Built ctx.config.scratchStart ctx.components

namespace Bases.Intact

variable {b : Bases} {ctx ctx' : Context}

/-- Only the configuration and the components of the bases matter. -/
theorem frame (h : b.Intact ctx) (hconfig : ctx'.config = ctx.config)
    (hsame : ∀ base ∈ b.tiers, ctx'.components[base.component]? = ctx.components[base.component]?) :
    b.Intact ctx' := by
  obtain ⟨hstart, hcap, hgroups, hbuilt⟩ := h
  rw [← hconfig] at hstart hcap hbuilt
  exact ⟨hstart, hcap, hgroups, fun base hbase => (hbuilt base hbase).frame (hsame base hbase)⟩

end Bases.Intact

namespace Context

theorem tiers_of_buildBases {ctx ctx' : Context} {b : Bases}
    (h : buildBases ctx = (.ok b, ctx')) :
    b.scratchStart = ctx.config.scratchStart ∧
      ∃ ctx₁ journal, buildTiers (List.range ctx.config.tiers) ctx = (.ok b.tiers, ctx₁) ∧
        ctx' = { ctx₁ with journal } := by
  simp only [buildBases, bind_eq_ok, read_apply, change_apply, Prod.mk.injEq, Except.ok.injEq] at h
  obtain ⟨_, _, ⟨rfl, rfl⟩, tiers, ctx₁, htiers, _, _, ⟨-, rfl⟩, hpure⟩ := h
  obtain ⟨rfl, rfl⟩ := pure_eq_ok.1 hpure
  exact ⟨rfl, ctx₁, _, htiers, rfl⟩

theorem buildBases_eq_ok {ctx ctx' : Context} {b : Bases} (h : buildBases ctx = (.ok b, ctx')) :
    b.Intact ctx' ∧ ∀ base ∈ b.tiers, ctx.components.length ≤ base.component := by
  obtain ⟨hstart, ctx₁, journal, htiers, rfl⟩ := tiers_of_buildBases h
  obtain ⟨hcap, hgroups, hall, -, hconfig⟩ := buildTiers_eq_ok htiers
  rw [← hconfig] at hstart hcap hall
  refine ⟨⟨hstart, hcap, hgroups, ?_⟩, ?_⟩
  · exact fun base hbase => (hall base hbase).1
  · exact fun base hbase => (hall base hbase).2.1

/-- The bases that the context has, if it has them, are intact. -/
def BasesIntact (ctx : Context) : Prop := ∀ b ∈ ctx.bases, b.Intact ctx

/-- The component is a base. -/
def IsBase (ctx : Context) (i : Nat) : Prop := ∃ b ∈ ctx.bases, ∃ base ∈ b.tiers, base.component = i

instance (ctx : Context) (i : Nat) : Decidable (ctx.IsBase i) :=
  inferInstanceAs (Decidable (∃ b ∈ ctx.bases, ∃ base ∈ b.tiers, base.component = i))

theorem BasesIntact.lt_length {ctx : Context} (h : ctx.BasesIntact) {i : Nat} (hi : ctx.IsBase i) :
    i < ctx.components.length := by
  obtain ⟨b, hb, base, hbase, rfl⟩ := hi
  exact ((h b hb).built base hbase).lt_length

/-- Bases stay intact while other components are edited. -/
theorem BasesIntact.evolves {A : Nat → Prop} {ctx ctx' : Context} (h : ctx.BasesIntact)
    (hbases : ctx'.bases = ctx.bases) (hevolves : Evolves A ctx ctx')
    (hA : ∀ i, ctx.IsBase i → ¬ A i) : ctx'.BasesIntact := by
  intro b hb
  rw [hbases] at hb
  refine (h b hb).frame hevolves.extension.config fun base hbase => ?_
  obtain ⟨c, hc, -⟩ := (h b hb).built base hbase
  obtain ⟨c', hc', -, -, heq⟩ := hevolves.extension.component _ c hc
  rw [hc, hc', heq (hA _ ⟨b, hb, base, hbase, rfl⟩)]

/-! ## The registry of bases -/

/-- Only the building of bases registers bases, and only when it is done. -/
theorem basesElements (o : Option Bases) : Elements (fun ctx => ctx.bases = o) fun _ => True :=
  .caches fun h hbases _ _ => hbases.trans h

theorem requireBases_of_some {ctx : Context} {b : Bases} (h : ctx.bases = some b) :
    requireBases ctx = (.ok b, ctx) := by
  simp [requireBases, bind_apply, pure_apply, h]

theorem requireBases_of_none {ctx : Context} (h : ctx.bases = none) :
    requireBases ctx = (buildBases >>= fun b => keepBases b >>= fun _ => pure b) ctx := by
  simp [requireBases, bind_apply, h]

/-- Bases that were not there before are built. -/
theorem buildBases_of_requireBases {ctx ctx' : Context} {b : Bases} (hbases : ctx.bases = none)
    (h : requireBases ctx = (.ok b, ctx')) :
    ∃ ctx₁, buildBases ctx = (.ok b, ctx₁) ∧ ctx' = { ctx₁ with bases := some b } := by
  simp only [requireBases_of_none hbases, bind_eq_ok] at h
  obtain ⟨b', ctx₁, hbuild, _, _, hkeep, hpure⟩ := h
  cases hkeep
  obtain ⟨rfl, rfl⟩ := pure_eq_ok.1 hpure
  exact ⟨ctx₁, hbuild, rfl⟩

/-- Bases that are required were there before, or they were built as new
components. -/
theorem requireBases_eq_ok {ctx ctx' : Context} {b : Bases}
    (h : requireBases ctx = (.ok b, ctx')) :
    (ctx.bases = some b ∧ ctx = ctx') ∨
      (ctx'.bases = some b ∧ b.Intact ctx' ∧
        ∀ base ∈ b.tiers, ctx.components.length ≤ base.component) := by
  cases hbases : ctx.bases with
  | some b' =>
      cases (requireBases_of_some hbases).symm.trans h
      exact Or.inl ⟨rfl, rfl⟩
  | none =>
      obtain ⟨ctx₁, hbuild, rfl⟩ := buildBases_of_requireBases hbases h
      obtain ⟨hintact, hnew⟩ := buildBases_eq_ok hbuild
      exact Or.inr ⟨rfl, hintact.frame rfl fun _ _ => rfl, hnew⟩

/-- Bases are not registered before they are complete. -/
theorem requireBases_eq_error {ctx ctx' : Context} {e : BuildError}
    (h : requireBases ctx = (.error e, ctx')) : ctx'.bases = none := by
  cases hbases : ctx.bases with
  | some b => cases (requireBases_of_some hbases).symm.trans h
  | none =>
      rw [requireBases_of_none hbases, bind_eq_error] at h
      rcases h with h | ⟨b, ctx₁, -, h⟩
      · exact (basesElements none).buildBases.of_run h hbases
      · cases h

/-- Intact bases are intact when they are required again. -/
theorem BasesIntact.of_requireBases {ctx ctx' : Context} {b : Bases} (hctx : ctx.BasesIntact)
    (h : Context.requireBases ctx = (.ok b, ctx')) :
    ctx'.bases = some b ∧ b.Intact ctx' ∧
      ∀ base ∈ b.tiers, ctx.IsBase base.component ∨ ctx.components.length ≤ base.component := by
  rcases requireBases_eq_ok h with ⟨hbases, rfl⟩ | ⟨hbases, hintact, hnew⟩
  · exact ⟨hbases, hctx b hbases, fun base hbase => Or.inl ⟨b, hbases, base, hbase, rfl⟩⟩
  · exact ⟨hbases, hintact, fun base hbase => Or.inr (hnew base hbase)⟩

theorem BasesIntact.requireBases : Keeps BasesIntact Context.requireBases := by
  intro ctx hctx
  rcases hrun : Context.requireBases ctx with ⟨e | b, ctx'⟩
  · intro b hb
    rw [requireBases_eq_error hrun] at hb
    cases hb
  · obtain ⟨hb, hintact, -⟩ := hctx.of_requireBases hrun
    intro b' hb'
    cases hb.symm.trans hb'
    exact hintact

/-- Building bases in advance leaves what requiring them leaves. -/
theorem initBases_snd (ctx : Context) :
    (Context.initBases ctx).2 = (Context.requireBases ctx).2 := by
  cases hbases : ctx.bases with
  | some b => simp [requireBases_of_some hbases, initBases, bind_apply, hbases]
  | none =>
      simp only [requireBases_of_none hbases, initBases, bind_apply, read_apply, hbases,
        Option.isSome_none, Bool.false_eq_true, if_false]
      rcases buildBases ctx with ⟨_ | _, _⟩ <;> rfl

/-- A plan is made for the bases that the context has or gets. -/
theorem prepare_eq_ok {time : Float} {template : Nat} {as : List Assignment} {ctx ctx' : Context}
    {bursts : List Burst} (h : prepare time template as ctx = (.ok bursts, ctx')) :
    ∃ c b warnings journal ctx₁ journal', ctx.components[template]? = some c ∧
      requireBases { ctx with warnings, journal } = (.ok b, ctx₁) ∧
      b.planAll c.caller as = .ok bursts ∧ ctx' = { ctx₁ with journal := journal' } := by
  simp only [prepare, planBursts, bind_eq_ok, check_eq_ok, change_apply, pure_eq_ok, Prod.mk.injEq,
    liftM, monadLift, MonadLift.monadLift, Except.mapError_eq_ok, component_eq_ok] at h
  obtain ⟨_, _, ⟨-, rfl⟩, bursts', ctx₂, ⟨c, _, ⟨hc, rfl⟩, h⟩, _, _, ⟨-, rfl⟩, rfl, rfl⟩ := h
  by_cases hspawn : c.hasSpawn
  · simp only [hspawn, if_true, bind_eq_ok, change_apply, Prod.mk.injEq, check_eq_ok] at h
    obtain ⟨_, _, ⟨-, rfl⟩, b, ctx₁, hb, hplan, rfl⟩ := h
    exact ⟨c, b, _, _, ctx₁, _, hc, hb, hplan, rfl⟩
  · simp only [hspawn, Bool.false_eq_true, if_false, bind_eq_ok, check_eq_ok] at h
    obtain ⟨b, ctx₁, hb, hplan, rfl⟩ := h
    exact ⟨c, b, ctx.warnings, ctx.journal, ctx₁, _, hc, hb, hplan, rfl⟩

end Context

/-! ## Runs that leave the bases alone -/

/-- No base is addressed by the call. -/
def Context.Spares (ctx : Context) (k : Call) : Prop := ∀ i, k.address = some i → ¬ ctx.IsBase i

instance (ctx : Context) (k : Call) : Decidable (ctx.Spares k) :=
  inferInstanceAs (Decidable (∀ i ∈ k.address, ¬ ctx.IsBase i))

/-- Contexts that are reached by calls none of which addresses a base. -/
def Untouched : Context → Prop := Run Context.Spares

/-- The bases are intact, and the component is not one of them. -/
structure Guarded (i : Nat) (ctx : Context) : Prop where
  intact : ctx.BasesIntact
  spared : ¬ ctx.IsBase i
  registered : i < ctx.components.length

/-- Everything a pattern does leaves the bases alone, if its caller is no base. -/
theorem Guarded.ingredients (i : Nat) : Ingredients (Guarded i) i where
  perform time a ctx h := by
    have hbases := (Context.basesElements ctx.bases).perform (i := i) trivial time a ctx rfl
    have hevolves := Evolves.perform (A := (· = i)) rfl time a ctx (.refl ctx)
    refine ⟨h.intact.evolves hbases hevolves fun j hj hji => h.spared (hji ▸ hj), ?_, ?_⟩
    · rw [Context.IsBase, hbases]
      exact h.spared
    · exact Nat.lt_of_lt_of_le h.registered hevolves.length_le
  warn _ _ h := ⟨fun b hb => (h.intact b hb).frame rfl fun _ _ => rfl, h.spared, h.registered⟩
  log _ _ h := ⟨fun b hb => (h.intact b hb).frame rfl fun _ _ => rfl, h.spared, h.registered⟩
  bases ctx h := by
    have hevolves := Evolves.requireBases (A := fun _ => True) (fun _ _ => trivial) ctx (.refl ctx)
    refine ⟨Context.BasesIntact.requireBases ctx h.intact, ?_,
      Nat.lt_of_lt_of_le h.registered hevolves.length_le⟩
    rintro ⟨b, hb, base, hbase, rfl⟩
    rcases hrun : Context.requireBases ctx with ⟨e | b', ctx'⟩ <;> rw [hrun] at hb
    · rw [Context.requireBases_eq_error hrun] at hb
      cases hb
    · obtain ⟨hb', -, hnew⟩ := h.intact.of_requireBases hrun
      cases hb'.symm.trans hb
      rcases hnew base hbase with hold | hnew
      · exact h.spared hold
      · exact absurd h.registered (Nat.not_lt.2 hnew)

/-- A call leaves the registry of bases alone, or does what requiring the bases
does, or fires a pattern. -/
theorem Call.run_cases (k : Call) (ctx : Context) :
    (k.run ctx).bases = ctx.bases ∨
      (k = .initBases ∨ k = .requireBases) ∧ k.run ctx = (Context.requireBases ctx).2 ∨
      ∃ caller pool p, k = .pattern caller pool p := by
  cases k with
  | initBases => exact Or.inr (Or.inl ⟨Or.inl rfl, Context.initBases_snd ctx⟩)
  | requireBases => exact Or.inr (Or.inl ⟨Or.inr rfl, rfl⟩)
  | pattern caller pool p => exact Or.inr (Or.inr ⟨caller, pool, p, rfl⟩)
  | addToSpell spell component =>
      refine Or.inl ?_
      rw [run]
      split
      next ctx' hadd =>
        obtain ⟨spells, rfl⟩ := Context.addToSpell_eq_ok hadd
        rfl
      next => rfl
  | edit i e => exact Or.inl (e.caches_run i ctx).1
  | groupLastRecord i groups =>
      refine Or.inl ?_
      rw [run]
      rcases Context.groupLastRecord_snd ctx i groups with heq | ⟨c, -, -, heq⟩ <;> rw [heq]
      rfl
  | scale i time target scaling =>
      have helements := Context.basesElements ctx.bases
      exact Or.inl (helements.scale (fun _ _ h => h) trivial time target scaling ctx rfl)
  | register | issueGroup | addSpell | drainWarnings => exact Or.inl rfl

/-- The property survives the building of bases, and all changes that leave the
registry of bases alone. -/
structure Context.Durable (P : Context → Prop) : Prop where
  evolves : ∀ {A : Nat → Prop} {ctx ctx' : Context}, P ctx → ctx'.bases = ctx.bases →
    Evolves A ctx ctx' → P ctx'
  requireBases : Keeps P Context.requireBases

namespace Context.Durable

variable {P : Context → Prop}

theorem ingredients (h : Durable P) (caller : Nat) : Ingredients P caller where
  perform time a ctx hctx :=
    h.evolves hctx ((basesElements ctx.bases).perform trivial time a ctx rfl)
      (evolves_of_perform rfl)
  warn _ ctx hctx :=
    h.evolves hctx rfl ((Evolves.refl (A := fun _ => True) ctx).note rfl rfl rfl)
  log _ ctx hctx :=
    h.evolves hctx rfl ((Evolves.refl (A := fun _ => True) ctx).note rfl rfl rfl)
  bases := h.requireBases

theorem call (h : Durable P) {ctx : Context} (hctx : P ctx) (k : Call) : P (k.run ctx) := by
  rcases k.run_cases ctx with hsame | ⟨-, hbuild⟩ | ⟨caller, pool, p, rfl⟩
  · exact h.evolves hctx hsame (k.evolves ctx)
  · rw [hbuild]
    exact h.requireBases ctx hctx
  · exact (h.ingredients caller).pattern p ⟨ctx, pool⟩ hctx

/-- A durable property that accepted configurations start with holds in all runs. -/
theorem run (h : Durable P)
    (hinit : ∀ config : Config, config.fault? = none → P (Context.ofConfig config))
    {ok : Context → Call → Prop} {ctx : Context} (hrun : Run ok ctx) : P ctx :=
  hrun.holds hinit fun k _ hctx => h.call hctx k

end Context.Durable

/-- A call that addresses no base leaves the bases intact. -/
theorem Context.BasesIntact.call {ctx : Context} (h : ctx.BasesIntact) {k : Call}
    (hk : ctx.Spares k) : (k.run ctx).BasesIntact := by
  rcases k.run_cases ctx with hsame | ⟨-, hbuild⟩ | ⟨caller, pool, p, rfl⟩
  · refine h.evolves hsame (k.evolves ctx) ?_
    rintro i hi (haddress | hnew)
    · exact hk i haddress hi
    · exact absurd (h.lt_length hi) (Nat.not_lt.2 hnew)
  · rw [hbuild]
    exact requireBases ctx h
  · by_cases hcaller : caller < ctx.components.length
    · exact ((Guarded.ingredients caller).pattern p ⟨ctx, pool⟩ ⟨h, hk caller rfl, hcaller⟩).intact
    · rw [Call.run, PatternCall.run_of_none (List.getElem?_eq_none (Nat.le_of_not_lt hcaller))]
      exact h

theorem Context.BasesIntact.ofConfig (config : Config) : (Context.ofConfig config).BasesIntact :=
  fun _ hb => nomatch hb

/-- The bases are intact after any calls that address none of them. -/
theorem Untouched.intact {ctx : Context} (h : Untouched ctx) : ctx.BasesIntact :=
  Run.holds (fun config _ => .ofConfig config) (fun _ hk hintact => hintact.call hk) h

end Barrage
