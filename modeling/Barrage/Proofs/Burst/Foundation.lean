import Barrage.Proofs.Burst.Compatible

/-!
# What a build of bases registers

A build of the bases goes through the tiers in order.  For each tier it registers a
component and fills it with the records of the base.  A component takes all of these
records or none: whether it takes one depends on its group and on the template
placeholder only (`Context.each_baseSpawn_eq_error`).

So a build that succeeds leaves a filled component for each tier.  A build that fails
leaves the filled components of the first tiers, and behind them one without records
(`Laid`).  Only a build that succeeds is kept as the bases of the context.
-/

namespace Barrage

open Build

/-- The component was registered for the base of a tier, and its records are the first
`n` records of the base. -/
structure Component.Lays (config : Config) (tier n : Nat) (c : Component) : Prop where
  name : c.name = Base.title tier
  records : c.records.map Record.effect = (List.range n).map (Base.effect config.scratchStart)

/-- The name of a component, and how many records it has. -/
def Component.given (c : Component) : String × Nat := (c.name, c.records.length)

/-- The same for the base of a tier. -/
def Base.given (tier : Nat) : String × Nat := (Base.title tier, Nat.pow 2 tier)

theorem Component.Lays.given_eq {config : Config} {tier n : Nat} {c : Component}
    (h : c.Lays config tier n) : c.given = (Base.title tier, n) := by
  have hlength : c.records.length = n := by simpa using congrArg List.length h.records
  rw [Component.given, h.name, hlength]

/-- The components that a build registers for tiers.  The flag says whether the build
succeeds. -/
inductive Laid (config : Config) : List Nat → List Component → Bool → Prop
  | done : Laid config [] [] true
  /-- The component of a tier takes no records, and the build ends. -/
  | refused {tier : Nat} {c : Component} (rest : List Nat) (hc : c.Lays config tier 0) :
      Laid config (tier :: rest) [c] false
  | base {tier : Nat} {rest : List Nat} {c : Component} {cs : List Component} {complete : Bool}
      (hc : c.Lays config tier (Nat.pow 2 tier)) (hrest : Laid config rest cs complete) :
      Laid config (tier :: rest) (c :: cs) complete

namespace Context

/-! ## One base -/

/-- A component that refuses one of the spawns of a base refuses the first. -/
theorem each_baseSpawn_eq_error {i : Nat} {start : Group} {ks : List Nat} {ctx ctx' : Context}
    {e : BuildError}
    (h : Build.each (fun k => perform i 0.0 (baseSpawn start k)) ks ctx = (.error e, ctx')) :
    ctx' = ctx := by
  cases ks with
  | nil => cases h
  | cons k rest =>
      rcases each_cons_eq_error.1 h with hfirst | ⟨ctx₁, hfirst, hrest⟩
      · exact (perform_eq_error.1 hfirst).2.symm
      · -- After the first spawn nothing stands in the way of the others.
        have htemplate : ctx₁.Valid Group.template := by
          have htarget := ((perform_succeeds_iff (effect_baseSpawn ctx start k)).1
            ⟨ctx₁, hfirst⟩).2 _ rfl
          exact (evolves_of_perform hfirst).valid htarget
        obtain ⟨ctx₂, hall⟩ :=
          each_baseSpawn_succeeds start rest (takes_of_perform hfirst) htemplate
        cases hall.symm.trans hrest

/-- A build of a base registers one component, which has all records of the base or
none. -/
theorem buildBase_lays {tier : Nat} {ctx ctx' : Context} {result : Except BuildError Base}
    (h : buildBase tier ctx = (result, ctx')) :
    ∃ c, ctx'.components = ctx.components ++ [c] ∧ ctx'.config = ctx.config ∧
      ((∃ e, result = .error e) ∧ c.Lays ctx.config tier 0 ∨
        result = .ok ⟨Nat.pow 2 tier, ctx.components.length, ctx.nextUnknown⟩ ∧
          c.Lays ctx.config tier (Nat.pow 2 tier)) := by
  obtain ⟨ctx₁, c, hcomponents, hname, -, -, hempty, hconfig, -, hbuild⟩ := buildBase_eq tier ctx
  have hc : ctx₁.components[ctx.components.length]? = some c := by
    rw [hcomponents]
    exact List.getElem?_concat_length
  rw [hbuild] at h
  rcases hloop : Build.each (fun k => perform ctx.components.length 0.0
    (baseSpawn ctx.config.scratchStart k)) (List.range (Nat.pow 2 tier)) ctx₁ with ⟨e | _, ctx₂⟩
  · cases h.symm.trans (bind_eq_error.2 (Or.inl hloop))
    cases each_baseSpawn_eq_error hloop
    exact ⟨c, hcomponents, hconfig, Or.inl ⟨⟨e, rfl⟩, hname, by simp [hempty]⟩⟩
  · cases h.symm.trans (bind_of_ok hloop)
    obtain ⟨rs, warnings, journal, hrs, rfl⟩ := each_perform_eq_ok hc hloop
    refine ⟨{ c with records := c.records ++ rs }, ?_, hconfig, Or.inr ⟨rfl, hname, ?_⟩⟩
    · simp [setComponent, hcomponents, List.set_append_right]
    · rw [hempty]
      exact effects_of_baseSpawns hrs

/-! ## All bases -/

theorem buildTiers_laid {tiers : List Nat} {ctx ctx' : Context}
    {result : Except BuildError (List Base)} (h : buildTiers tiers ctx = (result, ctx')) :
    ∃ cs, ctx'.components = ctx.components ++ cs ∧ ctx'.config = ctx.config ∧
      Laid ctx.config tiers cs result.isOk ∧
      ∀ bases, result = .ok bases →
        bases.map Base.component = List.range' ctx.components.length tiers.length := by
  induction tiers generalizing ctx ctx' result with
  | nil =>
      cases h
      exact ⟨[], by simp, rfl, .done, by rintro _ ⟨⟩; rfl⟩
  | cons tier rest ih =>
      rcases hbase : buildBase tier ctx with ⟨result₁, ctx₁⟩
      obtain ⟨c, hcomponents, hconfig, ⟨⟨e, rfl⟩, hlays⟩ | ⟨rfl, hlays⟩⟩ := buildBase_lays hbase
      · cases h.symm.trans (bind_eq_error.2 (Or.inl hbase))
        exact ⟨[c], hcomponents, hconfig, .refused rest hlays, nofun⟩
      · rw [buildTiers, bind_of_ok hbase] at h
        rcases hothers : buildTiers rest ctx₁ with ⟨result₂, ctx₂⟩
        obtain ⟨cs, hcs, hconfig', hlaid, hplaces⟩ := ih hothers
        rw [hconfig] at hconfig' hlaid
        have hall : ctx₂.components = ctx.components ++ c :: cs := by
          rw [hcs, hcomponents, List.append_assoc, List.singleton_append]
        cases result₂ with
        | error e =>
            cases h.symm.trans (bind_eq_error.2 (Or.inl hothers))
            exact ⟨c :: cs, hall, hconfig', .base hlays hlaid, nofun⟩
        | ok others =>
            cases h.symm.trans (bind_of_ok hothers)
            refine ⟨c :: cs, hall, hconfig', .base hlays hlaid, ?_⟩
            rintro _ ⟨⟩
            have hplaces := hplaces others rfl
            rw [hcomponents, List.length_append, List.length_singleton] at hplaces
            rw [List.map_cons, hplaces]
            rfl

/-- Bases that are required were there before.  Otherwise components are laid for all
tiers, and they are kept as the bases if the build succeeds. -/
theorem requireBases_laid {ctx ctx' : Context} {result : Except BuildError Bases}
    (hbases : ctx.bases = none) (h : requireBases ctx = (result, ctx')) :
    ∃ cs, ctx'.components = ctx.components ++ cs ∧
      Laid ctx.config (List.range ctx.config.tiers) cs ctx'.bases.isSome ∧
      ctx'.bases = result.toOption ∧
      ∀ b ∈ ctx'.bases,
        b.tiers.map Base.component = List.range' ctx.components.length ctx.config.tiers := by
  rcases htiers : buildTiers (List.range ctx.config.tiers) ctx with ⟨result₁, ctx₁⟩
  obtain ⟨cs, hcs, hconfig, hlaid, hplaces⟩ := buildTiers_laid htiers
  have hnone : ctx₁.bases = none := (basesElements none).buildTiers _ |>.of_run htiers hbases
  rw [requireBases_of_none hbases] at h
  cases result₁ with
  | error e =>
      have hbuild : buildBases ctx = (.error e, ctx₁) :=
        (bind_of_ok (read_apply _)).trans (bind_eq_error.2 (Or.inl htiers))
      cases h.symm.trans (bind_eq_error.2 (Or.inl hbuild))
      rw [hnone]
      exact ⟨cs, hcs, hlaid, rfl, nofun⟩
  | ok tiers =>
      have hbuild : ∃ journal, buildBases ctx =
          (.ok ⟨tiers, ctx.config.scratchStart⟩, { ctx₁ with journal }) :=
        ⟨_, (bind_of_ok (read_apply _)).trans (bind_of_ok htiers)⟩
      obtain ⟨journal, hbuild⟩ := hbuild
      cases h.symm.trans (bind_of_ok hbuild)
      refine ⟨cs, hcs, hlaid, rfl, ?_⟩
      rintro _ ⟨⟩
      simpa using hplaces tiers rfl

end Context

namespace Laid

variable {config : Config} {tiers : List Nat} {cs : List Component} {complete : Bool}

/-- Every component has records of the base of its tier only. -/
theorem lays (h : Laid config tiers cs complete) :
    ∀ c ∈ cs, ∃ tier ∈ tiers, ∃ n ≤ Nat.pow 2 tier, c.Lays config tier n := by
  induction h with
  | done => simp
  | @refused tier c rest hc =>
      simpa using Or.inl ⟨0, Nat.zero_le _, hc⟩
  | @base tier rest c cs complete hc hrest ih =>
      intro d hd
      rcases List.mem_cons.1 hd with rfl | hd
      · exact ⟨tier, by simp, _, Nat.le_refl _, hc⟩
      · obtain ⟨t, ht, hlays⟩ := ih d hd
        exact ⟨t, List.mem_cons_of_mem _ ht, hlays⟩

/-- A build for at least one tier registers a component. -/
theorem ne_nil (h : Laid config tiers cs complete) (htiers : tiers ≠ []) : cs ≠ [] := by
  cases h with
  | done => exact absurd rfl htiers
  | refused rest hc => exact List.cons_ne_nil _ _
  | base hc hrest => exact List.cons_ne_nil _ _

theorem given_of_complete (h : Laid config tiers cs true) :
    cs.map Component.given = tiers.map Base.given := by
  generalize hcomplete : true = complete at h
  induction h with
  | done => rfl
  | refused rest hc => cases hcomplete
  | base hc hrest ih => rw [List.map_cons, List.map_cons, hc.given_eq, ih hcomplete, Base.given]

/-- A build that fails ends with a component without records. -/
theorem given_of_incomplete (h : Laid config tiers cs false) :
    ∃ built tier rest, tiers = built ++ tier :: rest ∧
      cs.map Component.given = built.map Base.given ++ [(Base.title tier, 0)] := by
  generalize hcomplete : false = complete at h
  induction h with
  | done => cases hcomplete
  | @refused tier c rest hc => exact ⟨[], tier, rest, rfl, by simp [hc.given_eq]⟩
  | @base tier rest c cs complete hc hrest ih =>
      obtain ⟨built, last, after, rfl, hgiven⟩ := ih hcomplete
      exact ⟨tier :: built, last, after, rfl, by simp [hc.given_eq, hgiven, Base.given]⟩

/-- The same for a build of all tiers. -/
theorem given_of_incomplete_range {n : Nat} (h : Laid config (List.range n) cs false) :
    ∃ m < n, cs.map Component.given = (List.range m).map Base.given ++ [(Base.title m, 0)] := by
  obtain ⟨built, tier, rest, hrange, hgiven⟩ := h.given_of_incomplete
  rw [List.range_eq_range'] at hrange
  obtain ⟨m, -, rfl, hlast⟩ := List.range'_eq_append_iff.1 hrange
  obtain ⟨htier, hm, -⟩ := List.range'_eq_cons_iff.1 hlast.symm
  rw [Nat.zero_add, Nat.mul_one] at htier
  subst htier
  exact ⟨m, by omega, List.range_eq_range' ▸ hgiven⟩

end Laid

end Barrage
