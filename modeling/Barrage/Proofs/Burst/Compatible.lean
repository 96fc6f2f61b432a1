import Barrage.Proofs.Regular

/-!
# Which configurations compile

A configuration is checked before it is used, but the check does not look at everything
that bursts need.  Two kinds of accepted configurations do not compile.

* The bases cannot be built.  Every record of a base acts on the template placeholder
  and is owned by the group that was issued for the base.  Both must be valid when the
  base is built, and nothing keeps a configuration from reserving them, or from ending
  the hand-assigned groups below the placeholder (`Config.HostsBases`).
* Some plan is refused.  The remap of a burst sends the template placeholder to the
  template and the scratch groups of its base to the assignments.  If the placeholder is
  one of these scratch groups, it would be a source twice.  A burst uses as much of the
  scratch area as the largest power of two up to the number of its assignments asks for.

Besides, the counter of issued groups must have room for the groups of the bases.
`config_compiles` says that nothing else stands in the way.
-/

namespace Barrage

open Build

/-! ## Building the bases -/

/-- The template placeholder and the groups of all bases are valid when they are needed.
The placeholder may be the first group that is issued. -/
structure Config.HostsBases (config : Config) : Prop where
  unreserved : Group.template ∉ config.reserved
  known : Group.template ≤ config.maxGroup ∨ Group.template = config.unknownStart
  issued : ∀ k < config.tiers, config.unknownStart + k ∉ config.reserved

/-- The same for one base, whose group is issued next. -/
def Config.HostsBase (config : Config) (next : Group) : Prop :=
  Group.template ∉ config.reserved ∧
    (Group.template ≤ config.maxGroup ∨
      config.unknownStart ≤ Group.template ∧ Group.template ≤ next) ∧
    next ∉ config.reserved

theorem Config.hostsBase_of_known {config : Config} {next : Group}
    (hunreserved : Group.template ∉ config.reserved)
    (hknown : Group.template ≤ config.maxGroup ∨ Group.template = config.unknownStart)
    (hnext : config.unknownStart ≤ next) (hfree : next ∉ config.reserved) :
    config.HostsBase next := by
  refine ⟨hunreserved, hknown.imp_right fun hfirst => ?_, hfree⟩
  rw [hfirst]
  exact ⟨Nat.le_refl _, hnext⟩

theorem Config.forall_hostsBase {config : Config} (h : 1 ≤ config.tiers) :
    (∀ k < config.tiers, config.HostsBase (config.unknownStart + k)) ↔ config.HostsBases := by
  constructor
  · intro hall
    obtain ⟨hunreserved, hknown, -⟩ := hall 0 h
    refine ⟨hunreserved, hknown.imp_right ?_, fun k hk => (hall k hk).2.2⟩
    rintro ⟨hlow, hhigh⟩
    exact Nat.le_antisymm hhigh hlow
  · rintro ⟨hunreserved, hknown, hissued⟩ k hk
    exact hostsBase_of_known hunreserved hknown (Nat.le_add_right _ _) (hissued k hk)

/-- Where the counter is after a build of `n` bases that begins at a group.  A complete build
has issued a group for each base.  One that is refused ends with the first group that hosts
no base. -/
inductive Config.Issues (config : Config) (next : Group) (n : Nat) : Bool → Group → Prop
  | complete (hosts : ∀ k < n, config.HostsBase (next + k)) : Issues config next n true (next + n)
  | refused {k : Nat} (hk : k < n) (before : ∀ j < k, config.HostsBase (next + j))
      (last : ¬ config.HostsBase (next + k)) : Issues config next n false (next + k + 1)

namespace Config.Issues

variable {config : Config} {next last : Group} {n : Nat} {complete : Bool}

/-- The build of a base comes before the build of the others. -/
theorem cons (hfirst : config.HostsBase next) (h : config.Issues (next + 1) n complete last) :
    config.Issues next (n + 1) complete last := by
  have hshift (k : Nat) : next + 1 + k = next + (k + 1) := by
    rw [Nat.add_assoc, Nat.add_comm 1]
  have hcons {m : Nat} (h : ∀ k < m, config.HostsBase (next + 1 + k)) :
      ∀ k < m + 1, config.HostsBase (next + k) := by
    rintro (_ | k) hk
    · exact hfirst
    · exact hshift k ▸ h k (Nat.lt_of_succ_lt_succ hk)
  cases h with
  | complete hosts =>
      rw [hshift]
      exact .complete (hcons hosts)
  | @refused k hk before hlast =>
      rw [hshift] at hlast ⊢
      exact .refused (Nat.succ_lt_succ hk) (hcons before) hlast

theorem complete_iff (h : config.Issues next n complete last) :
    complete = true ↔ ∀ k < n, config.HostsBase (next + k) := by
  cases h with
  | complete hosts => exact iff_of_true rfl hosts
  | refused hk _ hlast => exact iff_of_false Bool.false_ne_true fun hall => hlast (hall _ hk)

theorem last_of_complete (h : config.Issues next n true last) : last = next + n := by
  cases h
  rfl

theorem exists_of_refused (h : config.Issues next n false last) :
    ∃ g, next ≤ g ∧ ¬ config.HostsBase g ∧ last = g + 1 := by
  cases h with
  | refused _ _ hlast => exact ⟨_, Nat.le_add_right _ _, hlast, rfl⟩

theorem le_add (h : config.Issues next n complete last) : last ≤ next + n := by
  cases h with
  | complete => exact Nat.le_refl _
  | refused hk => exact Nat.add_le_add_left hk _

/-- No build goes beyond a group that hosts no base. -/
theorem le_succ {g : Group} (h : config.Issues next n complete last) (hg : next ≤ g)
    (hrefused : ¬ config.HostsBase g) : last ≤ g + 1 := by
  obtain ⟨k, rfl⟩ := Nat.exists_eq_add_of_le hg
  cases h with
  | complete hosts =>
      have hk : n ≤ k := Nat.le_of_not_lt fun hlt => hrefused (hosts k hlt)
      exact Nat.le_succ_of_le (Nat.add_le_add_left hk _)
  | refused hj before _ =>
      have hk : _ ≤ k := Nat.le_of_not_lt fun hlt => hrefused (before k hlt)
      exact Nat.succ_le_succ (Nat.add_le_add_left hk _)

end Config.Issues

namespace Context

variable {ctx : Context}

theorem hosts_template_iff (h : ctx.config.unknownStart ≤ ctx.nextUnknown) :
    ctx.Hosts Group.template ↔ ctx.config.HostsBase ctx.nextUnknown := by
  have hpos : 1 ≤ Group.template := by decide
  rw [Hosts, valid_iff, valid_iff, Config.HostsBase]
  simp only [issueGroup, Nat.lt_succ_iff, hpos, h, Nat.le_refl, true_and, and_true, or_true,
    and_assoc]

/-- A loop of spawns in a base goes through if the base can take records on the template
placeholder. -/
theorem each_baseSpawn_succeeds {i : Nat} (start : Group) (ks : List Nat)
    (htakes : ctx.Takes i 0.0) (htemplate : ctx.Valid Group.template) :
    ∃ ctx', Build.each (fun k => perform i 0.0 (baseSpawn start k)) ks ctx = (.ok (), ctx') := by
  let P (ctx₁ : Context) : Prop := ctx₁.Takes i 0.0 ∧ ctx₁.Valid Group.template
  have hround : ∀ k ∈ ks, ∀ ctx₁, P ctx₁ → ∃ ctx₂,
      perform i 0.0 (baseSpawn start k) ctx₁ = (.ok (), ctx₂) ∧ P ctx₂ := by
    rintro k - ctx₁ ⟨htakes₁, htemplate₁⟩
    have htarget : ∀ g ∈ (Base.effect start k).target?, ctx₁.Valid g := by
      rintro g ⟨⟩
      exact htemplate₁
    obtain ⟨ctx₂, hperform⟩ :=
      (perform_succeeds_iff (effect_baseSpawn ctx₁ start k)).2 ⟨htakes₁, htarget⟩
    refine ⟨ctx₂, hperform, takes_of_perform hperform, ?_⟩
    obtain ⟨r, -, rfl⟩ := perform_eq_ok.1 hperform
    exact htemplate₁
  obtain ⟨ctx', hloop, -⟩ := each_succeeds (P := P) ⟨htakes, htemplate⟩ hround
  exact ⟨ctx', hloop⟩

/-- A base can be built if its component can take a record. -/
theorem buildBase_succeeds_iff (tier : Nat) (ctx : Context) :
    (∃ base ctx', buildBase tier ctx = (.ok base, ctx')) ↔ ctx.Hosts Group.template := by
  obtain ⟨ctx₁, c, hcomponents, -, hcaller, hcontext, -, hconfig, hnext, hbuild⟩ :=
    buildBase_eq tier ctx
  have hc : ctx₁.components[ctx.components.length]? = some c := by
    rw [hcomponents]
    exact List.getElem?_concat_length
  have hgroups : c.recordGroups = [ctx.nextUnknown] := by
    rw [Component.recordGroups, hcaller, hcontext]
    rfl
  have hvalid : ∀ g, ctx₁.Valid g ↔ ctx.issueGroup.2.Valid g := by
    intro g
    rw [valid_iff, valid_iff, hconfig, hnext]
    rfl
  rw [hbuild]
  constructor
  · rintro ⟨base, ctx', h⟩
    obtain ⟨_, ctx₂, hloop, -⟩ := bind_eq_ok.1 h
    cases hrange : List.range (Nat.pow 2 tier) with
    | nil => exact absurd (List.range_eq_nil.1 hrange) (Nat.ne_of_gt (Nat.two_pow_pos tier))
    | cons k rest =>
        -- The first spawn shows that the groups are valid.
        rw [hrange] at hloop
        obtain ⟨ctx₃, hfirst, -⟩ := each_cons_eq_ok.1 hloop
        obtain ⟨⟨c', hc', -, howners⟩, htarget⟩ :=
          (perform_succeeds_iff (effect_baseSpawn ctx₁ ctx.config.scratchStart k)).1 ⟨ctx₃, hfirst⟩
        cases hc.symm.trans hc'
        exact ⟨(hvalid _).1 (htarget _ rfl), (hvalid _).1 (howners _ (by simp [hgroups]))⟩
  · rintro ⟨htemplate, hissued⟩
    have htakes : ctx₁.Takes ctx.components.length 0.0 :=
      ⟨c, hc, rfl, by simpa [hgroups, hvalid] using hissued⟩
    obtain ⟨ctx', hloop⟩ := each_baseSpawn_succeeds ctx.config.scratchStart
      (List.range (Nat.pow 2 tier)) htakes ((hvalid _).2 htemplate)
    exact ⟨_, ctx', bind_of_ok hloop⟩

/-- A build of a base issues one group, whether it succeeds or fails. -/
theorem nextUnknown_of_buildBase {tier : Nat} {ctx' : Context} {result : Except BuildError Base}
    (h : buildBase tier ctx = (result, ctx')) :
    ctx'.nextUnknown = ctx.nextUnknown + 1 ∧ ctx'.config = ctx.config := by
  obtain ⟨ctx₁, c, -, -, -, -, -, hconfig, hnext, hbuild⟩ := buildBase_eq tier ctx
  let P (ctx₂ : Context) : Prop :=
    ctx₂.nextUnknown = ctx.nextUnknown + 1 ∧ ctx₂.config = ctx.config
  have hperform (i : Nat) (time : Float) (a : Action) : Keeps P (perform i time a) := by
    intro ctx₂ h₂
    rcases hrun : perform i time a ctx₂ with ⟨e | _, ctx₃⟩
    · obtain ⟨-, rfl⟩ := perform_eq_error.1 hrun
      exact h₂
    · obtain ⟨r, -, rfl⟩ := perform_eq_ok.1 hrun
      exact h₂
  rw [hbuild] at h
  exact (Keeps.bind (.each fun _ _ => hperform _ _ _) fun _ => .pure _).of_run h ⟨hnext, hconfig⟩

/-- Bases are built one after the other, and each takes the next group. -/
theorem issues_of_buildTiers {tiers : List Nat} {ctx' : Context}
    {result : Except BuildError (List Base)} (hstart : ctx.config.unknownStart ≤ ctx.nextUnknown)
    (h : buildTiers tiers ctx = (result, ctx')) :
    ctx.config.Issues ctx.nextUnknown tiers.length result.isOk ctx'.nextUnknown := by
  induction tiers generalizing ctx ctx' result with
  | nil =>
      cases h
      exact .complete fun _ hk => absurd hk (Nat.not_lt_zero _)
  | cons tier rest ih =>
      have hfirst := (buildBase_succeeds_iff tier ctx).trans (hosts_template_iff hstart)
      rcases hbase : buildBase tier ctx with ⟨e | base, ctx₁⟩
      · cases h.symm.trans (bind_eq_error.2 (Or.inl hbase))
        rw [(nextUnknown_of_buildBase hbase).1]
        refine .refused (k := 0) (Nat.succ_pos _) (fun _ hj => absurd hj (Nat.not_lt_zero _)) ?_
        intro hhosts
        obtain ⟨_, _, hok⟩ := hfirst.2 hhosts
        cases hbase.symm.trans hok
      · obtain ⟨hnext, hconfig⟩ := nextUnknown_of_buildBase hbase
        have hstart₁ : ctx₁.config.unknownStart ≤ ctx₁.nextUnknown := by
          rw [hconfig, hnext]
          exact Nat.le_succ_of_le hstart
        rw [buildTiers, bind_of_ok hbase] at h
        refine ended_bind (P := fun complete (ctx₂ : Context) =>
          ctx.config.Issues ctx.nextUnknown (rest.length + 1) complete ctx₂.nextUnknown) h
          (fun others ctx₂ hothers => ?_) fun _ _ hissues => hissues
        have hissues := ih hstart₁ hothers
        rw [hconfig, hnext] at hissues
        exact hissues.cons (hfirst.1 ⟨base, ctx₁, hbase⟩)

theorem issues_of_buildBases {ctx' : Context} {result : Except BuildError Bases}
    (hstart : ctx.config.unknownStart ≤ ctx.nextUnknown) (h : buildBases ctx = (result, ctx')) :
    ctx.config.Issues ctx.nextUnknown ctx.config.tiers result.isOk ctx'.nextUnknown := by
  rw [buildBases, bind_of_ok (read_apply _)] at h
  refine ended_bind (P := fun complete (ctx₁ : Context) =>
    ctx.config.Issues ctx.nextUnknown ctx.config.tiers complete ctx₁.nextUnknown) h
    (fun tiers ctx₁ htiers => ?_) fun _ _ hissues => hissues
  have hissues := issues_of_buildTiers hstart htiers
  rwa [List.length_range] at hissues

theorem buildBases_succeeds_iff (h : ctx.config.unknownStart ≤ ctx.nextUnknown) :
    (∃ b ctx', buildBases ctx = (.ok b, ctx')) ↔
      ∀ k < ctx.config.tiers, ctx.config.HostsBase (ctx.nextUnknown + k) := by
  rcases hrun : buildBases ctx with ⟨e | b, ctx'⟩
  · have hfails := (issues_of_buildBases h hrun).complete_iff
    exact iff_of_false (by rintro ⟨_, _, ⟨⟩⟩) fun hall => Bool.false_ne_true (hfails.2 hall)
  · exact iff_of_true ⟨b, ctx', rfl⟩ ((issues_of_buildBases h hrun).complete_iff.1 rfl)

theorem initBases_eq_ok {ctx ctx' : Context} (h : ctx.bases = none) :
    initBases ctx = (.ok (), ctx') ↔
      ∃ b ctx₁, buildBases ctx = (.ok b, ctx₁) ∧ { ctx₁ with bases := some b } = ctx' := by
  have hstart : initBases ctx = (buildBases >>= keepBases) ctx := by
    simp [initBases, bind_apply, h]
  rw [hstart, bind_eq_ok]
  simp only [keepBases, change_apply, Prod.mk.injEq, true_and]

/-- Bases that are required where there are none are built. -/
theorem issues_of_requireBases {ctx' : Context} {result : Except BuildError Bases}
    (hbases : ctx.bases = none) (hstart : ctx.config.unknownStart ≤ ctx.nextUnknown)
    (h : requireBases ctx = (result, ctx')) :
    ctx.config.Issues ctx.nextUnknown ctx.config.tiers result.isOk ctx'.nextUnknown := by
  rw [requireBases_of_none hbases] at h
  exact ended_bind (P := fun complete (ctx₁ : Context) =>
    ctx.config.Issues ctx.nextUnknown ctx.config.tiers complete ctx₁.nextUnknown) h
    (fun _ _ hbuild => issues_of_buildBases hstart hbuild) fun _ _ hissues => hissues

end Context

/-! ## Planning -/

namespace Bases

/-- The template placeholder is one of the scratch groups for so many assignments. -/
def CoversTemplate (start : Group) (n : Nat) : Prop :=
  start ≤ Group.template ∧ Group.template < start + Config.stride * n

theorem CoversTemplate.mono {start : Group} {m n : Nat} (h : CoversTemplate start m)
    (hle : m ≤ n) : CoversTemplate start n :=
  ⟨h.1, Nat.lt_of_lt_of_le h.2 (Nat.add_le_add_left (Nat.mul_le_mul_left _ hle) _)⟩

/-- The scratch groups of consecutive blocks are consecutive. -/
theorem sources_blockPairs (start index : Nat) (as : List Assignment) :
    (blockPairs start index as).map Prod.fst =
      List.range' (start + Config.stride * index) (Config.stride * as.length) := by
  induction as generalizing index with
  | nil => rfl
  | cons a rest ih =>
      have hlength : Config.stride * (a :: rest).length =
          Config.stride + Config.stride * rest.length := by
        rw [List.length_cons, Nat.mul_succ, Nat.add_comm]
      have hnext : start + Config.stride * (index + 1) =
          start + Config.stride * index + 1 * Config.stride := by
        rw [Nat.mul_succ, Nat.one_mul, Nat.add_assoc]
      rw [blockPairs, List.map_append, ih, hlength, ← List.range'_append, hnext]
      rfl

variable {b : Bases} {template : Group}

/-- The remap of a burst exists if the template placeholder is not one of its scratch
groups. -/
theorem burstRemap_succeeds_iff {as : List Assignment} :
    (∃ r, b.burstRemap template as = .ok r) ↔ ¬ CoversTemplate b.scratchStart as.length := by
  let pairs := (Group.template, template) :: blockPairs b.scratchStart 0 as
  have hsources : pairs.map Prod.fst =
      Group.template :: List.range' b.scratchStart (Config.stride * as.length) := by
    rw [List.map_cons, sources_blockPairs]
    rfl
  have hnodup : (pairs.map Prod.fst).Nodup ↔ ¬ CoversTemplate b.scratchStart as.length := by
    rw [hsources, List.nodup_cons, List.mem_range'_1]
    exact and_iff_left (List.nodup_range' ..)
  rw [← hnodup]
  constructor
  · rintro ⟨r, hr⟩
    have hpairs : r.pairs = pairs := burstRemap_eq_ok.1 hr
    exact hpairs ▸ r.distinct
  · intro hdistinct
    exact ⟨⟨_, hdistinct⟩, burstRemap_eq_ok.2 rfl⟩

/-- Every base gets as many assignments as it has spawns. -/
theorem deal_succeeds_iff {bases : List Base} {as : List Assignment}
    (hspawns : spawns bases = as.length) :
    (∃ bursts, b.deal template bases as = .ok bursts) ↔
      ∀ base ∈ bases, ¬ CoversTemplate b.scratchStart base.capacity := by
  induction bases generalizing as with
  | nil => exact iff_of_true ⟨[], rfl⟩ fun _ hbase => nomatch hbase
  | cons base rest ih =>
      rw [spawns_cons] at hspawns
      have hfirst := @burstRemap_succeeds_iff b template (as.take base.capacity)
      rw [List.length_take, Nat.min_eq_left (by omega)] at hfirst
      have hrest := @ih (as.drop base.capacity) (by rw [List.length_drop]; omega)
      simp only [List.forall_mem_cons, ← hfirst, ← hrest, deal, Except.bind_eq_ok,
        Except.pure_eq_ok]
      constructor
      · rintro ⟨_, r, hr, bursts, hbursts, -⟩
        exact ⟨⟨r, hr⟩, ⟨bursts, hbursts⟩⟩
      · rintro ⟨⟨r, hr⟩, ⟨bursts, hbursts⟩⟩
        exact ⟨_, r, hr, bursts, hbursts, rfl⟩

/-- The largest base that is picked has the largest power of two up to the number. -/
theorem capacity_of_pick (hb : b.Binary) {n : Nat} (hpos : 1 ≤ n) (hn : n ≤ b.ceiling) :
    (∃ base ∈ pick n b.tiers.reverse, base.capacity = Nat.pow 2 n.log2) ∧
      ∀ base ∈ pick n b.tiers.reverse, base.capacity ≤ Nat.pow 2 n.log2 := by
  have hpower : ∀ base ∈ pick n b.tiers.reverse, ∃ t, base.capacity = Nat.pow 2 t := by
    intro base hbase
    have hmem : base.capacity ∈ b.tiers.map Base.capacity :=
      List.mem_map_of_mem (List.mem_reverse.1 (pick_subset _ _ hbase))
    rw [hb] at hmem
    obtain ⟨t, -, ht⟩ := List.mem_map.1 hmem
    exact ⟨t, ht.symm⟩
  constructor
  · have hceiling := ceiling_of_binary hb
    have hlt : n < Nat.pow 2 b.tiers.length := by omega
    obtain ⟨base, hbase, hhalf⟩ :=
      exists_half_of_pick (by rw [List.map_reverse, hb]) hlt hpos
    obtain ⟨t, ht⟩ := hpower base hbase
    have hle := capacity_le_of_pick hbase
    have hlog : n.log2 = t := by
      rw [ht] at hle hhalf
      refine (Nat.log2_eq_iff (by omega)).2 ⟨hle, ?_⟩
      rw [Nat.pow_succ']
      exact hhalf
    exact ⟨base, hbase, hlog ▸ ht⟩
  · intro base hbase
    obtain ⟨t, ht⟩ := hpower base hbase
    have hle := capacity_le_of_pick hbase
    rw [ht] at hle ⊢
    exact Nat.pow_le_pow_right (by decide) ((Nat.le_log2 (by omega)).2 hle)

/-- A plan is refused exactly if its largest burst has the template placeholder among its
scratch groups. -/
theorem plan_succeeds_iff (hb : b.Binary) {as : List Assignment} (hpos : 1 ≤ as.length)
    (hle : as.length ≤ b.ceiling) :
    (∃ bursts, b.plan template as = .ok bursts) ↔
      ¬ CoversTemplate b.scratchStart (Nat.pow 2 as.length.log2) := by
  have hdecompose : b.decompose as.length = .ok (pick as.length b.tiers.reverse) :=
    decompose_eq_ok.2 ⟨Nat.ne_of_gt hpos, hle, rfl⟩
  obtain ⟨-, hspawns⟩ := spawns_decompose hb hdecompose
  have hplan : (∃ bursts, b.plan template as = .ok bursts) ↔
      ∃ bursts, b.deal template (pick as.length b.tiers.reverse) as = .ok bursts := by
    simp only [plan_eq_ok, hdecompose, Except.ok.injEq, exists_eq_left']
  rw [hplan, deal_succeeds_iff hspawns]
  obtain ⟨⟨base, hbase, hlargest⟩, hcapacity⟩ := capacity_of_pick hb hpos hle
  constructor
  · intro hall
    have hfree := hall base hbase
    rwa [hlargest] at hfree
  · intro hfree base hbase hcovered
    exact hfree (hcovered.mono (hcapacity base hbase))

end Bases

/-! ## Accepted configurations -/

/-- A fresh context of an accepted configuration builds its bases within 32 bits if and only
if the configuration hosts them and the counter has room for their groups.  Then a plan for a
list of assignments up to the ceiling is refused if and only if its largest burst has the
template placeholder among its scratch groups. -/
theorem config_compiles {config : Config} (h : config.validate = .ok ()) :
    ((∃ ctx, Context.initBases (Context.ofConfig config) = (.ok (), ctx) ∧ ctx.InRange) ↔
      config.HostsBases ∧ config.unknownStart + config.tiers ≤ Group.greatest) ∧
    ∀ ctx, Context.initBases (Context.ofConfig config) = (.ok (), ctx) → ctx.InRange →
      ∃ b, ctx.bases = some b ∧
        ∀ template as, 1 ≤ as.length → as.length ≤ config.ceiling →
          ((∃ bursts, b.plan template as = .ok bursts) ↔
            ¬ Bases.CoversTemplate config.scratchStart (Nat.pow 2 as.length.log2)) := by
  have hfault := Config.validate_eq_ok.1 h
  have hinit {ctx : Context} := @Context.initBases_eq_ok (Context.ofConfig config) ctx rfl
  have hstart : (Context.ofConfig config).config.unknownStart ≤
      (Context.ofConfig config).nextUnknown := Nat.le_refl _
  have hhosts : (∃ b ctx, Context.buildBases (Context.ofConfig config) = (.ok b, ctx)) ↔
      config.HostsBases :=
    (Context.buildBases_succeeds_iff hstart).trans
      (Config.forall_hostsBase (Config.bounds_of_fault? hfault).1)
  have hcounter {b : Bases} {ctx : Context}
      (hbuild : Context.buildBases (Context.ofConfig config) = (.ok b, ctx)) :
      ctx.nextUnknown = config.unknownStart + config.tiers ∧ ctx.config = config := by
    have hevolves : Evolves (fun _ => True) (Context.ofConfig config) ctx :=
      (Evolves.elements fun _ _ => trivial).buildBases.of_run hbuild (.refl _)
    exact ⟨(Context.issues_of_buildBases hstart hbuild).last_of_complete, hevolves.extension.config⟩
  constructor
  · constructor
    · rintro ⟨_, hctx, hrange⟩
      obtain ⟨b, ctx₁, hbuild, rfl⟩ := hinit.1 hctx
      exact ⟨hhosts.1 ⟨b, ctx₁, hbuild⟩, (hcounter hbuild).1 ▸ hrange.issued⟩
    · rintro ⟨hbases, hroom⟩
      obtain ⟨b, ctx, hbuild⟩ := hhosts.2 hbases
      obtain ⟨hnext, hconfig⟩ := hcounter hbuild
      refine ⟨_, hinit.2 ⟨b, ctx, hbuild, rfl⟩, ?_, ?_⟩
      · change ctx.config.InRange
        rw [hconfig]
        exact Config.inRange_of_fault? hfault (Nat.le_trans (Nat.le_add_right _ _) hroom)
      · change ctx.nextUnknown ≤ Group.greatest
        rw [hnext]
        exact hroom
  · intro ctx hctx hrange
    obtain ⟨b, ctx₁, hbuild, rfl⟩ := hinit.1 hctx
    obtain ⟨hintact, -⟩ := Context.buildBases_eq_ok hbuild
    obtain ⟨hscratch, hcapacities, -, -⟩ := hintact
    rw [(hcounter hbuild).2] at hscratch hcapacities
    have hbinary := Bases.binary_of_capacities hcapacities
    have hceiling : b.ceiling = config.ceiling := by
      have hsum := Bases.ceiling_of_binary hbinary
      rw [Bases.length_of_capacities hcapacities] at hsum
      rw [Config.ceiling, ← hsum, Nat.add_sub_cancel]
    refine ⟨b, rfl, fun template as hpos hle => ?_⟩
    rw [Bases.plan_succeeds_iff hbinary hpos (hceiling ▸ hle), hscratch]

/-- Hand-assigned groups that end below the template placeholder. -/
def lowGroups : Config := { maxGroup := 9000, unknownStart := 9001 }

/-- A scratch area that ends with the template placeholder. -/
def scratchOverTemplate : Config := { tiers := 1, scratchStart := 9986 }

theorem config_compiles_conflicts :
    lowGroups.validate = .ok () ∧ scratchOverTemplate.validate = .ok () ∧
      (¬ ∃ ctx, Context.initBases (Context.ofConfig lowGroups) = (.ok (), ctx) ∧ ctx.InRange) ∧
      ∃ ctx b, Context.initBases (Context.ofConfig scratchOverTemplate) = (.ok (), ctx) ∧
        ctx.InRange ∧ ctx.bases = some b ∧
        ¬ ∃ bursts, b.plan 37 [⟨501, 601, 30, 701⟩] = .ok bursts := by
  have hlow : lowGroups.validate = .ok () := by decide
  have hscratch : scratchOverTemplate.validate = .ok () := by decide
  obtain ⟨hinit, hplan⟩ := config_compiles hscratch
  obtain ⟨ctx, hctx, hrange⟩ := hinit.2 ⟨⟨by decide, by decide, by decide⟩, by decide⟩
  obtain ⟨b, hb, hplans⟩ := hplan ctx hctx hrange
  refine ⟨hlow, hscratch, fun hbuilt => ?_, ctx, b, hctx, hrange, hb, fun hbursts => ?_⟩
  · exact absurd ((config_compiles hlow).1.1 hbuilt).1.known (by decide)
  · exact (hplans 37 [⟨501, 601, 30, 701⟩] (by decide) (by decide)).1 hbursts
      ⟨by decide, by decide⟩

end Barrage
