import Barrage.Proofs.Burst.Foundation

/-!
# How often bases are built

The bases of a compilation are shared, and a build that succeeds is the only one: from
then on calls find the bases.  A build that fails is not kept, and its components are
not taken back.  The next call that needs the bases begins anew, with the first tier.  So
a run may register several components for one capacity, all but the last of which belong
to builds that failed.

The history of a run lists what its calls have registered for bases
(`Call.foundations`).  One call adds at most one build to it (`Call.founds`), also a
pattern of many waves, since a pattern ends where it fails.

Builds fail on groups that host no base, and runs may issue groups before they build.  So a
configuration that hosts bases on every group that can be issued (`Config.HostsEveryBase`)
never builds a base twice.  Groups have 32 bits, and a run that needs more of them is left out
here.  In the other runs a failed build may also come too late for a second one.  Exactly the
configurations with `Config.BuildsOnce` build each base at most once in all their runs
(`foundations_at_most_once`).
-/

namespace Barrage

open Build

/-! ## The history of a run -/

/-- What a call has registered for bases. -/
structure Foundation where
  /-- The number of the first component. -/
  first : Nat
  /-- The components, as the call has left them. -/
  components : List Component
  /-- Were there bases after the call? -/
  complete : Bool

namespace Call

/-- Does the call build the bases if there are none? -/
def needsBases : Call → Bool
  | .initBases => true
  | .requireBases => true
  | .pattern .. => true
  | _ => false

/-- What the call registers for bases, if it registers something. -/
def foundation? (k : Call) (ctx : Context) : Option Foundation :=
  let added := (k.run ctx).components.drop ctx.components.length
  if k.needsBases ∧ added ≠ [] then
    some ⟨ctx.components.length, added, (k.run ctx).bases.isSome⟩
  else
    none

/-- What calls register for bases, one after the other. -/
def foundations : List Call → Context → List Foundation
  | [], _ => []
  | k :: ks, ctx => (k.foundation? ctx).toList ++ foundations ks (k.run ctx)

theorem foundations_append (ks ks' : List Call) (ctx : Context) :
    foundations (ks ++ ks') ctx = foundations ks ctx ++ foundations ks' (runAll ks ctx) := by
  induction ks generalizing ctx with
  | nil => rfl
  | cons k ks ih =>
      rw [List.cons_append, foundations, foundations, ih, List.append_assoc]
      rfl

end Call

/-! ## Configurations that build once -/

/-- The template placeholder and all groups that can be issued are valid when a base
needs them. -/
structure Config.HostsEveryBase (config : Config) : Prop where
  unreserved : Group.template ∉ config.reserved
  known : Group.template ≤ config.maxGroup ∨ Group.template = config.unknownStart
  issued : ∀ g ∈ config.reserved, g < config.unknownStart

/-- After a group that hosts no base there is no second build.  The groups that are left
before the last one are too few for it, and all of them host a base, so that it does not fail
before it needs the last one. -/
structure Config.BuildsOnce (config : Config) : Prop where
  few : ∀ g, config.unknownStart ≤ g → ¬ config.HostsBase g → Group.greatest ≤ g + config.tiers
  alone : ∀ g, config.unknownStart ≤ g → ¬ config.HostsBase g →
    ∀ g', g < g' → g' < Group.greatest → config.HostsBase g'

theorem Config.exists_of_not_buildsOnce {config : Config} (hnot : ¬ config.BuildsOnce) :
    ∃ g, config.unknownStart ≤ g ∧ ¬ config.HostsBase g ∧
      (g + config.tiers < Group.greatest ∨
        ∃ g', g < g' ∧ g' < Group.greatest ∧ ¬ config.HostsBase g') := by
  by_contra hnone
  refine hnot ⟨fun g hg hrefused => ?_, fun g hg hrefused g' hlt hlast => ?_⟩
  · exact Nat.le_of_not_lt fun hroom => hnone ⟨g, hg, hrefused, Or.inl hroom⟩
  · by_contra hrefused'
    exact hnone ⟨g, hg, hrefused, Or.inr ⟨g', hlt, hlast, hrefused'⟩⟩

theorem Config.HostsEveryBase.hostsBase {config : Config} (h : config.HostsEveryBase)
    {next : Group} (hnext : config.unknownStart ≤ next) : config.HostsBase next := by
  refine hostsBase_of_known h.unreserved h.known hnext fun hreserved => ?_
  exact Nat.not_le.2 (h.issued next hreserved) hnext

theorem Config.HostsEveryBase.buildsOnce {config : Config} (h : config.HostsEveryBase) :
    config.BuildsOnce where
  few _ hg hrefused := absurd (h.hostsBase hg) hrefused
  alone _ hg hrefused := absurd (h.hostsBase hg) hrefused

/-! ## One call -/

/-- Bases are wanted, and groups are issued in order. -/
structure Context.Ready (ctx : Context) : Prop where
  tiers : 1 ≤ ctx.config.tiers
  issued : ctx.config.unknownStart ≤ ctx.nextUnknown

theorem Context.Ready.evolves {A : Nat → Prop} {ctx ctx' : Context} (h : ctx.Ready)
    (hevolves : Evolves A ctx ctx') : ctx'.Ready := by
  obtain ⟨hconfig, hnext, -⟩ := hevolves.extension
  exact ⟨hconfig ▸ h.tiers, hconfig ▸ Nat.le_trans h.issued hnext⟩

theorem Context.Ready.ofConfig {config : Config} (h : config.fault? = none) :
    (Context.ofConfig config).Ready :=
  ⟨(Config.bounds_of_fault? h).1, Nat.le_refl _⟩

/-- A build took its groups from the first one on and below the last one. -/
def Config.Spent (config : Config) (first last : Group) (complete : Bool) : Prop :=
  ∃ g g', first ≤ g ∧ config.Issues g config.tiers complete g' ∧ g' ≤ last

theorem Config.Spent.mono {config : Config} {first first' last last' : Group} {complete : Bool}
    (h : config.Spent first last complete) (hfirst : first' ≤ first) (hlast : last ≤ last') :
    config.Spent first' last' complete := by
  obtain ⟨g, g', hg, hissues, hg'⟩ := h
  exact ⟨g, g', Nat.le_trans hfirst hg, hissues, Nat.le_trans hg' hlast⟩

/-- A build that has failed and one after it need more groups than there are. -/
theorem Config.BuildsOnce.greatest_lt {config : Config} {first next last : Group} {complete : Bool}
    (honce : config.BuildsOnce) (hstart : config.unknownStart ≤ first)
    (hfailed : config.Spent first next false) (hagain : config.Spent next last complete) :
    Group.greatest < last := by
  obtain ⟨g₁, g₁', hg₁, hissues₁, hg₁'⟩ := hfailed
  obtain ⟨g, hg, hrefused, rfl⟩ := hissues₁.exists_of_refused
  obtain ⟨g₂, g₂', hg₂, hissues₂, hg₂'⟩ := hagain
  have hbegin : config.unknownStart ≤ g := Nat.le_trans hstart (Nat.le_trans hg₁ hg)
  have hafter : g < g₂ := Nat.lt_of_lt_of_le hg₁' hg₂
  refine Nat.lt_of_lt_of_le ?_ hg₂'
  cases complete with
  | true =>
      rw [hissues₂.last_of_complete]
      exact Nat.lt_of_le_of_lt (honce.few g hbegin hrefused) (Nat.add_lt_add_right hafter _)
  | false =>
      obtain ⟨g', hg', hrefused', rfl⟩ := hissues₂.exists_of_refused
      refine Nat.lt_succ_of_le (Nat.le_of_not_lt fun hlt => hrefused' ?_)
      exact honce.alone g hbegin hrefused g' (Nat.lt_of_lt_of_le hafter hg') hlt

/-- The components from a place on are what a build of bases registered there, which took its
groups from a group on.  They are the bases of the context if the build succeeded. -/
structure Context.Founded (n : Nat) (first : Group) (complete : Bool) (ctx : Context) : Prop where
  laid : Laid ctx.config (List.range ctx.config.tiers) (ctx.components.drop n) complete
  bases : ctx.bases.isSome = complete
  places : ∀ b ∈ ctx.bases, b.tiers.map Base.component = List.range' n ctx.config.tiers
  spent : ctx.config.Spent first ctx.nextUnknown complete

/-- No component was registered from the place on, no group was taken back, and the bases are
these. -/
structure Context.Idle (n : Nat) (first : Group) (o : Option Bases) (ctx : Context) : Prop where
  ready : ctx.Ready
  length : ctx.components.length = n
  issued : first ≤ ctx.nextUnknown
  bases : ctx.bases = o

namespace Context

variable {n : Nat} {first : Group} {o : Option Bases} {ctx ctx' : Context}

/-- No base was built, or all of them were. -/
def Settled (n : Nat) (first : Group) (o : Option Bases) (ctx : Context) : Prop :=
  Idle n first o ctx ∨ o = none ∧ Founded n first true ctx

/-- No base was built, or one build was made. -/
def Tried (n : Nat) (first : Group) (o : Option Bases) (ctx : Context) : Prop :=
  Idle n first o ctx ∨ o = none ∧ ∃ complete, Founded n first complete ctx

theorem Settled.tried (h : Settled n first o ctx) : Tried n first o ctx :=
  h.imp_right fun ⟨hnone, hfounded⟩ => ⟨hnone, true, hfounded⟩

/-- Only the components from the place on, the bases and the counter matter. -/
theorem Settled.frame (h : Settled n first o ctx) (hevolves : Evolves (fun _ => True) ctx ctx')
    (hlength : ctx'.components.length = ctx.components.length)
    (hdrop : ctx'.components.drop n = ctx.components.drop n) (hbases : ctx'.bases = ctx.bases) :
    Settled n first o ctx' := by
  obtain ⟨hconfig, hnext, -⟩ := hevolves.extension
  rcases h with ⟨hready, hn, hissued, ho⟩ | ⟨hnone, hlaid, hsome, hplaces, hspent⟩
  · exact Or.inl ⟨hready.evolves hevolves, hlength.trans hn, Nat.le_trans hissued hnext,
      hbases.trans ho⟩
  · refine Or.inr ⟨hnone, ?_, hbases ▸ hsome, ?_, ?_⟩
    · rw [hconfig, hdrop]
      exact hlaid
    · rw [hconfig, hbases]
      exact hplaces
    · rw [hconfig]
      exact hspent.mono (Nat.le_refl _) hnext

theorem Settled.perform {i : Nat} (hi : i < n) (time : Float) (a : Action) :
    Keeps (Settled n first o) (Context.perform i time a) := by
  intro ctx h
  rcases hrun : Context.perform i time a ctx with ⟨e | _, ctx'⟩
  · obtain ⟨-, rfl⟩ := perform_eq_error.1 hrun
    exact h
  · obtain ⟨c, r, -, -, -, hset, hbases, -⟩ := components_of_perform hrun
    refine h.frame (evolves_of_perform hrun) ?_ ?_ hbases
    · rw [hset, List.length_set]
    · rw [hset, List.drop_set_of_lt hi]

/-- A build that begins where there are no bases. -/
theorem Idle.founded {result : Except BuildError Bases} (h : Idle n first none ctx)
    (hrun : requireBases ctx = (result, ctx')) :
    Founded n first ctx'.bases.isSome ctx' ∧ ctx'.bases = result.toOption := by
  obtain ⟨cs, hcs, hlaid, hresult, hplaces⟩ := requireBases_laid h.bases hrun
  have hissues := issues_of_requireBases h.bases h.ready.issued hrun
  have hconfig : ctx'.config = ctx.config :=
    ((Evolves.requireBases (A := fun _ => True) fun _ _ => trivial).of_run hrun
      (.refl ctx)).extension.config
  have hcomplete : ctx'.bases.isSome = result.isOk := by
    rw [hresult]
    cases result <;> rfl
  rw [h.length] at hplaces
  rw [← hconfig] at hlaid hplaces hissues
  refine ⟨⟨?_, rfl, hplaces, ctx.nextUnknown, ctx'.nextUnknown, h.issued, ?_, Nat.le_refl _⟩,
    hresult⟩
  · rwa [hcs, List.drop_left' h.length]
  · rwa [hcomplete]

/-- Without bases nothing was built before. -/
theorem Settled.idle (h : Settled n first o ctx) (hbases : ctx.bases = none) :
    o = none ∧ Idle n first none ctx := by
  rcases h with hidle | ⟨-, hfounded⟩
  · cases hidle.bases.symm.trans hbases
    exact ⟨rfl, hidle⟩
  · have hsome := hfounded.bases
    rw [hbases] at hsome
    cases hsome

theorem Settled.requireBases :
    Leads (Settled n first o) (Tried n first o) Context.requireBases where
  ok {ctx b ctx'} h hrun := by
    cases hbases : ctx.bases with
    | some b' =>
        cases (requireBases_of_some hbases).symm.trans hrun
        exact h
    | none =>
        obtain ⟨rfl, hidle⟩ := h.idle hbases
        obtain ⟨hfounded, hkept⟩ := hidle.founded hrun
        rw [hkept] at hfounded
        exact Or.inr ⟨rfl, hfounded⟩
  error {ctx e ctx'} h hrun := by
    cases hbases : ctx.bases with
    | some b' => cases (requireBases_of_some hbases).symm.trans hrun
    | none =>
        obtain ⟨rfl, hidle⟩ := h.idle hbases
        exact Or.inr ⟨rfl, _, (hidle.founded hrun).1⟩

theorem Settled.attempts {caller : Nat} (hcaller : caller < n) :
    Attempts (Settled n first o) (Tried n first o) caller where
  weaken _ := Settled.tried
  perform := Settled.perform hcaller
  warn _ ctx h := h.frame ((Evolves.refl ctx).note rfl rfl rfl) rfl rfl rfl
  log _ ctx h := h.frame ((Evolves.refl ctx).note rfl rfl rfl) rfl rfl rfl
  bases := Settled.requireBases

end Context

namespace Call

/-- A call that needs the bases makes at most one build. -/
theorem tried {k : Call} (hk : k.needsBases) {ctx : Context} (hctx : ctx.Ready) :
    (k.run ctx).Tried ctx.components.length ctx.nextUnknown ctx.bases := by
  have hstart : ctx.Settled ctx.components.length ctx.nextUnknown ctx.bases :=
    Or.inl ⟨hctx, rfl, Nat.le_refl _, rfl⟩
  have hbuild :
      (Context.requireBases ctx).2.Tried ctx.components.length ctx.nextUnknown ctx.bases := by
    rcases hrun : Context.requireBases ctx with ⟨e | b, ctx'⟩
    · exact Context.Settled.requireBases.error hstart hrun
    · exact (Context.Settled.requireBases.ok hstart hrun).tried
  cases k with
  | initBases =>
      rw [run, Context.initBases_snd]
      exact hbuild
  | requireBases => exact hbuild
  | pattern caller pool p =>
      rw [run]
      rcases Nat.lt_or_ge caller ctx.components.length with hlt | hge
      · have hleads := (@Context.Settled.attempts _ ctx.nextUnknown ctx.bases _ hlt).pattern p
        rcases hrun : p.run caller ⟨ctx, pool⟩ with ⟨e | _, s⟩
        · exact hleads.error hstart hrun
        · exact (hleads.ok hstart hrun).tried
      · rw [PatternCall.run_of_none (List.getElem?_eq_none hge)]
        exact hstart.tried
  | _ => cases hk

/-- A call registers nothing for bases and leaves them as they are, or there are no bases
and it makes one build. -/
theorem founds (k : Call) {ctx : Context} (hctx : ctx.Ready) :
    (k.foundation? ctx = none ∧ (k.run ctx).bases = ctx.bases) ∨
      ctx.bases = none ∧ ∃ f, k.foundation? ctx = some f ∧
        (k.run ctx).Founded f.first ctx.nextUnknown f.complete ∧
        f.components = (k.run ctx).components.drop f.first := by
  by_cases hk : k.needsBases
  · rcases tried hk hctx with hidle | ⟨hnone, complete, hfounded⟩
    · have hdrop : (k.run ctx).components.drop ctx.components.length = [] :=
        List.drop_eq_nil_of_le (Nat.le_of_eq hidle.length)
      exact Or.inl ⟨by simp [foundation?, hdrop], hidle.bases⟩
    · have hdrop : (k.run ctx).components.drop ctx.components.length ≠ [] := by
        refine hfounded.laid.ne_nil (List.ne_nil_of_length_pos ?_)
        rw [List.length_range]
        exact (hctx.evolves (k.evolves ctx)).tiers
      exact Or.inr ⟨hnone, _, if_pos ⟨hk, hdrop⟩, hfounded.bases ▸ hfounded, rfl⟩
  · refine Or.inl ⟨if_neg fun h => hk h.1, ?_⟩
    rcases k.run_cases ctx with hsame | ⟨rfl | rfl, -⟩ | ⟨caller, pool, p, rfl⟩
    · exact hsame
    · exact absurd rfl hk
    · exact absurd rfl hk
    · exact absurd rfl hk

/-! ## Runs -/

variable {ctx : Context}

theorem config_run (k : Call) (ctx : Context) : (k.run ctx).config = ctx.config :=
  (k.evolves ctx).extension.config

theorem nextUnknown_runAll (ks : List Call) (ctx : Context) :
    ctx.nextUnknown ≤ (runAll ks ctx).nextUnknown :=
  runAll_keeps (P := fun ctx' => ctx.nextUnknown ≤ ctx'.nextUnknown)
    (fun hstep h => Nat.le_trans h hstep.extension.nextUnknown) ks (Nat.le_refl _)

/-- Once there are bases, nothing more is built. -/
theorem foundations_of_bases (hctx : ctx.Ready) (hbases : ctx.bases.isSome) (ks : List Call) :
    foundations ks ctx = [] ∧ (runAll ks ctx).bases = ctx.bases := by
  induction ks generalizing ctx with
  | nil => exact ⟨rfl, rfl⟩
  | cons k ks ih =>
      rcases k.founds hctx with ⟨hnone, hsame⟩ | ⟨hnone, -⟩
      · obtain ⟨hrest, hkept⟩ := ih (hctx.evolves (k.evolves ctx)) (hsame ▸ hbases)
        exact ⟨by rw [foundations, hnone, hrest]; rfl, hkept.trans hsame⟩
      · rw [hnone] at hbases
        cases hbases

/-- What one build registers is what every build of the run registers. -/
theorem foundations_laid (hctx : ctx.Ready) (ks : List Call) :
    ∀ f ∈ foundations ks ctx,
      Laid ctx.config (List.range ctx.config.tiers) f.components f.complete ∧
        ctx.config.Spent ctx.nextUnknown (runAll ks ctx).nextUnknown f.complete := by
  induction ks generalizing ctx with
  | nil => exact fun _ hf => nomatch hf
  | cons k ks ih =>
      have hrest := ih (hctx.evolves (k.evolves ctx))
      rw [config_run] at hrest
      intro f hf
      rcases List.mem_append.1 hf with hf | hf
      · rcases k.founds hctx with ⟨hnone, -⟩ | ⟨-, f', hsome, hfounded, hcomponents⟩
        · rw [hnone] at hf
          cases hf
        · rw [hsome] at hf
          cases List.mem_singleton.1 hf
          rw [hcomponents, ← config_run k ctx]
          exact ⟨hfounded.laid, hfounded.spent.mono (Nat.le_refl _) (nextUnknown_runAll ks _)⟩
      · obtain ⟨hlaid, hspent⟩ := hrest f hf
        exact ⟨hlaid, hspent.mono (k.evolves ctx).extension.nextUnknown (Nat.le_refl _)⟩

theorem config_runAll (ks : List Call) (ctx : Context) : (runAll ks ctx).config = ctx.config :=
  runAll_keeps (P := fun ctx' => ctx'.config = ctx.config)
    (fun hstep h => hstep.extension.config.trans h) ks rfl

/-- Builds are retried only if they failed. -/
theorem foundations_retried (hctx : ctx.Ready) (ks : List Call) :
    (foundations ks ctx).Pairwise fun f _ => f.complete = false := by
  induction ks generalizing ctx with
  | nil => exact .nil
  | cons k ks ih =>
      have hctx' := hctx.evolves (k.evolves ctx)
      rw [foundations]
      rcases k.founds hctx with ⟨hnone, -⟩ | ⟨-, f, hsome, hfounded, -⟩
      · rw [hnone]
        exact ih hctx'
      · rw [hsome]
        refine .cons (fun f' hf' => ?_) (ih hctx')
        cases hcomplete : f.complete with
        | false => rfl
        | true =>
            have hbases := hfounded.bases.trans hcomplete
            rw [(foundations_of_bases hctx' hbases ks).1] at hf'
            cases hf'

/-- Where a build that has failed comes too late for another, there is one build at most. -/
theorem foundations_length (hctx : ctx.Ready) (honce : ctx.config.BuildsOnce) (ks : List Call)
    (hrange : (runAll ks ctx).nextUnknown ≤ Group.greatest) : (foundations ks ctx).length ≤ 1 := by
  induction ks generalizing ctx with
  | nil => exact Nat.zero_le _
  | cons k ks ih =>
      have hctx' := hctx.evolves (k.evolves ctx)
      have hconfig := config_run k ctx
      rw [foundations]
      rcases k.founds hctx with ⟨hnone, -⟩ | ⟨-, f, hsome, hfounded, -⟩
      · rw [hnone]
        exact ih hctx' (hconfig ▸ honce) hrange
      · have hlast : foundations ks (k.run ctx) = [] := by
          refine List.eq_nil_iff_forall_not_mem.2 fun f' hf' => ?_
          have hspent := hfounded.spent
          have hagain := (foundations_laid hctx' ks f' hf').2
          rw [hconfig] at hspent hagain
          cases hcomplete : f.complete with
          | false =>
              rw [hcomplete] at hspent
              exact Nat.not_lt.2 hrange (honce.greatest_lt hctx.issued hspent hagain)
          | true =>
              have hbases := hfounded.bases.trans hcomplete
              rw [(foundations_of_bases hctx' hbases ks).1] at hf'
              cases hf'
        rw [hsome, hlast]
        exact Nat.le_refl _

/-- The bases of a context are those that a complete build has left. -/
theorem bases_runAll (hctx : ctx.Ready) (hnone : ctx.bases = none) (ks : List Call) :
    ((runAll ks ctx).bases.isSome ↔ ∃ f ∈ foundations ks ctx, f.complete) ∧
      ∀ b ∈ (runAll ks ctx).bases, ∃ f ∈ foundations ks ctx, f.complete ∧
        b.tiers.map Base.component = List.range' f.first ctx.config.tiers := by
  induction ks generalizing ctx with
  | nil => simp [runAll, foundations, hnone]
  | cons k ks ih =>
      have hctx' := hctx.evolves (k.evolves ctx)
      have hrun : runAll (k :: ks) ctx = runAll ks (k.run ctx) := rfl
      rw [foundations, hrun]
      rcases k.founds hctx with ⟨hempty, hsame⟩ | ⟨-, f, hsome, hfounded, -⟩
      · have hrest := ih hctx' (hsame.trans hnone)
        rw [config_run] at hrest
        rw [hempty]
        exact hrest
      · rw [hsome]
        cases hcomplete : f.complete with
        | false =>
            have hbases : (k.run ctx).bases = none := by
              simpa [hcomplete] using hfounded.bases
            have hrest := ih hctx' hbases
            rw [config_run] at hrest
            simpa [hcomplete] using hrest
        | true =>
            obtain ⟨hrest, hkept⟩ :=
              foundations_of_bases hctx' (hfounded.bases.trans hcomplete) ks
            have hplaces := hfounded.places
            rw [config_run] at hplaces
            rw [hrest, hkept]
            refine ⟨⟨fun _ => ⟨f, by simp, hcomplete⟩, fun _ => ?_⟩, fun b hb => ?_⟩
            · exact hfounded.bases.trans hcomplete
            · exact ⟨f, by simp, hcomplete, hplaces b hb⟩

/-! ## Retries -/

theorem issueGroups (n : Nat) (ctx : Context) :
    foundations (List.replicate n .issueGroup) ctx = [] ∧
      runAll (List.replicate n .issueGroup) ctx =
        { ctx with nextUnknown := ctx.nextUnknown + n } := by
  induction n generalizing ctx with
  | zero => exact ⟨rfl, rfl⟩
  | succ n ih =>
      obtain ⟨hrest, hrun⟩ := ih (issueGroup.run ctx)
      refine ⟨hrest, hrun.trans ?_⟩
      simp [run, Context.issueGroup, Nat.add_assoc, Nat.add_comm 1]

/-- Bases that are required where there are none are built. -/
theorem foundation_requireBases (hctx : ctx.Ready) (hbases : ctx.bases = none) :
    ∃ f, requireBases.foundation? ctx = some f ∧ f.components ≠ [] := by
  have hfounded := (Context.Idle.founded ⟨hctx, rfl, Nat.le_refl _, hbases⟩ rfl).1
  have hadded := hfounded.laid.ne_nil (List.ne_nil_of_length_pos (by
    rw [List.length_range]
    exact (hctx.evolves (requireBases.evolves ctx)).tiers))
  exact ⟨_, if_pos ⟨rfl, hadded⟩, hadded⟩

/-- Where the next group hosts no base, a build fails there and the next call begins another
one. -/
theorem requireBases_twice (hctx : ctx.Ready) (hbases : ctx.bases = none)
    (hrefused : ¬ ctx.config.HostsBase ctx.nextUnknown) :
    2 ≤ (foundations [.requireBases, .requireBases] ctx).countP
        (fun f => 0 < f.components.length) ∧
      ∃ next complete, next ≤ ctx.nextUnknown + 1 ∧ ctx.config.Issues next ctx.config.tiers
        complete (runAll [.requireBases, .requireBases] ctx).nextUnknown := by
  have hctx' := hctx.evolves (requireBases.evolves ctx)
  rcases hrun : Context.requireBases ctx with ⟨result, ctx₁⟩
  have hissues := Context.issues_of_requireBases hbases hctx.issued hrun
  have hstep : requireBases.run ctx = ctx₁ := by rw [run, hrun]
  have hconfig : ctx₁.config = ctx.config := hstep ▸ config_run requireBases ctx
  rw [hstep] at hctx'
  cases result with
  | ok b => exact absurd (hissues.complete_iff.1 rfl 0 hctx.tiers) hrefused
  | error e =>
      have hfailed := Context.requireBases_eq_error hrun
      obtain ⟨f₁, hf₁, hne₁⟩ := foundation_requireBases hctx hbases
      obtain ⟨f₂, hf₂, hne₂⟩ := foundation_requireBases hctx' hfailed
      constructor
      · simp [foundations, hf₁, hstep, hf₂, List.length_pos_iff, hne₁, hne₂]
      · rcases hrun₂ : Context.requireBases ctx₁ with ⟨result₂, ctx₂⟩
        have hagain := Context.issues_of_requireBases hfailed hctx'.issued hrun₂
        have hlast : runAll [.requireBases, .requireBases] ctx = ctx₂ := by
          simp only [runAll, List.foldl_cons, List.foldl_nil, run, hrun, hrun₂]
        rw [hconfig] at hagain
        exact ⟨_, _, hissues.le_succ (Nat.le_refl _) hrefused, hlast ▸ hagain⟩

/-- A configuration without `BuildsOnce` has a run that registers two components for the first
tier. -/
theorem exists_retry {config : Config} (hconfig : config.fault? = none)
    (hnot : ¬ config.BuildsOnce) :
    ∃ ks, (runAll ks (Context.ofConfig config)).nextUnknown ≤ Group.greatest ∧
      2 ≤ (foundations ks (Context.ofConfig config)).countP fun f => 0 < f.components.length := by
  obtain ⟨g, hg, hrefused, hroom⟩ := Config.exists_of_not_buildsOnce hnot
  obtain ⟨n, rfl⟩ := Nat.exists_eq_add_of_le hg
  -- Groups are issued until the next one is the group that hosts no base.
  let ctx : Context := { Context.ofConfig config with nextUnknown := config.unknownStart + n }
  have hready : ctx.Ready := ⟨(Context.Ready.ofConfig hconfig).tiers, Nat.le_add_right _ _⟩
  obtain ⟨hissued, hrun⟩ := issueGroups n (Context.ofConfig config)
  obtain ⟨htwice, next, complete, hnext, hissues⟩ := requireBases_twice hready rfl hrefused
  refine ⟨List.replicate n .issueGroup ++ [.requireBases, .requireBases], ?_, ?_⟩
  · rw [runAll_append, hrun]
    rcases hroom with hroom | ⟨g', hlt, hlast, hrefused'⟩
    · exact Nat.le_trans hissues.le_add
        (Nat.le_trans (Nat.add_le_add_right hnext _) (Nat.succ_add _ _ ▸ hroom))
    · exact Nat.le_trans (hissues.le_succ (Nat.le_trans hnext hlt) hrefused') hlast
  · rw [foundations_append, hissued, hrun, List.nil_append]
    exact htwice

end Call

/-- In every run of an accepted configuration whose groups have 32 bits, each build registers
the bases tier by tier, each with as many records as its capacity, and a build that fails ends
with a component without records.  All builds before another one have failed, and the bases
of the context are the components of the complete one.  No such run builds a base twice if and
only if a group that hosts no base comes too late for a second build. -/
theorem foundations_at_most_once {config : Config} (h : config.validate = .ok ()) :
    (∀ ks : List Call, (Call.runAll ks (Context.ofConfig config)).InRange →
      (∀ f ∈ Call.foundations ks (Context.ofConfig config),
        (f.complete = true →
          f.components.map Component.given = (List.range config.tiers).map Base.given) ∧
        (f.complete = false → ∃ m < config.tiers,
          f.components.map Component.given =
            (List.range m).map Base.given ++ [(Base.title m, 0)])) ∧
      ((Call.foundations ks (Context.ofConfig config)).Pairwise fun f _ => f.complete = false) ∧
      ∀ b ∈ (Call.runAll ks (Context.ofConfig config)).bases,
        b.tiers.map Base.capacity = (List.range config.tiers).map (Nat.pow 2) ∧
        ∃ f ∈ Call.foundations ks (Context.ofConfig config), f.complete = true ∧
          b.tiers.map Base.component = List.range' f.first config.tiers) ∧
    ((∀ ks : List Call, (Call.runAll ks (Context.ofConfig config)).InRange →
      ∀ tier, ((Call.foundations ks (Context.ofConfig config)).countP
        fun f => tier < f.components.length) ≤ 1) ↔ config.BuildsOnce) := by
  have hfault := Config.validate_eq_ok.1 h
  have hready := Context.Ready.ofConfig hfault
  have hreachable (ks : List Call) : Reachable (Call.runAll ks (Context.ofConfig config)) :=
    Reachable.runAll (.withConfig (Context.withConfig_eq_ok.2 ⟨hfault, rfl⟩)) ks
  refine ⟨fun ks _ => ⟨fun f hf => ?_, Call.foundations_retried hready ks, fun b hb => ?_⟩,
    fun hall => ?_, fun honce ks hrange tier => ?_⟩
  · have hlaid := (Call.foundations_laid hready ks f hf).1
    refine ⟨fun hcomplete => ?_, fun hfailed => ?_⟩
    · rw [hcomplete] at hlaid
      exact hlaid.given_of_complete
    · rw [hfailed] at hlaid
      exact hlaid.given_of_incomplete_range
  · have hcapacities := ((Run.regular (hreachable ks)).enrolled b hb).capacities
    rw [Call.config_runAll] at hcapacities
    exact ⟨hcapacities, (Call.bases_runAll hready rfl ks).2 b hb⟩
  · by_contra hnot
    obtain ⟨ks, hissued, htwice⟩ := Call.exists_retry hfault hnot
    have hrange := (Run.regular (hreachable ks)).inRange (Run.issuing (hreachable ks)) hissued
    exact absurd (hall ks hrange 0) (Nat.not_le.2 htwice)
  · exact Nat.le_trans List.countP_le_length
      (Call.foundations_length hready honce ks hrange.issued)

/-- One tier, and the first group to be issued is reserved. -/
def reservedStart : Config := { reserved := [10000], tiers := 1 }

/-- The first build is refused on the reserved group, the second one succeeds on the next
group: two components for the capacity 1, the first of them empty.  The default
configuration has no such run. -/
theorem foundations_at_most_once_reservedStart :
    reservedStart.validate = .ok () ∧
    (Call.runAll [.initBases, .initBases] (Context.ofConfig reservedStart)).InRange ∧
    (Call.foundations [.initBases, .initBases] (Context.ofConfig reservedStart)).map
        (fun f => (f.first, f.components.map Component.given, f.complete)) =
      [(0, [("Multitarget base 1", 0)], false), (1, [("Multitarget base 1", 1)], true)] ∧
    ¬ reservedStart.BuildsOnce ∧
    ∀ ks : List Call, (Call.runAll ks (Context.ofConfig {})).InRange →
      ∀ tier, ((Call.foundations ks (Context.ofConfig {})).countP
        fun f => tier < f.components.length) ≤ 1 := by
  have hvalid : reservedStart.validate = .ok () := by decide +kernel
  have hrange : (Call.runAll [.initBases, .initBases]
      (Context.ofConfig reservedStart)).InRange := by decide +kernel
  have hdefault : Config.HostsEveryBase {} := ⟨by decide, by decide, by decide⟩
  refine ⟨hvalid, hrange, by decide +kernel, fun honce => ?_, ?_⟩
  · have hcount := (foundations_at_most_once hvalid).2.2 honce [.initBases, .initBases] hrange 0
    exact absurd hcount (by decide +kernel)
  · exact (foundations_at_most_once (by decide +kernel)).2.2 hdefault.buildsOnce

end Barrage
