import Barrage.Proofs.Hazard.Orderly
import Barrage.Proofs.Hazard.SpawningTemplate

/-!
# Patterns raise no alarm

A run in which nothing but patterns creates spawns passes the check of hazards, whatever
patterns it fires and however many (`PatternRun.no_alarm`).  The exception is a template
that spawns by itself, or a spawn that is given to the placeholder for templates.

The context stays orderly all the time.  A call that creates no spawn keeps order since it
gives hand-assigned groups only, and keyframes get fresh ones.  A pattern keeps order since
it appends bursts, or shots that are followed by a motion.  The motion of a shot is accepted
whenever the shot is, so a failed pattern leaves no shot at the end either
(`Context.Loaded.timedShot`).

Bases are told apart by their groups, which are issued above the hand-assigned ones.  This
holds of groups of 32 bits as long as the counter of issued groups has not left their range,
so the main result is about contexts in range.
-/

namespace Barrage

open Build Hazard

/-! ## Runs in which only patterns spawn -/

/-- The number of spawns among the records. -/
def Context.spawns (ctx : Context) : Nat := (allRecords ctx.components).countP Record.isSpawn

/-- The call creates a spawn. -/
def Call.Spawns (k : Call) (ctx : Context) : Prop := ctx.spawns < (k.run ctx).spawns

/-- The groups that a call gives to a component, to run it or as its group context. -/
def Call.given : Call → List Group
  | .register _ caller _ => [caller]
  | .edit _ (.openContext groups) => groups
  | _ => []

/-- The call addresses no base, and the groups that it gives are hand-assigned. -/
structure Context.Admits (ctx : Context) (k : Call) : Prop where
  spares : ctx.Spares k
  given : ∀ g ∈ k.given, g ≤ ctx.config.maxGroup

/-- Contexts that are reached by calls of which only patterns create spawns, with the
templates of these patterns.  The bases may be built in advance. -/
inductive PatternRun : List Nat → Context → Prop
  | start {config : Config} : config.fault? = none → PatternRun [] (Context.ofConfig config)
  | quiet {fired : List Nat} {ctx : Context} (k : Call) :
      PatternRun fired ctx → ctx.Admits k → ¬ k.Spawns ctx → PatternRun fired (k.run ctx)
  | build {fired : List Nat} {ctx : Context} (k : Call) :
      PatternRun fired ctx → k = .initBases ∨ k = .requireBases → PatternRun fired (k.run ctx)
  | fire {fired : List Nat} {ctx : Context} (caller : Nat) (pool : Pool) (p : PatternCall) :
      PatternRun fired ctx → ctx.Spares (.pattern caller pool p) →
      PatternRun (p.template :: fired) ((Call.pattern caller pool p).run ctx)

/-! ## Patterns -/

theorem Action.not_isSpawn_of_moveTowards {target direction : Group} {distance : Float}
    {tween : Tween} {dynamic : Bool} {ctx : Context} {e : Effect}
    (h : (moveTowards target direction distance tween dynamic).effect ctx = .ok e) :
    ¬ e.isSpawn := by
  obtain rfl := effect_moveTowards h
  exact Bool.false_ne_true

namespace Context

theorem spawns_le_of_evolves {A : Nat → Prop} {ctx ctx' : Context} (h : Evolves A ctx ctx') :
    ctx.spawns ≤ ctx'.spawns :=
  h.le_countP (fun _ _ hr => hr) (Nat.le_refl _)

theorem spawns_lt_of_perform {i : Nat} {time : Float} {a : Action} {e : Effect} {ctx ctx' : Context}
    (h : perform i time a ctx = (.ok (), ctx')) (he : a.effect ctx = .ok e) (hspawn : e.isSpawn) :
    ctx.spawns < ctx'.spawns := by
  obtain ⟨c, r, hc, hr, -, hcomponents, -⟩ := components_of_perform h
  cases hr.symm.trans he
  have hcount := countP_set Record.isSpawn hc (c.push r)
  have hpush : (c.push r).records.countP Record.isSpawn = c.records.countP Record.isSpawn + 1 := by
    have hspawn : r.isSpawn := hspawn
    simp [Component.push, hspawn]
  rw [spawns, spawns, hcomponents]
  omega

namespace Orderly

variable {T : Group → Prop} {ctx : Context}

/-- The bursts of a plan run bases and put the template in the place of the placeholder. -/
theorem relays_of_plan {t : Group} {b : Bases} {as : List Assignment} {bursts : List Burst}
    (h : ctx.Orderly T) (hb : ctx.bases = some b) (hplan : b.planAll t as = .ok bursts)
    (ordered : Bool) (delay : Option Float) :
    ∀ burst ∈ bursts, burst.remap.pairs ≠ [] ∧
      (Effect.spawn burst.group ordered delay (some burst.remap.cleaned)).Relays ctx.RunsBase
        (· = t) := by
  have hcapacities := (h.regular.enrolled b hb).capacities
  obtain ⟨parts, -, hcarries⟩ := Bases.planAll_carries (Bases.binary_of_capacities hcapacities)
    (Bases.tiers_ne_nil h.regular.accepted hcapacities) hplan
  refine ((List.forall₂_and_left _ _).1 (hcarries.imp fun burst part hcarry => ⟨?_, hcarry⟩)).1
  obtain ⟨⟨base, hbase, hgroup, hlength⟩, hpairs⟩ := hcarry
  have hsends : (Group.template, t) ∈ burst.remap.pairs := by simp [hpairs]
  refine ⟨List.ne_nil_of_mem hsends,
    .burst ordered delay ⟨b, hb, base, hbase, hgroup⟩ ?_ fun g hg hne => ?_⟩
  · rw [Remap.resolve_cleaned, Remap.resolve_of_mem hsends]
  · -- The scratch area is below all groups that run bases.
    rw [Remap.resolve_cleaned]
    have hscratch := (Config.bounds_of_fault? h.regular.accepted).2
    refine Base.resolve_outer (h.scratch b hb ▸ hpairs) ?_ hne fun hbounds => ?_
    · rw [← hlength]
      exact Bases.capacity_le hcapacities hbase
    · exact Nat.not_lt.2 (Nat.le_trans hbounds.2 hscratch) (h.issued g hg).1

end Orderly

/-- A template may be fired from a component.  The groups in `T` run the templates that
were fired before, and `t` runs this one.  It counts from the first spawn on. -/
structure Loaded (T : Group → Prop) (t : Group) (n caller template : Nat) (ctx : Context) : Prop where
  orderly : ctx.Orderly fun g => T g ∨ n < ctx.spawns ∧ g = t
  grown : n ≤ ctx.spawns
  spared : ¬ ctx.IsBase caller
  registered : caller < ctx.components.length
  template : ∃ c, ctx.components[template]? = some c ∧ c.caller = t

namespace Loaded

variable {A : Nat → Prop} {T : Group → Prop} {t : Group} {n caller template : Nat}
  {ctx ctx' : Context}

theorem evolves (h : ctx.Loaded T t n caller template) (hevolves : Evolves A ctx ctx')
    (hspared : ¬ ctx'.IsBase caller)
    (horderly : (∀ g, (T g ∨ n < ctx.spawns ∧ g = t) → (T g ∨ n < ctx'.spawns ∧ g = t)) →
      ctx'.Orderly fun g => T g ∨ n < ctx'.spawns ∧ g = t) :
    ctx'.Loaded T t n caller template := by
  have hspawns := spawns_le_of_evolves hevolves
  refine ⟨horderly fun g => Or.imp_right (And.imp_left fun hlt => Nat.lt_of_lt_of_le hlt hspawns),
    Nat.le_trans h.grown hspawns, hspared, Nat.lt_of_lt_of_le h.registered hevolves.length_le, ?_⟩
  obtain ⟨c, hc, rfl⟩ := h.template
  obtain ⟨c', hc', hcaller, -⟩ := hevolves.extension.component template c hc
  exact ⟨c', hc', hcaller⟩

/-- Warnings and the log do not matter. -/
theorem note (h : ctx.Loaded T t n caller template) (hconfig : ctx'.config = ctx.config)
    (hcomponents : ctx'.components = ctx.components) (hnext : ctx'.nextUnknown = ctx.nextUnknown)
    (hbases : ctx'.bases = ctx.bases) : ctx'.Loaded T t n caller template := by
  have hevolves : Evolves (fun _ => True) ctx ctx' :=
    (Evolves.refl ctx).note hconfig hcomponents hnext
  refine h.evolves hevolves (isBase_congr hbases ▸ h.spared) fun _ => ?_
  have hspawns : ctx'.spawns = ctx.spawns := by rw [spawns, spawns, hcomponents]
  rw [hspawns]
  exact h.orderly.same hevolves hbases hcomponents

theorem requireBases : Keeps (Loaded T t n caller template) Context.requireBases := by
  intro ctx h
  have hevolves := Evolves.requireBases (A := fun _ => True) (fun _ _ => trivial) ctx (.refl ctx)
  refine h.evolves hevolves ?_ fun hT => ?_
  · rintro ⟨b, hb, base, hbase, hcomponent⟩
    rcases hrun : Context.requireBases ctx with ⟨e | b', ctx'⟩ <;> rw [hrun] at hb
    · rw [requireBases_eq_error hrun] at hb
      cases hb
    · rcases requireBases_eq_ok hrun with ⟨hbases, rfl⟩ | ⟨hbases, -, hplaces⟩
      · exact h.spared ⟨b, hb, base, hbase, hcomponent⟩
      · cases hbases.symm.trans hb
        exact absurd h.registered (Nat.not_lt.2 (hcomponent ▸ hplaces base hbase))
  · exact (Orderly.requireBases ctx h.orderly).mono hT

/-- A record is appended to the caller that is no spawn or a part of a burst. -/
theorem perform {time : Float} {a : Action} (h : ctx.Loaded T t n caller template)
    (ha : ∀ e, a.effect ctx = .ok e → e.isSpawn → e.Relays ctx.RunsBase fun g => T g ∨ g = t) :
    (Context.perform caller time a ctx).2.Loaded T t n caller template := by
  rcases hrun : Context.perform caller time a ctx with ⟨e | _, ctx'⟩
  · obtain ⟨-, rfl⟩ := perform_eq_error.1 hrun
    exact h
  · obtain ⟨_, _, -, -, -, -, hbases, -⟩ := components_of_perform hrun
    refine h.evolves (evolves_of_perform hrun) (isBase_congr hbases ▸ h.spared) fun hT => ?_
    refine h.orderly.performed hT h.spared hrun fun e he hspawn => (ha e he hspawn).mono ?_
    have hlt := spawns_lt_of_perform hrun he hspawn
    exact fun g => Or.imp_right fun hg => ⟨Nat.lt_of_le_of_lt h.grown hlt, hg⟩

theorem fire (time : Float) (as : List Assignment) :
    Keeps (Loaded T t n caller template) (Context.fire caller time template as) := by
  intro ctx h
  have hprepare : Keeps (Loaded T t n caller template) (prepare time template as) :=
    .prepare (fun _ _ h => h.note rfl rfl rfl rfl) (fun _ _ h => h.note rfl rfl rfl rfl)
      requireBases time template as
  rcases hrun : prepare time template as ctx with ⟨e | bursts, ctx₁⟩
  · rw [Context.fire, bind_eq_error.2 (Or.inl hrun)]
    exact hprepare.of_run hrun h
  · obtain ⟨c, hc, rfl⟩ := h.template
    obtain ⟨b, hb, hplan⟩ := plan_of_prepare hrun hc
    have hemit : Keeps (fun ctx => ctx.Loaded T c.caller n caller template ∧ ctx.bases = some b)
        (Build.each (emitBurst caller time) bursts) := by
      refine .each fun burst hburst => ?_
      rintro ctx ⟨h, hb⟩
      refine ⟨h.perform fun e he _ => ?_, ?_⟩
      · obtain ⟨hne, hrelays⟩ := h.orderly.relays_of_plan hb hplan false none burst hburst
        rw [← ((Action.effect_spawn_table hne).1 he).2]
        exact hrelays.mono fun g => Or.inr
      · exact (basesElements (some b)).perform trivial time _ ctx hb
    have hfire : Context.fire caller time template as ctx =
        Build.each (emitBurst caller time) bursts ctx₁ := by
      rw [Context.fire, bind_apply, hrun]
    rw [hfire]
    exact (hemit ctx₁ ⟨hprepare.of_run hrun h, hb⟩).1

theorem moveBullet (time : Float) (direction : Group) (distance : Float) (bullet : Group)
    (duration : Float) : Keeps (Loaded T t n caller template)
      (Pattern.moveBullet caller time direction distance bullet duration) := fun _ h =>
  h.perform fun _ he hspawn => absurd hspawn (Action.not_isSpawn_of_moveTowards he)

theorem arms : Arms (Loaded T t n caller template) (Loaded T t n caller template) caller
    template where
  weaken _ := id
  warn _ _ h := h.note rfl rfl rfl rfl
  fire time as := (fire time as).leads
  move time direction distance bullet duration :=
    (moveBullet time direction distance bullet duration).leads

/-- A shot of a timed line spawns the template and moves the bullet.  The motion is
accepted if the spawn was, so the spawn is not the last record. -/
theorem timedShot {time : Float} {direction : Group} {line : TimedLine} {a : Assignment}
    (h : ctx.Loaded T t n caller template) (hdirection : ctx.Valid direction)
    (hbullet : ctx.Valid a.bullet) (hduration : 0.0 ≤ line.duration) :
    (Pattern.timedShot caller time template direction line a ctx).2.Loaded T t n caller template := by
  rcases hspawn : Pattern.timedSpawn caller time template a ctx with ⟨e | _, ctx₁⟩
  · have hrun : Pattern.timedShot caller time template direction line a ctx = (.error e, ctx₁) :=
      bind_eq_error.2 (Or.inl hspawn)
    obtain ⟨-, rfl⟩ := perform_eq_error.1 hspawn
    rw [hrun]
    exact h
  · have hspawned := evolves_of_perform hspawn
    obtain ⟨ctx₂, hmove, -, hmoved⟩ := Pattern.moveBullet_of_takes (takes_of_perform hspawn)
      (hspawned.valid hdirection) (hspawned.valid hbullet) hduration line.distance
    have hrun : Pattern.timedShot caller time template direction line a ctx = (.ok (), ctx₂) :=
      bind_eq_ok.2 ⟨(), ctx₁, hspawn, hmove⟩
    rw [hrun]
    obtain ⟨c, r, hc, he, hgroups, hset, hbases, -⟩ := components_of_perform hspawn
    obtain ⟨c₁, next, hc₁, hnext, -, hset₁, hbases₁, -⟩ := components_of_perform hmove
    rw [hset, List.getElem?_set_self (List.getElem?_eq_some_iff.1 hc).1] at hc₁
    cases hc₁
    rw [hset, List.set_set] at hset₁
    have hbases₂ := hbases₁.trans hbases
    have hevolves := hspawned.trans hmoved
    refine h.evolves hevolves (isBase_congr hbases₂ ▸ h.spared) fun hT => ?_
    have hfree := h.orderly.groups h.spared hc (rfl : c.recordGroups = c.recordGroups)
    refine h.orderly.edit hT hevolves hbases₂ hset₁ hfree
      (((h.orderly.components caller c hc).orderly.mono hT).push_shot ?_ ?_ ?_)
    · obtain ⟨d, hd, rfl⟩ := h.template
      have heffect : r.effect = .spawn d.caller true none (some a.remap.cleaned) := by
        rw [Action.effect_spawn_component hd] at he
        exact ((Action.effect_spawn_table (by simp [Assignment.remap, Assignment.pairs,
          Assignment.toList, Assignment.placeholders])).1 he).2.symm
      have hlt := spawns_lt_of_perform hspawn he (by rw [heffect]; rfl)
      rw [heffect]
      refine .mk _ _ _ (Or.inr ⟨?_, rfl⟩)
      exact Nat.lt_of_le_of_lt h.grown (Nat.lt_of_lt_of_le hlt (spawns_le_of_evolves hmoved))
    · rw [hgroups]
      exact fun g hg => (hfree g hg).2
    · exact Action.not_isSpawn_of_moveTowards hnext

theorem timedLine (time : Float) (emitter direction : Group) (line : TimedLine) :
    Keeps (fun s => s.context.Loaded T t n caller template)
      (Pattern.timedLine caller time template emitter direction line) := by
  intro s h
  rw [Pattern.timedLine_eq_shoot]
  rcases Firing.shoot_context with heq | ⟨volley, haim, heq⟩ <;> rw [heq]
  · exact h
  · obtain ⟨_, -, haim⟩ := Except.bind_eq_ok.1 haim
    obtain ⟨haimed, -, -, htween⟩ := Pattern.aimTimedLine_eq_ok haim
    have hduration := Tween.validate_linear.1 htween
    -- The groups of the line stay valid while it is fired.
    let P (ctx : Context) : Prop :=
      ctx.Loaded T t n caller template ∧ Evolves (fun _ => True) s.context ctx
    have hwarn : ∀ w ctx, P ctx → P (ctx.warn w) := fun _ _ ⟨h, hevolves⟩ =>
      ⟨h.note rfl rfl rfl rfl, hevolves.note rfl rfl rfl⟩
    have hshot : ∀ shot ∈ volley.assignments.zipIdx, Keeps P (Pattern.timedShot caller
        (time + Float.ofNat shot.2 * line.gap) template direction line shot.1) := by
      rintro shot hmem ctx ⟨h, hevolves⟩
      have hbullet := haimed.bullet (List.fst_mem_of_mem_zipIdx hmem)
      have hperform : Keeps (Evolves (fun _ => True) s.context) (Pattern.timedShot caller
          (time + Float.ofNat shot.2 * line.gap) template direction line shot.1) :=
        .bind (Evolves.perform trivial _ _) fun _ => Evolves.perform trivial _ _
      exact ⟨h.timedShot (hevolves.valid haimed.toward) (hevolves.valid hbullet) hduration,
        hperform ctx hevolves⟩
    have hbody : Keeps P (do
        Context.warn? volley.warning
        Pattern.timedShots caller time template direction line volley.assignments.zipIdx) :=
      .bind (.warn? hwarn volley.warning) fun _ => .each hshot
    exact (hbody s.context ⟨h, .refl s.context⟩).1

theorem pattern (p : PatternCall) :
    Keeps (fun s => s.context.Loaded T t n caller p.template) (p.run caller) := by
  cases p with
  | arc time template circle arc => exact (arms.arc time circle arc).keeps
  | radial time template circle radial => exact (arms.radial time circle radial).keeps
  | line time template emitter direction line =>
      exact (arms.line time emitter direction line).keeps
  | radialWave time template circle wave => exact (arms.radialWave time circle wave).keeps
  | timedLine time template emitter direction line =>
      exact timedLine time emitter direction line

end Loaded

end Context

/-- A pattern does nothing without its template. -/
theorem PatternCall.run_of_no_template {caller : Nat} {p : PatternCall} {s : Firing}
    (h : s.context.components[p.template]? = none) :
    (p.run caller s).2.context = s.context := by
  have harc : ∀ time template circle arc, s.context.components[template]? = none →
      Keeps (fun s' => s'.context = s.context) (Pattern.arc caller time template circle arc) := by
    intro time template circle arc hnone s' hs'
    rw [Pattern.arc_eq_shoot]
    rcases Firing.shoot_context with heq | ⟨volley, haim, -⟩
    · rw [heq, hs']
    · obtain ⟨_, -, haim⟩ := Except.bind_eq_ok.1 haim
      obtain ⟨-, c, hc⟩ := Pattern.aimArc_eq_ok haim
      rw [hs', hnone] at hc
      cases hc
  cases p with
  | arc time template circle a => exact harc time template circle a h s rfl
  | radial time template circle r =>
      exact Keeps.bind (.check _) (fun a => harc time template circle a h) s rfl
  | line time template emitter direction l =>
      rw [run, Pattern.line_eq_shoot]
      rcases Firing.shoot_context with heq | ⟨aimed, haim, -⟩
      · exact heq
      · obtain ⟨_, -, haim⟩ := Except.bind_eq_ok.1 haim
        obtain ⟨volley, durations⟩ := aimed
        obtain ⟨c, hc⟩ := (Pattern.aimLine_eq_ok haim).1.known
        cases hc.symm.trans h
  | radialWave time template circle w =>
      have hradial : ∀ time, Keeps (fun s' => s'.context = s.context)
          (Pattern.radial caller time template circle w.radial) := fun time =>
        .bind (.check _) fun a => harc time template circle a h
      exact Keeps.bind (.check _) (fun _ => .each fun _ _ => hradial _) s rfl
  | timedLine time template emitter direction l =>
      rw [run, Pattern.timedLine_eq_shoot]
      rcases Firing.shoot_context with heq | ⟨volley, haim, -⟩
      · exact heq
      · obtain ⟨_, -, haim⟩ := Except.bind_eq_ok.1 haim
        obtain ⟨c, hc⟩ := (Pattern.aimTimedLine_eq_ok haim).1.known
        cases hc.symm.trans h

/-! ## Calls -/

namespace Context.Orderly

variable {T : Group → Prop} {ctx : Context} {i : Nat}

/-- A pattern is fired.  Its template counts if it creates a spawn. -/
theorem pattern {caller : Nat} {pool : Pool} {p : PatternCall} (h : ctx.Orderly T)
    (hcaller : ¬ ctx.IsBase caller) :
    ((Call.pattern caller pool p).run ctx).Orderly fun g =>
      T g ∨ ctx.spawns < ((Call.pattern caller pool p).run ctx).spawns ∧
        ∃ c, ctx.components[p.template]? = some c ∧ c.caller = g := by
  rcases Nat.lt_or_ge caller ctx.components.length with hlt | hge
  · cases htemplate : ctx.components[p.template]? with
    | none =>
        rw [Call.run, PatternCall.run_of_no_template (s := ⟨ctx, pool⟩) htemplate]
        exact h.mono fun g => Or.inl
    | some c =>
        have hloaded : ctx.Loaded T c.caller ctx.spawns caller p.template :=
          ⟨h.mono fun g => Or.inl, Nat.le_refl _, hcaller, hlt, c, htemplate, rfl⟩
        refine (Loaded.pattern p ⟨ctx, pool⟩ hloaded).orderly.mono fun g => Or.imp_right ?_
        rintro ⟨hgrown, hg⟩
        exact ⟨hgrown, c, rfl, hg.symm⟩
  · rw [Call.run, PatternCall.run_of_none (List.getElem?_eq_none hge)]
    exact h.mono fun g => Or.inl

theorem keeps_assertSpawnOrder (required : Bool) :
    Keeps (fun ctx => ctx.Orderly T ∧ ¬ ctx.IsBase i) (Context.assertSpawnOrder i required) := by
  rintro ctx ⟨h, hi⟩
  refine ⟨h.assertSpawnOrder hi required, ?_⟩
  rwa [isBase_congr ((basesElements ctx.bases).assertSpawnOrder trivial required ctx rfl)]

theorem keeps_inscribe (time : Float) (s : Scaling) (divide : Bool) :
    Keeps (fun ctx => ctx.Orderly T ∧ ¬ ctx.IsBase i)
      (Context.inscribe i time (s.effect divide)) := by
  rintro ctx ⟨h, hi⟩
  have hnew : Elements (Evolves (fun _ => True) ctx) fun _ => True :=
    Evolves.elements fun _ _ => trivial
  have hevolves := hnew.inscribe (i := i) trivial time s divide ctx (.refl ctx)
  have hbases := (basesElements ctx.bases).inscribe (i := i) trivial time s divide ctx rfl
  refine ⟨?_, by rwa [isBase_congr hbases]⟩
  rcases hrun : Context.inscribe i time (s.effect divide) ctx with ⟨e | _, ctx'⟩
  · rw [inscribe_eq_error hrun]
    exact h
  · rw [hrun] at hevolves
    have hscale : ¬ (s.effect divide).isSpawn := Bool.false_ne_true
    exact h.inscribed hi hscale hrun hevolves

/-- A keyframe gets a fresh group, and creates no spawn. -/
theorem buildKeyframe (s : Scaling) : Keeps (Orderly T) (Context.buildKeyframe s) := by
  intro ctx h
  have hissued : ctx.issueGroup.2.Orderly T :=
    h.same ((Evolves.refl (A := fun _ => True) ctx).step .issue) rfl rfl
  have hfresh : ¬ ctx.RunsBase ctx.nextUnknown := fun hg => Nat.lt_irrefl _ (h.issued _ hg).2
  have hspared : ¬ ctx.IsBase ctx.components.length := fun hi => Nat.lt_irrefl _ (h.known _ hi)
  rw [Context.buildKeyframe, bind_of_ok (update_apply _ _), bind_of_ok (read_apply _),
    bind_of_ok (update_apply _ _)]
  refine Keeps.left (Q := fun ctx' => ¬ ctx'.IsBase ctx.components.length) ?_
    ⟨hissued.register ⟨Nat.lt_succ_self _, hfresh⟩ _ _, hspared⟩
  refine .bind (keeps_assertSpawnOrder true) fun _ => .bind (keeps_inscribe _ s false) fun _ => ?_
  refine .ite (.bind (keeps_inscribe _ s true) fun _ => ?_) ?_
  all_goals
    refine .bind (.change fun ctx' ⟨h', hi⟩ => ⟨?_, hi⟩) fun _ => .pure _
    exact h'.same ((Evolves.refl (A := fun _ => True) ctx').note rfl rfl rfl) rfl rfl

theorem keyframe (s : Scaling) : Keeps (Orderly T) (Context.keyframe s) := by
  refine .bind .read fun ctx => ?_
  cases ctx.keyframe? s with
  | some i => exact .pure i
  | none => exact buildKeyframe s

/-- An action that creates no spawn. -/
theorem perform {time : Float} {a : Action} (h : ctx.Orderly T) (hi : ¬ ctx.IsBase i)
    (hquiet : ¬ ctx.spawns < (Context.perform i time a ctx).2.spawns) :
    (Context.perform i time a ctx).2.Orderly T := by
  rcases hrun : Context.perform i time a ctx with ⟨e | _, ctx'⟩
  · obtain ⟨-, rfl⟩ := perform_eq_error.1 hrun
    exact h
  · rw [hrun] at hquiet
    exact h.performed (fun _ => id) hi hrun fun e he hspawn =>
      absurd (spawns_lt_of_perform hrun he hspawn) hquiet

/-- A scaling is a spawn of its keyframe, so it creates no spawn only if it is refused. -/
theorem scale {time : Float} {target : Group} {s : Scaling} (h : ctx.Orderly T)
    (hquiet : ¬ ctx.spawns < (Context.scale i time target s ctx).2.spawns) :
    (Context.scale i time target s ctx).2.Orderly T := by
  rcases hrun : Context.scale i time target s ctx with ⟨e | _, ctx'⟩
  · rcases bind_eq_error.1 hrun with hcheck | ⟨_, _, hcheck, hrun⟩
    · obtain ⟨-, rfl⟩ := check_eq_error.1 hcheck
      exact h
    obtain ⟨-, rfl⟩ := check_eq_ok.1 hcheck
    rcases bind_eq_error.1 hrun with hkeyframe | ⟨k, ctx₁, hkeyframe, hperform⟩
    · exact (keyframe s).of_run hkeyframe h
    · obtain ⟨-, rfl⟩ := perform_eq_error.1 hperform
      exact (keyframe s).of_run hkeyframe h
  · obtain ⟨_, _, hcheck, hrest⟩ := bind_eq_ok.1 hrun
    obtain ⟨-, rfl⟩ := check_eq_ok.1 hcheck
    obtain ⟨k, ctx₁, hkeyframe, hperform⟩ := bind_eq_ok.1 hrest
    have hnew : Elements (Evolves (fun _ => True) ctx) fun _ => True :=
      Evolves.elements fun _ _ => trivial
    have hle := spawns_le_of_evolves ((hnew.keyframe Evolves.cached s).of_run hkeyframe (.refl ctx))
    obtain ⟨_, r, -, he, -⟩ := components_of_perform hperform
    obtain ⟨_, _, -, -, -, hspawn⟩ := Action.effect_spawn_eq_ok.1 he
    have hlt := spawns_lt_of_perform hperform he (by rw [← hspawn]; rfl)
    rw [hrun] at hquiet
    exact absurd (Nat.lt_of_le_of_lt hle hlt) hquiet

/-- A call that creates no spawn. -/
theorem quiet {k : Call} (h : ctx.Orderly T) (hk : ctx.Admits k) (hquiet : ¬ k.Spawns ctx) :
    (k.run ctx).Orderly T := by
  have hnote : Evolves (fun _ => True) ctx ctx := .refl ctx
  cases k with
  | register name caller layer =>
      exact h.register (h.of_hand (hk.given caller (List.mem_singleton.2 rfl))) name layer
  | issueGroup => exact h.same (hnote.step .issue) rfl rfl
  | addSpell name caller => exact h.same (hnote.note rfl rfl rfl) rfl rfl
  | addToSpell spell component =>
      simp only [Call.run]
      split
      next ctx' hadd =>
        obtain ⟨spells, rfl⟩ := addToSpell_eq_ok hadd
        exact h.same (hnote.note rfl rfl rfl) rfl rfl
      next => exact h
  | drainWarnings => exact h.same (hnote.note rfl rfl rfl) rfl rfl
  | initBases =>
      rw [Call.run, initBases_snd]
      exact requireBases ctx h
  | requireBases => exact requireBases ctx h
  | edit i e =>
      have hi := hk.spares i rfl
      cases e with
      | trigger time a => exact h.perform hi hquiet
      | spawnOrder required => exact h.assertSpawnOrder hi required
      | openContext groups => exact h.startGroupContext hi hk.given
      | closeContext => exact h.endGroupContext hi
  | groupLastRecord i groups => exact h.groupLastRecord (hk.spares i rfl) groups
  | scale i time target s => exact h.scale hquiet
  | pattern caller pool p =>
      refine (h.pattern (hk.spares caller rfl)).mono fun g => ?_
      rintro (hg | ⟨hgrown, -⟩)
      · exact hg
      · exact absurd hgrown hquiet

end Context.Orderly

/-! ## No alarm -/

/-- The group runs one of the templates. -/
def Context.RunsTemplate (ctx : Context) (fired : List Nat) (g : Group) : Prop :=
  ∃ i ∈ fired, ∃ c, ctx.components[i]? = some c ∧ c.caller = g

theorem Context.RunsTemplate.evolves {A : Nat → Prop} {ctx ctx' : Context} {fired : List Nat}
    {g : Group} (h : ctx.RunsTemplate fired g) (hevolves : Evolves A ctx ctx') :
    ctx'.RunsTemplate fired g := by
  obtain ⟨i, hi, c, hc, rfl⟩ := h
  obtain ⟨c', hc', hcaller, -⟩ := hevolves.extension.component i c hc
  exact ⟨i, hi, c', hc', hcaller⟩

theorem PatternRun.orderly {fired : List Nat} {ctx : Context} (h : PatternRun fired ctx) :
    ctx.Orderly (ctx.RunsTemplate fired) := by
  induction h with
  | start hconfig => exact .ofConfig hconfig
  | @quiet fired ctx k _ hk hquiet ih =>
      exact (ih.quiet hk hquiet).mono fun g hg => hg.evolves (k.evolves ctx)
  | @build fired ctx k _ hk ih =>
      have hbuild : k.run ctx = (Context.requireBases ctx).2 := by
        rcases hk with rfl | rfl
        · exact Context.initBases_snd ctx
        · rfl
      have horderly := Context.Orderly.requireBases ctx ih
      rw [← hbuild] at horderly
      exact horderly.mono fun g hg => hg.evolves (k.evolves ctx)
  | @fire fired ctx caller pool p _ hspares ih =>
      refine (ih.pattern (hspares caller rfl)).mono fun g => ?_
      have hevolves := (Call.pattern caller pool p).evolves ctx
      rintro (hg | ⟨-, c, hc, rfl⟩)
      · obtain ⟨i, hi, hrest⟩ := hg.evolves hevolves
        exact ⟨i, List.mem_cons_of_mem _ hi, hrest⟩
      · obtain ⟨c', hc', hcaller, -⟩ := hevolves.extension.component _ c hc
        exact ⟨p.template, List.mem_cons_self, c', hc', hcaller⟩

/-- A run in which only patterns create spawns passes the check, if its issued groups have 32
bits and no spawn belongs to the template placeholder or to the group of a template that was
fired.  All groups that run bases are above the hand-assigned ones, and have 32 bits too. -/
theorem PatternRun.no_alarm {fired : List Nat} {ctx : Context} (h : PatternRun fired ctx)
    (hrange : ctx.InRange) (hplaceholder : ¬ Bearing ctx.components Group.template)
    (htemplates : ∀ i ∈ fired, ∀ c ∈ ctx.components[i]?, ¬ Bearing ctx.components c.caller) :
    check ctx.components = .ok () ∧
      ∀ g, ctx.RunsBase g → ctx.config.maxGroup < g ∧ g ≤ Group.greatest := by
  constructor
  · refine h.orderly.passes hplaceholder ?_
    rintro g ⟨i, hi, c, hc, rfl⟩
    exact htemplates i hi c hc
  · intro g hg
    obtain ⟨habove, hissued⟩ := h.orderly.issued g hg
    exact ⟨habove, Nat.le_trans (Nat.le_of_lt hissued) hrange.issued⟩

namespace PatternRun

instance (k : Call) (ctx : Context) : Decidable (k.Spawns ctx) :=
  inferInstanceAs (Decidable (_ < _))

instance (ctx : Context) (k : Call) : Decidable (ctx.Admits k) :=
  decidable_of_iff (ctx.Spares k ∧ ∀ g ∈ k.given, g ≤ ctx.config.maxGroup)
    ⟨fun ⟨hspares, hgiven⟩ => ⟨hspares, hgiven⟩, fun ⟨hspares, hgiven⟩ => ⟨hspares, hgiven⟩⟩

/-- Two bullets, one after the other. -/
def pair : PatternCall :=
  .timedLine 0.5 1 41 2 { bullets := 2, gap := 0.25, duration := 1.0, distance := 480.0 }

/-- A fan is fired, its last burst is given to the group of a base, and a timed line
follows. -/
def mixed : Context :=
  Call.runAll
    [.pattern 0 (PatternCall.callerOn 36).pool PatternCall.fan, .groupLastRecord 0 [10001],
      .pattern 0 (PatternCall.callerOn 36).pool pair]
    (PatternCall.callerOn 36).context

theorem no_alarm_mixed :
    PatternRun [1, 1] mixed ∧ mixed.InRange ∧ mixed.spawns = 7 ∧
      check mixed.components = .ok () ∧
      ∀ g, mixed.RunsBase g → mixed.config.maxGroup < g ∧ g ≤ Group.greatest := by
  have hstart : PatternRun [] (PatternCall.callerOn 36).context := by
    unfold PatternCall.callerOn
    dsimp only [Call.runAll, List.foldl]
    refine .quiet _ (.quiet _ (.quiet _ (.quiet _ (.quiet _ (.start ?_) ?_ ?_) ?_ ?_) ?_ ?_) ?_ ?_)
      ?_ ?_
    all_goals decide +kernel
  have hrun : PatternRun [1, 1] mixed :=
    .fire 0 _ pair (.quiet (.groupLastRecord 0 [10001]) (.fire 0 _ PatternCall.fan hstart
      (by decide +kernel)) (by decide +kernel) (by decide +kernel)) (by decide +kernel)
  have hrange : mixed.InRange := by decide +kernel
  refine ⟨hrun, hrange, by decide +kernel, hrun.no_alarm hrange (by decide +kernel) ?_⟩
  decide +kernel

end PatternRun

end Barrage
