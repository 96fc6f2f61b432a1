import Barrage.Export.Tally
import Barrage.Proofs.Burst.Expansion
import Barrage.Proofs.Burst.Foundation
import Barrage.Proofs.Pattern.Volley

/-!
# Patterns redirect to valid groups

The check of a record looks at the groups that it names, but not into its remap.  A spawn
may send groups to anywhere, if it is written by hand.  Patterns do not: every remap in a
record that a pattern appends leads to groups that are valid in the context that the
pattern leaves (`PatternCall.redirects_valid`).

There are three sources of targets.

* A base leads to groups of the scratch area, which an accepted configuration keeps in
  the range of hand-assigned groups and apart from the reserved ones.
* A burst leads to groups of its assignments, and these were checked before the pattern
  drew its bullets (`Pattern.Aimed`).
* A burst leads to the template.  The template refers to a placeholder, so it has a
  record, and the record shows that the group of the template is valid.

Valid groups are below the next one to be issued.  Where this one has 32 bits, and the end of
the scratch area too, all targets do.
-/

namespace Barrage

open Build

/-! ## Remaps that lead to valid groups -/

/-- The remap of the effect, if it has one, leads to valid groups. -/
def Effect.Redirects (ctx : Context) (e : Effect) : Prop :=
  ∀ t ∈ e.remap?, ∀ p ∈ t.pairs, ctx.Valid p.2

theorem Effect.Redirects.mono {ctx ctx' : Context} {e : Effect} (h : e.Redirects ctx)
    (hvalid : ∀ g, ctx.Valid g → ctx'.Valid g) : e.Redirects ctx' :=
  fun t ht p hp => hvalid _ (h t ht p hp)

/-- The effect of a spawn with a table has no other targets than the table. -/
theorem Effect.redirects_of_table {ctx : Context} {target : Target} {ordered : Bool} {r : Remap}
    {delay : Float} {e : Effect} (h : ∀ p ∈ r.pairs, ctx.Valid p.2)
    (he : (Action.spawn target ordered (.table r) delay).effect ctx = .ok e) : e.Redirects ctx := by
  obtain ⟨g, c?, -, -, hclean, rfl⟩ := Action.effect_spawn_eq_ok.1 he
  rintro t ht p hp
  obtain ⟨cleaned, rfl, rfl⟩ := Option.map_eq_some_iff.1 ht
  rw [RemapRequest.clean] at hclean
  split at hclean
  · cases hclean
  · obtain ⟨_, hcleaned, heq⟩ := Except.map_eq_ok.1 hclean
    cases heq
    obtain ⟨-, rfl⟩ := Remap.clean_eq_ok.1 hcleaned
    exact h p (List.mem_of_mem_filter hp)

theorem Assignment.valid_of_mem_pairs {ctx : Context} {source target : Assignment}
    (h : ∀ g ∈ target.toList, ctx.Valid g) : ∀ p ∈ source.pairs target, ctx.Valid p.2 :=
  fun p hp => h _ (List.of_mem_zip (a := p.1) (b := p.2) hp).2

/-- The scratch area of an accepted configuration is valid. -/
theorem Context.valid_of_scratch {ctx : Context} (h : ctx.config.fault? = none) {g : Group}
    (hg : ctx.config.scratchStart ≤ g ∧ g ≤ ctx.config.scratchEnd) : ctx.Valid g := by
  obtain ⟨hreserved, hhand⟩ := Config.free_of_fault? h hg
  exact valid_iff.2 ⟨hreserved, Or.inl hhand⟩

/-- The records of a base lead to the scratch area. -/
theorem Base.redirects_effect {ctx : Context} (h : ctx.config.fault? = none) {k : Nat}
    (hk : k < ctx.config.largestTier) :
    (Base.effect ctx.config.scratchStart k).Redirects ctx := by
  refine Effect.redirects_of_table ?_ (Context.effect_baseSpawn ctx _ k)
  exact Assignment.valid_of_mem_pairs fun g hg =>
    Context.valid_of_scratch h (Config.scratch_bounds hk hg)

namespace Context

/-- Records were added to the components of a regular context, and the remaps of all of
them lead to valid groups. -/
structure Redirected (ctx₀ ctx : Context) : Prop where
  regular : ctx.Regular
  evolves : Evolves (fun _ => True) ctx₀ ctx
  added : ∀ j c, ctx.components[j]? = some c →
    ∃ added, c.records = ctx₀.recordsOf j ++ added ∧ ∀ r ∈ added, r.effect.Redirects ctx

theorem recordsOf_of_component {ctx : Context} {j : Nat} {c : Component}
    (h : ctx.components[j]? = some c) : ctx.recordsOf j = c.records := by
  rw [recordsOf, h]
  rfl

theorem recordsOf_of_none {ctx : Context} {j : Nat} (h : ctx.components[j]? = none) :
    ctx.recordsOf j = [] := by
  rw [recordsOf, h]
  rfl

namespace Redirected

variable {ctx₀ ctx ctx' : Context}

theorem refl (h : ctx.Regular) : ctx.Redirected ctx :=
  ⟨h, .refl ctx, fun _ _ hc => ⟨[], by simp [recordsOf_of_component hc], by simp⟩⟩

theorem trans (h : ctx₀.Redirected ctx) (h' : ctx.Redirected ctx') : ctx₀.Redirected ctx' := by
  refine ⟨h'.regular, h.evolves.trans h'.evolves, fun j c hc => ?_⟩
  obtain ⟨later, hrecords, hlater⟩ := h'.added j c hc
  cases hold : ctx.components[j]? with
  | none =>
      have hnone : ctx₀.components[j]? = none :=
        List.getElem?_eq_none (Nat.le_trans h.evolves.length_le (List.getElem?_eq_none_iff.1 hold))
      rw [recordsOf_of_none hold] at hrecords
      exact ⟨later, by rw [hrecords, recordsOf_of_none hnone], hlater⟩
  | some c₁ =>
      obtain ⟨earlier, hrecords₁, hearlier⟩ := h.added j c₁ hold
      rw [recordsOf_of_component hold, hrecords₁, List.append_assoc] at hrecords
      refine ⟨earlier ++ later, hrecords, fun r hr => ?_⟩
      rcases List.mem_append.1 hr with hr | hr
      · exact (hearlier r hr).mono fun _ => h'.evolves.valid
      · exact hlater r hr

/-- Warnings and the log do not matter. -/
theorem note (h : ctx₀.Redirected ctx) (hconfig : ctx'.config = ctx.config)
    (hcomponents : ctx'.components = ctx.components) (hnext : ctx'.nextUnknown = ctx.nextUnknown)
    (hbases : ctx'.bases = ctx.bases) : ctx₀.Redirected ctx' := by
  have hevolves : Evolves (fun _ => True) ctx ctx' :=
    (Evolves.refl ctx).note hconfig hcomponents hnext
  refine h.trans ⟨h.regular.evolves hbases hevolves, hevolves, fun j c hc => ?_⟩
  rw [hcomponents] at hc
  exact ⟨[], by simp [recordsOf_of_component hc], by simp⟩

/-- An action is performed, and if it has a remap, that leads to valid groups. -/
theorem perform {i : Nat} {time : Float} {a : Action} (h : ctx₀.Redirected ctx)
    (ha : ∀ e, a.effect ctx = .ok e → e.Redirects ctx) :
    ctx₀.Redirected (Context.perform i time a ctx).2 := by
  have hregular := (Regular.ingredients i).perform time a ctx h.regular
  rcases hrun : Context.perform i time a ctx with ⟨e | _, ctx'⟩ <;> rw [hrun] at hregular
  · obtain ⟨-, rfl⟩ := perform_eq_error.1 hrun
    exact h
  · have hevolves := evolves_of_perform hrun
    obtain ⟨c, r, hc, heffect, -, hset, -⟩ := components_of_perform hrun
    refine h.trans ⟨hregular, hevolves, fun j d hd => ?_⟩
    rw [hset] at hd
    rcases Component.getElem?_set_cases hd with ⟨rfl, rfl⟩ | hd
    · refine ⟨[r], by rw [recordsOf_of_component hc]; rfl, fun r' hr' => ?_⟩
      cases List.mem_singleton.1 hr'
      exact (ha _ heffect).mono fun _ => hevolves.valid
    · exact ⟨[], by simp [recordsOf_of_component hd], by simp⟩

/-! ## Bases -/

theorem requireBases : Keeps ctx₀.Redirected Context.requireBases := by
  intro ctx h
  have hregular := Regular.requireBases ctx h.regular
  have hevolves := Evolves.requireBases (A := fun _ => True) (fun _ _ => trivial) ctx (.refl ctx)
  cases hbases : ctx.bases with
  | some b =>
      rw [requireBases_of_some hbases]
      exact h
  | none =>
      rcases hrun : Context.requireBases ctx with ⟨result, ctx'⟩
      rw [hrun] at hregular hevolves
      obtain ⟨cs, hcs, hlaid, -, -⟩ := requireBases_laid hbases hrun
      refine h.trans ⟨hregular, hevolves, fun j c hc => ?_⟩
      rw [hcs] at hc
      rcases Nat.lt_or_ge j ctx.components.length with hj | hj
      · rw [List.getElem?_append_left hj] at hc
        exact ⟨[], by simp [recordsOf_of_component hc], by simp⟩
      · -- A new component has records of a base only.
        have hmem := List.mem_of_getElem? ((List.getElem?_append_right hj).symm.trans hc)
        obtain ⟨tier, htier, n, hn, hlays⟩ := hlaid.lays c hmem
        have hconfig : ctx'.config = ctx.config := hevolves.extension.config
        refine ⟨c.records, by rw [recordsOf_of_none (List.getElem?_eq_none hj), List.nil_append],
          fun r hr => ?_⟩
        have heffect := List.mem_map_of_mem (f := Record.effect) hr
        rw [hlays.records, List.mem_map] at heffect
        obtain ⟨k, hk, heffect⟩ := heffect
        have hlargest : Nat.pow 2 tier ≤ ctx'.config.largestTier := by
          rw [hconfig]
          exact Nat.pow_le_pow_right (by decide) (Nat.le_sub_one_of_lt (List.mem_range.1 htier))
        rw [← heffect, ← hconfig]
        exact Base.redirects_effect hregular.accepted
          (Nat.lt_of_lt_of_le (List.mem_range.1 hk) (Nat.le_trans hn hlargest))

theorem prepare (time : Float) (template : Nat) (as : List Assignment) :
    Keeps ctx₀.Redirected (Context.prepare time template as) :=
  .prepare (fun _ _ h => h.note rfl rfl rfl rfl) (fun _ _ h => h.note rfl rfl rfl rfl)
    requireBases time template as

end Redirected

end Context

/-! ## Aims -/

/-- A template is required to refer to a group, so it has a record. -/
theorem Context.records_of_enforceTemplate {ctx : Context} {template : Nat}
    {family : PatternFamily} {required : List Group} {c : Component}
    (h : ctx.enforceTemplate template family required = .ok c) (hne : required ≠ []) :
    c.records ≠ [] := by
  simp only [enforceTemplate, liftM, monadLift, MonadLift.monadLift, Except.bind_eq_ok,
    Except.guard_eq_ok, Except.mapError_eq_ok, Except.pure_eq_ok, not_not, List.filter_eq_nil_iff,
    decide_eq_true_eq] at h
  obtain ⟨_, -, -, hrefers, -, rfl⟩ := h
  intro hnil
  obtain ⟨g, hg⟩ := List.exists_mem_of_ne_nil required hne
  exact absurd (hrefers g hg) (by simp [Component.refersTo, Component.groupRefs, hnil])

namespace Pattern

/-- The template is a component with a record, and the groups of the assignments are
valid. -/
structure Aimed (ctx : Context) (template : Nat) (as : List Assignment) : Prop where
  template : ∃ c, ctx.components[template]? = some c ∧ c.records ≠ []
  groups : ∀ a ∈ as, ∀ g ∈ a.toList, ctx.Valid g

variable {caller template : Nat} {time : Float} {circle : Circle} {emitter direction : Group}
  {ctx : Context} {pool : Pool} {volley : Volley}

theorem aimed_of_aimArc {arc : Arc} (h : aimArc ctx pool time template circle arc = .ok volley) :
    Aimed ctx template volley.assignments := by
  simp only [aimArc, liftM, monadLift, MonadLift.monadLift, Except.bind_eq_ok,
    Except.mapError_eq_ok, Except.pure_eq_ok] at h
  obtain ⟨_, -, c, htemplate, placed, -, _, hcenter, _, hgroups, rfl⟩ := h
  refine ⟨⟨c, Context.enforceTemplate_eq_ok htemplate,
    Context.records_of_enforceTemplate htemplate (by simp)⟩, fun a ha g hg => ?_⟩
  have hchecked : ∀ g ∈ [a.bullet, a.collision, a.target], ctx.Valid g := fun g hg =>
    Context.validateGroups_eq_ok.1 hgroups g (List.mem_flatMap.2 ⟨a, ha, hg⟩)
  have hemitter : a.emitter = circle.center := by
    obtain ⟨shot, -, rfl⟩ := List.mem_map.1 ha
    rfl
  simp only [Assignment.toList, hemitter, List.mem_cons, List.not_mem_nil, or_false] at hg
  rcases hg with rfl | rfl | rfl | rfl
  · exact hchecked _ (by simp)
  · exact hchecked _ (by simp)
  · exact hcenter
  · exact hchecked _ (by simp)

theorem aimed_of_shots {shots : List (Group × Group)} {family : PatternFamily} {c : Component}
    (htemplate : ctx.enforceTemplate template family [Group.bullet] = .ok c)
    (hemitter : ctx.Valid emitter) (hdirection : ctx.Valid direction)
    (hshots : checkShots ctx shots = .ok ()) :
    Aimed ctx template (lineAssignments emitter direction shots) := by
  refine ⟨⟨c, Context.enforceTemplate_eq_ok htemplate,
    Context.records_of_enforceTemplate htemplate (by simp)⟩, fun a ha g hg => ?_⟩
  obtain ⟨shot, hshot, rfl⟩ := List.mem_map.1 ha
  obtain ⟨hbullet, hcollision⟩ := checkShots_eq_ok.1 hshots shot hshot
  simp only [Assignment.toList, List.mem_cons, List.not_mem_nil, or_false] at hg
  rcases hg with rfl | rfl | rfl | rfl
  · exact hbullet
  · exact hdirection
  · exact hemitter
  · exact hcollision

theorem aimed_of_aimLine {line : Line} {durations : List Float}
    (h : aimLine ctx pool time template emitter direction line = .ok (volley, durations)) :
    Aimed ctx template volley.assignments := by
  simp only [aimLine, liftM, monadLift, MonadLift.monadLift, Except.bind_eq_ok,
    Except.mapError_eq_ok, Except.pure_eq_ok, Prod.mk.injEq] at h
  obtain ⟨_, -, c, htemplate, _, -, _, hemitter, _, hdirection, _, hshots, rfl, -⟩ := h
  exact aimed_of_shots htemplate hemitter hdirection hshots

theorem aimed_of_aimTimedLine {line : TimedLine}
    (h : aimTimedLine ctx pool time template emitter direction line = .ok volley) :
    Aimed ctx template volley.assignments := by
  simp only [aimTimedLine, liftM, monadLift, MonadLift.monadLift, Except.bind_eq_ok,
    Except.guard_eq_ok, Except.mapError_eq_ok, Except.pure_eq_ok] at h
  obtain ⟨-, -, _, -, _, -, c, htemplate, _, hemitter, _, hdirection, _, hshots, rfl⟩ := h
  exact aimed_of_shots htemplate hemitter hdirection hshots

end Pattern

/-! ## Patterns -/

/-- Every burst of a plan carries one of the parts. -/
theorem Bases.exists_part {b : Bases} {template : Group} {bursts : List Burst}
    {parts : List (List Assignment)} (h : List.Forall₂ (b.Carries template) bursts parts) :
    ∀ burst ∈ bursts, ∃ part ∈ parts, b.Carries template burst part := by
  induction h with
  | nil => simp
  | @cons burst part bursts parts hcarry _ ih =>
      intro other hother
      rcases List.mem_cons.1 hother with rfl | hother
      · exact ⟨part, by simp, hcarry⟩
      · obtain ⟨part', hpart', hcarry'⟩ := ih other hother
        exact ⟨part', List.mem_cons_of_mem _ hpart', hcarry'⟩

/-- The targets of the remaps of a plan are the template and groups of the assignments. -/
theorem Bases.target_of_planAll {b : Bases} (hb : b.Binary) (hne : b.tiers ≠ [])
    {template : Group} {as : List Assignment} {bursts : List Burst}
    (h : b.planAll template as = .ok bursts) :
    ∀ burst ∈ bursts, ∀ p ∈ burst.remap.pairs, p.2 = template ∨ ∃ a ∈ as, p.2 ∈ a.toList := by
  obtain ⟨parts, rfl, hcarries⟩ := planAll_carries hb hne h
  intro burst hburst p hp
  obtain ⟨part, hpart, hcarry⟩ := exists_part hcarries burst hburst
  rw [hcarry.remap] at hp
  rcases List.mem_cons.1 hp with rfl | hp
  · exact Or.inl rfl
  · obtain ⟨k, a, ha, hpair⟩ := mem_blockPairs.1 hp
    exact Or.inr ⟨a, List.mem_flatten.2 ⟨part, hpart, List.mem_of_getElem? ha⟩,
      (List.of_mem_zip (a := p.1) (b := p.2) hpair).2⟩

namespace Context.Redirected

variable {ctx₀ ctx : Context} {caller template : Nat}

/-- The record of an aimed template shows that the group of the template is valid. -/
theorem valid_template (h : ctx₀.Redirected ctx) {c : Component}
    (hc : ctx.components[template]? = some c) (hne : c.records ≠ []) : ctx.Valid c.caller := by
  obtain ⟨r, hr⟩ := List.exists_mem_of_ne_nil c.records hne
  have hsound := h.regular.sound c (List.mem_of_getElem? hc) r hr
  obtain ⟨rest, hgroups⟩ := hsound.caller
  exact hsound.owners c.caller (by simp [hgroups])

theorem fire {as : List Assignment} (h : ctx₀.Redirected ctx) (time : Float)
    (haimed : Pattern.Aimed ctx template as) :
    ctx₀.Redirected (Context.fire caller time template as ctx).2 := by
  obtain ⟨⟨c, hc, hne⟩, hgroups⟩ := haimed
  rcases hrun : Context.prepare time template as ctx with ⟨e | bursts, ctx₁⟩
  · rw [Context.fire, bind_eq_error.2 (Or.inl hrun)]
    exact (prepare time template as).of_run hrun h
  · have h₁ : ctx₀.Redirected ctx₁ := (prepare time template as).of_run hrun h
    have hvalid : ∀ g, ctx.Valid g → ctx₁.Valid g := fun _ => (evolves_of_prepare hrun).valid
    obtain ⟨b, hb, hplan⟩ := plan_of_prepare hrun hc
    have hcapacities := (h₁.regular.enrolled b hb).capacities
    have htargets : ∀ burst ∈ bursts, ∀ p ∈ burst.remap.pairs, ctx₁.Valid p.2 := by
      intro burst hburst p hp
      rcases Bases.target_of_planAll (Bases.binary_of_capacities hcapacities)
        (Bases.tiers_ne_nil h₁.regular.accepted hcapacities) hplan burst hburst p hp with
        htarget | ⟨a, ha, htarget⟩
      · exact hvalid _ (htarget ▸ h.valid_template hc hne)
      · exact hvalid _ (hgroups a ha _ htarget)
    -- The groups stay valid while the bursts are spawned.
    have hemit : Keeps (fun ctx => ctx₀.Redirected ctx ∧ Evolves (fun _ => True) ctx₁ ctx)
        (Build.each (emitBurst caller time) bursts) := by
      refine .each fun burst hburst ctx₂ h₂ => ⟨h₂.1.perform fun e he => ?_, ?_⟩
      · have htargets₂ : ∀ p ∈ burst.remap.pairs, ctx₂.Valid p.2 := fun p hp =>
          h₂.2.valid (htargets burst hburst p hp)
        exact Effect.redirects_of_table htargets₂ he
      · exact h₂.2.trans (evolves_of_perform rfl)
    have hfire : Context.fire caller time template as ctx =
        Build.each (emitBurst caller time) bursts ctx₁ := by
      rw [Context.fire, bind_apply, hrun]
    rw [hfire]
    exact (hemit ctx₁ ⟨h₁, .refl ctx₁⟩).1

theorem warn? (w : Option Warning) : Keeps ctx₀.Redirected (Context.warn? w) :=
  .warn? (fun _ _ h => h.note rfl rfl rfl rfl) w

theorem launch {volley : Volley} (h : ctx₀.Redirected ctx) (time : Float)
    (haimed : Pattern.Aimed ctx template volley.assignments) :
    ctx₀.Redirected (Pattern.launch caller time template volley ctx).2 := by
  rcases hwarn : Context.warn? volley.warning ctx with ⟨e | _, ctx₁⟩
  · cases (Context.evolves_of_warn? (A := fun _ => True) hwarn).1
  · obtain ⟨-, hcomponents, -, hevolves⟩ := Context.evolves_of_warn? (A := fun _ => True) hwarn
    rw [Pattern.launch, bind_of_ok hwarn]
    refine ((warn? _).of_run hwarn h).fire time ⟨hcomponents ▸ haimed.template, ?_⟩
    exact fun a ha g hg => hevolves.valid (haimed.groups a ha g hg)

/-- A motion has no remap. -/
theorem moveBullet (time : Float) (direction : Group) (distance : Float) (bullet : Group)
    (duration : Float) : Keeps ctx₀.Redirected
      (Pattern.moveBullet caller time direction distance bullet duration) := by
  refine fun ctx h => h.perform fun e he => ?_
  simp only [Action.effect, liftM, monadLift, MonadLift.monadLift, Except.bind_eq_ok,
    Except.pure_eq_ok] at he
  obtain ⟨_, -, _, -, rfl⟩ := he
  rintro table ⟨⟩

theorem arc (time : Float) (circle : Circle) (arc : Arc) :
    Keeps (fun s => ctx₀.Redirected s.context) (Pattern.arc caller time template circle arc) := by
  intro s h
  rw [Pattern.arc_eq_shoot]
  rcases Firing.shoot_context with heq | ⟨volley, haim, heq⟩ <;> rw [heq]
  · exact h
  · obtain ⟨_, -, haim⟩ := Except.bind_eq_ok.1 haim
    exact h.launch time (Pattern.aimed_of_aimArc haim)

theorem radial (time : Float) (circle : Circle) (r : Radial) :
    Keeps (fun s => ctx₀.Redirected s.context) (Pattern.radial caller time template circle r) :=
  .bind (.check _) fun a => arc time circle a

theorem line (time : Float) (emitter direction : Group) (line : Line) :
    Keeps (fun s => ctx₀.Redirected s.context)
      (Pattern.line caller time template emitter direction line) := by
  intro s h
  rw [Pattern.line_eq_shoot]
  rcases Firing.shoot_context with heq | ⟨aimed, haim, heq⟩ <;> rw [heq]
  · exact h
  · obtain ⟨_, -, haim⟩ := Except.bind_eq_ok.1 haim
    obtain ⟨volley, durations⟩ := aimed
    exact Keeps.after (h.launch time (Pattern.aimed_of_aimLine haim)) fun _ =>
      .each fun _ _ => moveBullet _ _ _ _ _

/-- A shot of a timed line leads to groups of its assignment. -/
theorem timedShot {line : TimedLine} {direction : Group} {a : Assignment}
    (h : ctx₀.Redirected ctx) (time : Float) (ha : ∀ g ∈ a.toList, ctx.Valid g) :
    ctx₀.Redirected (Pattern.timedShot caller time template direction line a ctx).2 :=
  Keeps.after (h.perform fun _ he =>
    Effect.redirects_of_table (Assignment.valid_of_mem_pairs ha) he) fun _ => moveBullet _ _ _ _ _

theorem timedLine (time : Float) (emitter direction : Group) (line : TimedLine) :
    Keeps (fun s => ctx₀.Redirected s.context)
      (Pattern.timedLine caller time template emitter direction line) := by
  intro s h
  rw [Pattern.timedLine_eq_shoot]
  rcases Firing.shoot_context with heq | ⟨volley, haim, heq⟩ <;> rw [heq]
  · exact h
  · obtain ⟨_, -, haim⟩ := Except.bind_eq_ok.1 haim
    have hgroups := (Pattern.aimed_of_aimTimedLine haim).groups
    -- The groups stay valid from shot to shot.
    let P (ctx : Context) : Prop := ctx₀.Redirected ctx ∧ Evolves (fun _ => True) s.context ctx
    have hwarn : Keeps P (Context.warn? volley.warning) :=
      .warn? (fun _ _ hP => ⟨hP.1.note rfl rfl rfl rfl, hP.2.note rfl rfl rfl⟩) _
    have hshots : Keeps P (Pattern.timedShots caller time template direction line
        volley.assignments.zipIdx) := by
      refine .each fun shot hshot ctx hP => ⟨hP.1.timedShot _ fun g hg => ?_, ?_⟩
      · exact hP.2.valid (hgroups shot.1 (List.fst_mem_of_mem_zipIdx hshot) g hg)
      · exact Keeps.bind (Evolves.perform trivial _ _) (fun _ => Evolves.perform trivial _ _) ctx hP.2
    exact (Keeps.bind hwarn (fun _ => hshots) s.context ⟨h, .refl _⟩).1

/-- Every pattern leads to valid groups, also if it fails. -/
theorem pattern (p : PatternCall) :
    Keeps (fun s => ctx₀.Redirected s.context) (p.run caller) := by
  cases p with
  | arc time template circle a => exact arc time circle a
  | radial time template circle r => exact radial time circle r
  | line time template emitter direction l => exact line time emitter direction l
  | radialWave time template circle w =>
      exact .bind (.check _) fun _ => .each fun _ _ => radial _ circle w.radial
  | timedLine time template emitter direction l => exact timedLine time emitter direction l

end Context.Redirected

/-- Whatever a pattern does, all records that it appends to components, to its caller or
to bases that it builds, have remaps to groups that are valid in the end.  If the context is
in range in the end, these groups have 32 bits. -/
theorem PatternCall.redirects_valid {p : PatternCall} {caller : Nat} {s s' : Firing}
    {result : Except BuildError Unit} (hctx : Reachable s.context)
    (h : p.run caller s = (result, s')) (hrange : s'.context.InRange) :
    ∀ j c, s'.context.components[j]? = some c →
      ∃ added, c.records = s.context.recordsOf j ++ added ∧
        ∀ r ∈ added, ∀ v, r.field? Field.remap = some v →
          ∃ t : Remap, v = .text t.wire ∧ t.pairs ≠ [] ∧
            ∀ pair ∈ t.pairs, pair.2 ≤ Group.greatest ∧
              s'.context.validateGroup pair.2 = .ok () := by
  have hredirected : s.context.Redirected s'.context :=
    (Context.Redirected.pattern p).of_run h (.refl (Run.regular hctx))
  have hissuing : s'.context.config.unknownStart ≤ s'.context.nextUnknown := by
    obtain ⟨hconfig, hnext, -⟩ := hredirected.evolves.extension
    rw [hconfig]
    exact Nat.le_trans (Run.issuing hctx) hnext
  intro j c hc
  obtain ⟨added, hrecords, hadded⟩ := hredirected.added j c hc
  refine ⟨added, hrecords, fun r hr v hv => ?_⟩
  obtain ⟨t, ht, rfl⟩ :=
    Effect.remap_of_field ((Record.field?_eq_some_of_not_common (by decide)).1 hv)
  have hmem : r ∈ c.records := by
    rw [hrecords]
    exact List.mem_append_right _ hr
  have hsound := hredirected.regular.sound c (List.mem_of_getElem? hc) r hmem
  refine ⟨t, rfl, (hsound.remap t ht).1, fun pair hpair => ?_⟩
  have hvalid := hadded r hr t ht pair hpair
  have hlt := hredirected.regular.lt_nextUnknown hissuing hvalid
  exact ⟨Nat.le_trans (Nat.le_of_lt hlt) hrange.issued, hvalid⟩

/-- Three bullets take two bursts, and the bases of both are built for them. -/
theorem PatternCall.redirects_valid_fan :
    ∃ s', fan.run 0 (callerOn 36) = (.ok (), s') ∧ s'.context.InRange ∧
      (s'.context.components.map fun c => c.records.countP Record.isSpawn) = [2, 0, 1, 2] ∧
      ∀ j c, s'.context.components[j]? = some c →
        ∃ added, c.records = (callerOn 36).context.recordsOf j ++ added ∧
          ∀ r ∈ added, ∀ v, r.field? Field.remap = some v →
            ∃ t : Remap, v = .text t.wire ∧ t.pairs ≠ [] ∧
              ∀ pair ∈ t.pairs, pair.2 ≤ Group.greatest ∧
                s'.context.validateGroup pair.2 = .ok () := by
  have hreachable : Reachable (callerOn 36).context :=
    Reachable.runAll (.withConfig (Context.withConfig_eq_ok.2 ⟨by decide, rfl⟩)) _
  have hsucceeds : (fan.run 0 (callerOn 36)).1.isOk := by decide +kernel
  have hrange : (fan.run 0 (callerOn 36)).2.context.InRange := by decide +kernel
  have hspawns : ((fan.run 0 (callerOn 36)).2.context.components.map
      fun c => c.records.countP Record.isSpawn) = [2, 0, 1, 2] := by decide +kernel
  obtain ⟨_, s', hrun⟩ := eq_ok_of_isOk hsucceeds
  rw [hrun] at hspawns hrange
  exact ⟨s', hrun, hrange, hspawns, redirects_valid hreachable hrun hrange⟩

end Barrage
