import Barrage.Proofs.Hazard
import Barrage.Proofs.Pattern.Volley

/-!
# Firing a template that spawns

A base spawns the template placeholder as often as its capacity says, all at once.
A burst that runs it sends the placeholder to a template.  If the base has two spawns
or more and the template has a spawn of its own, then the burst is an indirect hazard
(`Primed.error`), and a pattern with two bullets or more has such a burst
(`PatternCall.primed`).

It does not matter when the template gets its spawn, and the hazard stays for good.
Records are not taken back and keep their places and effects.  They may only get
further groups, so the number of records with a property that does not end by this
never falls (`Change.countP_le`).  For the same reason nothing can be taken away from
the bases (`Context.Stocked`), although calls may address them.
-/

namespace Barrage

open Build Hazard

/-! ## Lasting properties of records -/

/-- The property does not end when a record gets further groups. -/
def Record.Lasting (p : Record → Bool) : Prop :=
  ∀ r gs, p r → p { r with groups := r.groups ++ gs }

theorem Hazard.countP_set {cs : List Component} {i : Nat} {c : Component} (p : Record → Bool)
    (hc : cs[i]? = some c) (c' : Component) :
    (allRecords (cs.set i c')).countP p + c.records.countP p =
      (allRecords cs).countP p + c'.records.countP p := by
  induction cs generalizing i with
  | nil => cases hc
  | cons d cs ih =>
      simp only [allRecords] at ih ⊢
      cases i with
      | zero =>
          cases hc
          simp only [List.set_cons_zero, List.flatMap_cons, List.countP_append]
          omega
      | succ i =>
          simp only [List.set_cons_succ, List.flatMap_cons, List.countP_append]
          have := ih hc
          omega

theorem Hazard.countP_le_set {cs : List Component} {p : Record → Bool} {i : Nat}
    {c c' : Component} (hc : cs[i]? = some c) (h : c.records.countP p ≤ c'.records.countP p) :
    (allRecords cs).countP p ≤ (allRecords (cs.set i c')).countP p := by
  have := countP_set p hc c'
  omega

theorem Hazard.countP_le_allRecords {cs : List Component} {i : Nat} {c : Component}
    (p : Record → Bool) (hc : cs[i]? = some c) : c.records.countP p ≤ (allRecords cs).countP p :=
  List.Sublist.countP_le (List.sublist_flatten_of_mem
    (List.mem_map_of_mem (List.mem_of_getElem? hc)))

/-- The number of records with a lasting property never falls. -/
theorem Change.countP_le {A : Nat → Prop} {ctx ctx' : Context} {p : Record → Bool}
    (h : Change A ctx ctx') (hp : Record.Lasting p) :
    (allRecords ctx.components).countP p ≤ (allRecords ctx'.components).countP p := by
  cases h with
  | register name caller layer => simp [Context.register, Context.log, allRecords]
  | issue => exact Nat.le_refl _
  | append _ hc _ =>
      rw [Context.append_eq_setComponent _ hc]
      refine countP_le_set hc ?_
      simp only [Component.push, List.countP_append]
      omega
  | @widen _ c init last extra _ hc hrec _ _ _ =>
      refine countP_le_set hc ?_
      have hlast := hp last extra
      simp only [hrec, List.countP_append, List.countP_singleton]
      split
      next hold => exact Nat.le_of_eq (by rw [if_pos (hlast hold)])
      next => omega
  | reshape _ _ _ hc _ => exact countP_le_set hc (Nat.le_refl _)
  | note _ hcomponents _ => exact Nat.le_of_eq (by rw [hcomponents])

theorem Evolves.le_countP {A : Nat → Prop} {ctx ctx' : Context} {p : Record → Bool} {n : Nat}
    (h : Evolves A ctx ctx') (hp : Record.Lasting p)
    (hn : n ≤ (allRecords ctx.components).countP p) :
    n ≤ (allRecords ctx'.components).countP p :=
  h.keeps (P := fun ctx => n ≤ (allRecords ctx.components).countP p)
    (fun hstep hn => Nat.le_trans hn (hstep.countP_le hp)) hn

theorem Change.exists_record {A : Nat → Prop} {ctx ctx' : Context} {p : Record → Bool}
    (h : Change A ctx ctx') (hp : Record.Lasting p) (hr : ∃ r ∈ allRecords ctx.components, p r) :
    ∃ r ∈ allRecords ctx'.components, p r :=
  List.countP_pos_iff.1 (Nat.lt_of_lt_of_le (List.countP_pos_iff.2 hr) (h.countP_le hp))

/-! ## Spawns of the placeholder -/

namespace Hazard

/-- The record is run by a group, and it spawns the template placeholder at the
beginning, at once. -/
def Feeds (g : Group) (r : Record) : Prop :=
  r.isImmediateSpawn ∧ g ∈ r.groups ∧ r.effect.target? = some Group.template ∧
    r.x = Schedule.distance 0.0

instance (g : Group) (r : Record) : Decidable (Feeds g r) := inferInstanceAs (Decidable (_ ∧ _))

theorem lasting_feeds (g : Group) : Record.Lasting (Feeds g ·) := by
  intro r gs h
  obtain ⟨himmediate, hg, htarget, hplace⟩ := of_decide_eq_true h
  exact decide_eq_true ⟨himmediate, List.mem_append_left gs hg, htarget, hplace⟩

/-- A group is run with a remap that sends the template placeholder to a template, and
it has two spawns of the placeholder that are simultaneous. -/
structure Primed (cs : List Component) (template g : Group) (remap : Remap) : Prop where
  burst : ∃ r ∈ allRecords cs, r.effect.target? = some g ∧ r.effect.remap? = some remap
  sends : remap.resolve Group.template = template
  twice : 2 ≤ (allRecords cs).countP (Feeds g ·)

variable {A : Nat → Prop} {ctx ctx' : Context} {template g : Group} {remap : Remap}

theorem Primed.change (hstep : Change A ctx ctx') (h : Primed ctx.components template g remap) :
    Primed ctx'.components template g remap := by
  refine ⟨?_, h.sends, Nat.le_trans h.twice (hstep.countP_le (lasting_feeds g))⟩
  have hburst := hstep.exists_record
    (p := fun r => r.effect.target? = some g ∧ r.effect.remap? = some remap) (fun _ _ h => h)
  simp only [decide_eq_true_eq] at hburst
  exact hburst h.burst

theorem Bearing.change (hstep : Change A ctx ctx') (h : Bearing ctx.components g) :
    Bearing ctx'.components g := by
  have hspawn := hstep.exists_record (p := fun r => r.isSpawn ∧ g ∈ r.groups) fun r gs hr => by
    obtain ⟨hspawn, hg⟩ := of_decide_eq_true hr
    exact decide_eq_true ⟨hspawn, List.mem_append_left gs hg⟩
  simp only [decide_eq_true_eq] at hspawn
  obtain ⟨c, hc, r, hr, hold⟩ := h
  obtain ⟨r', hr', hnew⟩ := hspawn ⟨r, mem_allRecords.2 ⟨c, hc, hr⟩, hold⟩
  obtain ⟨c', hc', hr'⟩ := mem_allRecords.1 hr'
  exact ⟨c', hc', r', hr', hnew⟩

/-- The check refuses a template that is sent to two spawns of the placeholder, if it
has a spawn of its own. -/
theorem Primed.error {cs : List Component} (h : Primed cs template g remap)
    (hbearing : Bearing cs template) (hne : template ≠ Group.template) :
    ∃ e, check cs = .error e := by
  let l : Landing := ((Schedule.distance 0.0).toBits.toNat, template)
  have hreaches : ∀ r, Feeds g r → Reaches remap g l r := by
    rintro r ⟨himmediate, hg, htarget, hplace⟩
    refine reaches_iff.2 ⟨himmediate, hg, ?_⟩
    simp [htarget, h.sends, placeBits, hplace, l]
  have htwice : 2 ≤ (allRecords cs).countP (Reaches remap g l ·) := by
    refine Nat.le_trans h.twice (List.countP_mono_left fun r _ hr => ?_)
    exact decide_eq_true (hreaches r (of_decide_eq_true hr))
  have hredirected : ∃ r ∈ allRecords cs, Reaches remap g l r ∧ r.effect.target? ≠ some l.2 := by
    obtain ⟨r, hr, hfeeds⟩ := List.countP_pos_iff.1 (Nat.lt_of_lt_of_le Nat.two_pos h.twice)
    have hfeeds := of_decide_eq_true hfeeds
    refine ⟨r, hr, hreaches r hfeeds, fun htarget => hne ?_⟩
    exact Option.some.inj (htarget.symm.trans hfeeds.2.2.1)
  obtain ⟨r, hr, htarget, hremap⟩ := h.burst
  exact error_of_indirectAt hr htarget hremap ⟨htwice, hredirected, hbearing⟩

end Hazard

/-! ## Bases keep their spawns -/

/-- Each base has as many spawns of the placeholder as its capacity says. -/
def Bases.Stocked (b : Bases) (ctx : Context) : Prop :=
  ∀ base ∈ b.tiers, base.capacity ≤ (allRecords ctx.components).countP (Feeds base.group ·)

/-- The bases that the context has, if it has them, are stocked. -/
def Context.Stocked (ctx : Context) : Prop := ∀ b ∈ ctx.bases, b.Stocked ctx

namespace Context

theorem feeds_of_draft {ctx : Context} {i : Nat} {c : Component} {start : Group} {k : Nat}
    {r : Record} (hc : ctx.components[i]? = some c)
    (h : ctx.draft i 0.0 (baseSpawn start k) = .ok r) : Feeds c.caller r := by
  obtain ⟨c', e, hc', he, hplace⟩ := draft_eq_ok.1 h
  cases hc.symm.trans hc'
  obtain ⟨-, -, -, rfl⟩ := place_eq_ok.1 hplace
  cases effect_of_baseSpawn he
  have hzero : (0.0 : Float) == 0.0 := by decide
  exact ⟨hzero, List.mem_cons_self, rfl, rfl⟩

/-- The loop that fills a base appends one spawn of the placeholder per round. -/
theorem feeds_of_each {start g : Group} {ks : List Nat} {i : Nat} {ctx ctx' : Context}
    {c : Component} (hc : ctx.components[i]? = some c) (hg : c.caller = g)
    (h : Build.each (fun k => perform i 0.0 (baseSpawn start k)) ks ctx = (.ok (), ctx')) :
    ∃ c', ctx'.components[i]? = some c' ∧
      c.records.countP (Feeds g ·) + ks.length ≤ c'.records.countP (Feeds g ·) := by
  induction ks generalizing ctx c with
  | nil =>
      cases h
      exact ⟨c, hc, Nat.le_refl _⟩
  | cons k ks ih =>
      obtain ⟨ctx₁, hfirst, hrest⟩ := each_cons_eq_ok.1 h
      obtain ⟨r, hr, rfl⟩ := perform_eq_ok.1 hfirst
      have hfeeds : Feeds g r := hg ▸ feeds_of_draft hc hr
      obtain ⟨c', hc', hcount⟩ := ih (c := c.push r) (by simp [hc]) hg hrest
      refine ⟨c', hc', ?_⟩
      simp only [Component.push, List.countP_append, List.countP_singleton, decide_eq_true hfeeds,
        if_true] at hcount
      rw [List.length_cons]
      omega

theorem feeds_of_buildBase {tier : Nat} {ctx ctx' : Context} {base : Base}
    (h : buildBase tier ctx = (.ok base, ctx')) :
    base.capacity ≤ (allRecords ctx'.components).countP (Feeds base.group ·) := by
  obtain ⟨rfl, ctx₁, c, hcomponents, hcaller, -, -, -, hloop⟩ := each_of_buildBase h
  have hc : ctx₁.components[ctx.components.length]? = some c := by
    rw [hcomponents]
    exact List.getElem?_concat_length
  obtain ⟨c', hc', hcount⟩ := feeds_of_each hc hcaller hloop
  rw [List.length_range] at hcount
  exact Nat.le_trans (Nat.le_trans (Nat.le_add_left _ _) hcount) (countP_le_allRecords _ hc')

/-- Bases that are built together keep their spawns while the others are built. -/
theorem stocked_of_buildTiers {tiers : List Nat} {ctx ctx' : Context} {bases : List Base}
    (h : buildTiers tiers ctx = (.ok bases, ctx')) :
    ∀ base ∈ bases, base.capacity ≤ (allRecords ctx'.components).countP (Feeds base.group ·) := by
  induction tiers generalizing ctx bases with
  | nil =>
      cases h
      simp
  | cons tier rest ih =>
      simp only [buildTiers, bind_eq_ok] at h
      obtain ⟨base, ctx₁, hbase, others, ctx₂, hothers, hpure⟩ := h
      obtain ⟨rfl, rfl⟩ := pure_eq_ok.1 hpure
      have hevolves : Evolves (fun _ => True) ctx₁ ctx₂ :=
        ((Evolves.elements fun _ _ => trivial).buildTiers rest).of_run hothers (.refl ctx₁)
      intro base' hmem
      rcases List.mem_cons.1 hmem with rfl | hmem
      · exact hevolves.le_countP (lasting_feeds _) (feeds_of_buildBase hbase)
      · exact ih hothers base' hmem

namespace Stocked

theorem requireBases : Keeps Stocked Context.requireBases := by
  intro ctx h
  cases hbases : ctx.bases with
  | some b =>
      rw [requireBases_of_some hbases]
      exact h
  | none =>
      rcases hrun : Context.requireBases ctx with ⟨e | b, ctx'⟩
      · intro b hb
        rw [requireBases_eq_error hrun] at hb
        cases hb
      · obtain ⟨ctx₁, hbuild, rfl⟩ := buildBases_of_requireBases hbases hrun
        obtain ⟨-, ctx₂, journal, htiers, rfl⟩ := tiers_of_buildBases hbuild
        have hstocked := stocked_of_buildTiers htiers
        intro b hb
        cases hb
        exact hstocked

/-- The bases keep their spawns, whatever happens to them. -/
theorem durable : Durable Stocked where
  evolves h hbases hevolves b hb base hbase :=
    hevolves.le_countP (lasting_feeds _) (h b (hbases ▸ hb) base hbase)
  requireBases := requireBases

end Stocked

end Context

theorem Run.stocked {ok : Context → Call → Prop} {ctx : Context} (h : Run ok ctx) : ctx.Stocked :=
  Context.Stocked.durable.run (fun _ _ _ hb => nomatch hb) h

/-! ## Firing -/

theorem Evolves.each_emitBurst {caller : Nat} {time : Float} {bursts : List Burst}
    {ctx ctx' : Context} {result : Except BuildError Unit}
    (h : Build.each (Context.emitBurst caller time) bursts ctx = (result, ctx')) :
    Evolves (fun _ => True) ctx ctx' :=
  Keeps.of_run (.each fun _ _ => Evolves.perform trivial time _) h (.refl ctx)

theorem Context.exists_record_of_emitBurst {caller : Nat} {time : Float} {burst : Burst}
    {ctx ctx' : Context} (h : emitBurst caller time burst ctx = (.ok (), ctx'))
    (hne : burst.remap.pairs ≠ []) :
    ∃ r ∈ allRecords ctx'.components, r.effect.target? = some burst.group ∧
      r.effect.remap? = some burst.remap.cleaned := by
  obtain ⟨r, hr, rfl⟩ := perform_eq_ok.1 h
  obtain ⟨c, -, hc, -⟩ := draft_eq_ok.1 hr
  have hpushed : (ctx.components.modify caller (·.push r))[caller]? = some (c.push r) := by
    simp [hc]
  obtain ⟨-, heffect⟩ := (Action.effect_spawn_table hne).1 (effect_of_draft hr)
  refine ⟨r, mem_allRecords.2 ⟨c.push r, List.mem_of_getElem? hpushed, ?_⟩, ?_⟩
  · exact List.mem_append_right _ List.mem_cons_self
  rw [← heffect]
  exact ⟨rfl, rfl⟩

/-- Two instances of a template take a burst of a base with two spawns. -/
theorem Context.primed_of_fire {caller template : Nat} {time : Float} {as : List Assignment}
    {ctx ctx' : Context} {c : Component} (h : fire caller time template as ctx = (.ok (), ctx'))
    (hregular : ctx.Regular) (hstocked : ctx.Stocked) (htiers : 2 ≤ ctx.config.tiers)
    (has : 2 ≤ as.length) (hc : ctx.components[template]? = some c) :
    ∃ g remap, Primed ctx'.components c.caller g remap := by
  obtain ⟨bursts, ctx₁, hprepare, hemit⟩ := bind_eq_ok.1 h
  obtain ⟨b, hbases, hplan⟩ := plan_of_prepare hprepare hc
  have hconfig : ctx₁.config = ctx.config := (evolves_of_prepare hprepare).extension.config
  have hregular := Regular.durable.of_prepare hprepare hregular
  have hstocked := Stocked.durable.of_prepare hprepare hstocked
  have hcapacities := (hregular.enrolled b hbases).capacities
  have hlength : 2 ≤ b.tiers.length := by
    rw [Bases.length_of_capacities hcapacities, hconfig]
    exact htiers
  obtain ⟨burst, hburst, ⟨base, hbase, hgroup, hwide⟩, hremap⟩ :=
    Bases.planAll_wide (Bases.binary_of_capacities hcapacities) hlength hplan has
  -- The burst is spawned between the bursts before and after it.
  obtain ⟨before, after, rfl⟩ := List.append_of_mem hburst
  rw [each_append] at hemit
  obtain ⟨_, ctx₂, hbefore, hemit⟩ := bind_eq_ok.1 hemit
  obtain ⟨ctx₃, hspawn, hafter⟩ := each_cons_eq_ok.1 hemit
  have hspawned : Evolves (fun _ => True) ctx₁ ctx₃ :=
    (Evolves.each_emitBurst hbefore).trans
      (Evolves.each_emitBurst (by rw [each_singleton]; exact hspawn))
  have hne : burst.remap.pairs ≠ [] := List.ne_nil_of_mem hremap
  refine ⟨burst.group, burst.remap.cleaned, (Evolves.each_emitBurst hafter).keeps Primed.change ?_⟩
  refine ⟨exists_record_of_emitBurst hspawn hne, ?_, ?_⟩
  · rw [Remap.resolve_cleaned, Remap.resolve_of_mem hremap]
  · rw [← hgroup]
    exact hspawned.le_countP (lasting_feeds _)
      (Nat.le_trans hwide (hstocked b hbases base hbase))

namespace Pattern

variable {caller template : Nat} {time : Float} {circle : Circle} {emitter direction : Group}

theorem primed_of_launch {volley : Volley} {ctx ctx' : Context} {c : Component}
    (h : launch caller time template volley ctx = (.ok (), ctx')) (hctx : Reachable ctx)
    (htiers : 2 ≤ ctx.config.tiers) (has : 2 ≤ volley.assignments.length)
    (hc : ctx.components[template]? = some c) :
    ∃ g remap, Primed ctx'.components c.caller g remap := by
  obtain ⟨_, ctx₁, hwarn, hfire⟩ := bind_eq_ok.1 h
  obtain ⟨-, hcomponents, hbases, hwarned⟩ := Context.evolves_of_warn? (A := fun _ => True) hwarn
  have hregular : ctx₁.Regular := Context.Regular.durable.evolves (Run.regular hctx) hbases hwarned
  have hstocked : ctx₁.Stocked := Context.Stocked.durable.evolves (Run.stocked hctx) hbases hwarned
  rw [← hcomponents] at hc
  rw [← hwarned.extension.config] at htiers
  exact Context.primed_of_fire hfire hregular hstocked htiers has hc

theorem primed_of_arc {arc : Arc} {s s' : Firing}
    (h : Pattern.arc caller time template circle arc s = (.ok (), s')) (hctx : Reachable s.context)
    (htiers : 2 ≤ s.context.config.tiers) (hbullets : 2 ≤ arc.bullets) :
    ∃ c, s.context.components[template]? = some c ∧
      ∃ g remap, Primed s'.context.components c.caller g remap := by
  rw [arc_eq_shoot] at h
  obtain ⟨volley, haim, hlaunch, -⟩ := Firing.shoot_eq_ok.1 h
  obtain ⟨_, -, haim⟩ := Except.bind_eq_ok.1 haim
  obtain ⟨-, c, hc⟩ := aimArc_eq_ok haim
  rw [← (aimArc_draws haim).1] at hbullets
  exact ⟨c, hc, primed_of_launch hlaunch hctx htiers hbullets hc⟩

theorem primed_of_line {line : Line} {s s' : Firing}
    (h : Pattern.line caller time template emitter direction line s = (.ok (), s'))
    (hctx : Reachable s.context) (htiers : 2 ≤ s.context.config.tiers)
    (hbullets : 2 ≤ line.bullets) :
    ∃ c, s.context.components[template]? = some c ∧
      ∃ g remap, Primed s'.context.components c.caller g remap := by
  rw [line_eq_shoot] at h
  obtain ⟨⟨volley, durations⟩, haim, hbody, -⟩ := Firing.shoot_eq_ok.1 h
  obtain ⟨_, -, haim⟩ := Except.bind_eq_ok.1 haim
  obtain ⟨haimed, -⟩ := aimLine_eq_ok haim
  obtain ⟨c, hc⟩ := haimed.known
  obtain ⟨_, ctx₁, hlaunch, hmove⟩ := bind_eq_ok.1 hbody
  rw [← haimed.length] at hbullets
  obtain ⟨g, remap, hprimed⟩ := primed_of_launch hlaunch hctx htiers hbullets hc
  have hmoved : Evolves (fun _ => True) ctx₁ s'.context :=
    Keeps.of_run (.each fun _ _ => Evolves.perform trivial _ _) hmove (.refl ctx₁)
  exact ⟨c, hc, g, remap, hmoved.keeps Primed.change hprimed⟩

end Pattern

namespace PatternCall

/-- The pattern has one volley, and all its bullets appear together. -/
def Instant : PatternCall → Prop
  | .arc .. => True
  | .radial .. => True
  | .line .. => True
  | _ => False

theorem primed {p : PatternCall} {caller n : Nat} {s s' : Firing} (hp : p.Instant)
    (hbullets : p.bullets? = some n) (hn : 2 ≤ n) (hctx : Reachable s.context)
    (htiers : 2 ≤ s.context.config.tiers) (h : p.run caller s = (.ok (), s')) :
    ∃ c, s.context.components[p.template]? = some c ∧
      ∃ g remap, Primed s'.context.components c.caller g remap := by
  cases p with
  | arc time template circle a =>
      cases hbullets
      exact Pattern.primed_of_arc h hctx htiers hn
  | radial time template circle r =>
      obtain ⟨arc, harc, h⟩ := Pattern.radial_eq_ok h
      obtain ⟨spacing, hdivision⟩ := Radial.bullets_of_toArc harc
      rw [bullets?, hdivision] at hbullets
      cases hbullets
      exact Pattern.primed_of_arc h hctx htiers hn
  | line time template emitter direction l =>
      cases hbullets
      exact Pattern.primed_of_line h hctx htiers hn
  | radialWave time template circle w => cases hp
  | timedLine time template emitter direction l => cases hp

end PatternCall

/-! ## Later states -/

theorem Hazard.Primed.runAll {template g : Group} {remap : Remap} {ctx : Context}
    (h : Primed ctx.components template g remap) (ks : List Call) :
    Primed (Call.runAll ks ctx).components template g remap :=
  Call.runAll_keeps (P := fun ctx => Primed ctx.components template g remap) Primed.change ks h

theorem Hazard.Bearing.runAll {g : Group} {ctx : Context} (h : Bearing ctx.components g)
    (ks : List Call) : Bearing (Call.runAll ks ctx).components g :=
  Call.runAll_keeps (P := fun ctx => Bearing ctx.components g) Bearing.change ks h

/-- A template with a spawn is spawn-bearing, since its caller stands on all its
records. -/
theorem Context.Sound.bearing {ctx : Context} (h : ctx.Sound) {i : Nat} {c : Component}
    (hc : ctx.components[i]? = some c) (hspawn : c.hasSpawn) : Bearing ctx.components c.caller := by
  obtain ⟨r, hr, hspawn⟩ := List.any_eq_true.1 hspawn
  have hmem := List.mem_of_getElem? hc
  obtain ⟨rest, hgroups⟩ := (h c hmem r hr).caller
  exact ⟨c, hmem, r, hr, hspawn, by simp [hgroups]⟩

/-- When an arc, a radial or an instant line of two bullets or more was fired, the
check refuses all later states in which the template has a spawn, and all states that
follow them. -/
theorem spawning_template_refused {p : PatternCall} {caller n : Nat} {s s' : Firing}
    (hp : p.Instant) (hbullets : p.bullets? = some n) (hn : 2 ≤ n) (hctx : Reachable s.context)
    (htiers : 2 ≤ s.context.config.tiers) (h : p.run caller s = (.ok (), s')) (ks : List Call)
    {c : Component} (hc : (Call.runAll ks s'.context).components[p.template]? = some c)
    (hcaller : c.caller ≠ Group.template) (hspawn : c.hasSpawn) (later : List Call) :
    ∃ e, check (Call.runAll later (Call.runAll ks s'.context)).components = .error e := by
  have hfired : Call.runAll (.pattern caller s.pool p :: ks) s.context =
      Call.runAll ks s'.context := by
    change Call.runAll ks (p.run caller s).2.context = _
    rw [h]
  have hreached : Reachable (Call.runAll ks s'.context) := hfired ▸ hctx.runAll _
  obtain ⟨c₀, hc₀, g, remap, hprimed⟩ := p.primed hp hbullets hn hctx htiers h
  have hsame : c.caller = c₀.caller := Call.caller_runAll hc₀ _ (hfired ▸ hc)
  rw [← hsame] at hprimed
  have hbearing := (Run.sound hreached).bearing hc hspawn
  exact ((hprimed.runAll ks).runAll later).error (hbearing.runAll later) hcaller

/-- The template of a fan gets a spawn after the fan was fired. -/
def lateSpawn : Call := .edit 1 (.trigger 0.5 (.spawn (.group 41) false .none 0.0))

/-- A fan passes the check until its template gets a spawn. -/
theorem spawning_template_refused_late :
    ∃ s', PatternCall.fan.run 0 (PatternCall.callerOn 36) = (.ok (), s') ∧
      check s'.context.components = .ok () ∧
      ∀ later, ∃ e,
        check (Call.runAll later (Call.runAll [lateSpawn] s'.context)).components = .error e := by
  have hreachable : Reachable (PatternCall.callerOn 36).context := by
    unfold PatternCall.callerOn
    exact Reachable.runAll (.withConfig (Context.withConfig_eq_ok.2 ⟨by decide, rfl⟩)) _
  have hsucceeds : (PatternCall.fan.run 0 (PatternCall.callerOn 36)).1.isOk := by decide +kernel
  have hpasses : check (PatternCall.fan.run 0 (PatternCall.callerOn 36)).2.context.components =
      .ok () := by decide +kernel
  have htemplate : (Call.runAll [lateSpawn]
      (PatternCall.fan.run 0 (PatternCall.callerOn 36)).2.context).components[1]?.any
        fun c => c.caller ≠ Group.template ∧ c.hasSpawn := by decide +kernel
  obtain ⟨_, s', hrun⟩ := eq_ok_of_isOk hsucceeds
  rw [hrun] at hpasses htemplate
  cases hc : (Call.runAll [lateSpawn] s'.context).components[1]? with
  | none => simp [hc] at htemplate
  | some c =>
      rw [hc] at htemplate
      obtain ⟨hcaller, hspawn⟩ := of_decide_eq_true htemplate
      exact ⟨s', hrun, hpasses, spawning_template_refused (p := PatternCall.fan) trivial rfl
        (by decide) hreachable (by decide +kernel) hrun [lateSpawn] hc hcaller hspawn⟩

end Barrage
