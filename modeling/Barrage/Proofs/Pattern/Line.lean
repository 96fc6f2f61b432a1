import Barrage.Proofs.Number.Nonneg
import Barrage.Proofs.Pattern.Volley

/-!
# What a failed line leaves behind

A line fires its template and then moves the bullets.  All groups and times are
checked before, so that nothing should fail once the first burst is out.  Two checks
are made too late for that.

* The travel times of a line are computed in even steps.  If the slowest bullet takes
  for ever, the step is infinite, and the travel time of the first bullet is
  `fastest + ∞ * 0`, which is NaN.  The bullet is refused when its motion is added,
  after the template was fired.
* A spawn with a remap that changes nothing is refused.  A timed line spawns its
  template once per bullet, and a bullet may be such that the remap from the
  placeholders to its groups changes nothing.

In both cases what was done before remains (`line_leaves`).  Otherwise a failed line
leaves nothing behind, if its template is an ordinary one.
-/

namespace Barrage

open Build

theorem Tween.validate_linear {duration : Float} :
    (Tween.linear duration).validate = .ok () ↔ 0.0 ≤ duration := by
  have hrate : 0.10 < (Tween.linear duration).rate ∧ (Tween.linear duration).rate ≤ 20.0 := by
    change (0.10 : Float) < 1.0 ∧ (1.0 : Float) ≤ 20.0
    decide
  have hduration : (Tween.linear duration).duration = duration := rfl
  rw [Number.zero_le_iff_not, validate, if_pos hrate, hduration]
  split
  next hbad => exact iff_of_false (fun h => nomatch h) fun hgood => hgood hbad
  next hgood => exact iff_of_true rfl hgood

/-! ## Openings -/

namespace Firing

variable {α β : Type} {aim : Firing → Except BuildError α} {first : α → Build Context β}
  {rest : α → β → Build Context Unit} {pool : α → Pool} {s s' : Firing} {e : BuildError}

/-- Aims, and works on the context up to some point. -/
def openShot (aim : Firing → Except BuildError α) (first : α → Build Context β) :
    Build Firing (α × β) := do
  let a ← Build.check aim
  let b ← onContext (first a)
  pure (a, b)

theorem openShot_eq_ok {a : α} {b : β} : openShot aim first s = (.ok (a, b), s') ↔
    aim s = .ok a ∧ first a s.context = (.ok b, s'.context) ∧ s'.pool = s.pool := by
  simp only [openShot, bind_eq_ok, check_eq_ok, onContext_eq]
  constructor
  · rintro ⟨_, _, ⟨ha, rfl⟩, _, s₁, hfirst, hpure⟩
    cases hpure
    exact ⟨ha, hfirst⟩
  · rintro ⟨ha, hfirst⟩
    exact ⟨a, s, ⟨ha, rfl⟩, b, s', hfirst, rfl⟩

theorem openShot_eq_error : openShot aim first s = (.error e, s') ↔
    (aim s = .error e ∧ s' = s) ∨
      ∃ a, aim s = .ok a ∧ first a s.context = (.error e, s'.context) ∧ s'.pool = s.pool := by
  simp only [openShot, bind_eq_error, check_eq_error, check_eq_ok, onContext_eq]
  constructor
  · rintro (⟨haim, rfl⟩ | ⟨a, _, ⟨ha, rfl⟩, hfirst | ⟨_, _, -, hpure⟩⟩)
    · exact Or.inl ⟨haim, rfl⟩
    · exact Or.inr ⟨a, ha, hfirst⟩
    · cases hpure
  · rintro (⟨haim, rfl⟩ | ⟨a, ha, hfirst⟩)
    · exact Or.inl ⟨haim, rfl⟩
    · exact Or.inr ⟨a, s, ⟨ha, rfl⟩, Or.inl hfirst⟩

/-- A shot whose opening fails fails there. -/
theorem shoot_of_openShot_error (h : openShot aim first s = (.error e, s')) :
    shoot aim (fun a => first a >>= rest a) pool s = (.error e, s') := by
  rcases openShot_eq_error.1 h with haim | ⟨a, ha, hfirst, hpool⟩
  · exact shoot_eq_error.2 (Or.inl haim)
  · exact shoot_eq_error.2 (Or.inr ⟨a, ha, bind_eq_error.2 (Or.inl hfirst), hpool⟩)

/-- A shot goes on where its opening ends. -/
theorem shoot_of_openShot {a : α} {b : β} {s₁ : Firing} {result : Except BuildError Unit}
    (hopen : openShot aim first s = (.ok (a, b), s₁))
    (h : shoot aim (fun a => first a >>= rest a) pool s = (result, s')) :
    rest a b s₁.context = (result, s'.context) := by
  obtain ⟨ha, hfirst, -⟩ := openShot_eq_ok.1 hopen
  rcases result with e | _
  · rcases shoot_eq_error.1 h with ⟨hfailed, -⟩ | ⟨_, ha', hbody, -⟩
    · cases ha.symm.trans hfailed
    · cases ha.symm.trans ha'
      rcases bind_eq_error.1 hbody with hfailed | ⟨_, _, hfirst', hrest⟩
      · cases hfirst.symm.trans hfailed
      · cases hfirst.symm.trans hfirst'
        exact hrest
  · obtain ⟨_, ha', hbody, -⟩ := shoot_eq_ok.1 h
    cases ha.symm.trans ha'
    obtain ⟨_, _, hfirst', hrest⟩ := bind_eq_ok.1 hbody
    cases hfirst.symm.trans hfirst'
    exact hrest

/-- A shot leaves nothing behind exactly if its opening fails, provided that the opening
adds a record to some component if it succeeds, and none if it fails. -/
theorem unchanged_iff_openShot {result : Except BuildError Unit} (caller : Nat)
    (h : shoot aim (fun a => first a >>= rest a) pool s = (result, s'))
    (hfails : ∀ a e ctx, aim s = .ok a → first a s.context = (.error e, ctx) →
      Evolves (fun j => s.context.components.length ≤ j) s.context ctx)
    (hgrows : ∀ a b ctx, aim s = .ok a → first a s.context = (.ok b, ctx) →
      ∃ c₀ c₁, s.context.components[caller]? = some c₀ ∧ ctx.components[caller]? = some c₁ ∧
        c₀.records.length < c₁.records.length)
    (hrest : ∀ a b ctx, Keeps (Evolves (fun _ => True) ctx) (rest a b)) :
    s.Unchanged s' ↔ ∃ e s₁, openShot aim first s = (.error e, s₁) := by
  rcases hopen : openShot aim first s with ⟨e | ⟨a, b⟩, s₁⟩
  · cases h.symm.trans (shoot_of_openShot_error hopen)
    refine iff_of_true ?_ ⟨e, s', rfl⟩
    rcases openShot_eq_error.1 hopen with ⟨-, rfl⟩ | ⟨a, ha, hfirst, hpool⟩
    · exact .of_evolves (.refl _) rfl
    · exact .of_evolves (hfails a e _ ha hfirst) hpool
  · obtain ⟨ha, hfirst, -⟩ := openShot_eq_ok.1 hopen
    obtain ⟨c₀, c₁, hc₀, hc₁, hgrowth⟩ := hgrows a b _ ha hfirst
    have hevolves := hrest a b s₁.context s₁.context (.refl _)
    rw [shoot_of_openShot hopen h] at hevolves
    refine iff_of_false (Unchanged.not_of_growth hc₀ hc₁ hgrowth hevolves) ?_
    rintro ⟨_, _, hfailed⟩
    cases hfailed

end Firing

/-! ## Travel times -/

/-- The travel times of a line are not negative if its slowest bullet arrives. -/
theorem Line.durations_nonneg {fastest slowest : Float} {bullets : Nat} {durations : List Float}
    (h : Line.durations fastest slowest bullets = .ok durations) (hfinite : slowest.isFinite)
    (hbullets : bullets < 2 ^ 32) : ∀ d ∈ durations, 0.0 ≤ d := by
  obtain ⟨hfastest, hslowest, hthree, rfl⟩ := durations_eq_ok h
  obtain ⟨hstep, hstep'⟩ := Number.quotient_nonneg hfastest hslowest hfinite
    (by omega : 2 ≤ bullets - 1) (by omega)
  intro d hd
  obtain ⟨i, hi, rfl⟩ := List.mem_map.1 hd
  have hi : i < bullets := List.mem_range.1 hi
  obtain ⟨hindex, hindex'⟩ := Number.ofNat_nonneg (by omega : i < 2 ^ 53)
  exact Number.add_nonneg (Number.zero_le_of_lt hfastest)
    (Number.mul_nonneg hstep hindex hstep' hindex')

/-! ## Records that are taken -/

namespace Context

variable {caller template : Nat} {time : Float} {ctx ctx' : Context} {a : Action}

theorem Takes.at {time' : Float} (h : ctx.Takes caller time) (htime : 0.0 ≤ time') :
    ctx.Takes caller time' := by
  obtain ⟨c, hc, -, howners⟩ := h
  exact ⟨c, hc, Schedule.nonNegative_eq_ok.2 htime, howners⟩

theorem Takes.nonneg (h : ctx.Takes caller time) : 0.0 ≤ time := by
  obtain ⟨_, -, htime, -⟩ := h
  exact Schedule.nonNegative_eq_ok.1 htime

theorem perform_of_takes {e : Effect} (h : ctx.Takes caller time) (he : a.effect ctx = .ok e)
    (htarget : ∀ g ∈ e.target?, ctx.Valid g) :
    ∃ ctx', perform caller time a ctx = (.ok (), ctx') ∧ ctx'.Takes caller time ∧
      Evolves (fun _ => True) ctx ctx' := by
  obtain ⟨ctx', hperform⟩ := (perform_succeeds_iff he).2 ⟨h, htarget⟩
  exact ⟨ctx', hperform, takes_of_perform hperform, evolves_of_perform hperform⟩

/-- A caller that has taken the bursts of a template takes further records. -/
theorem takes_of_fire {as : List Assignment} {c : Component}
    (h : fire caller time template as ctx = (.ok (), ctx')) (hctx : ctx.Regular) (has : as ≠ [])
    (hc : ctx.components[template]? = some c) : ctx'.Takes caller time := by
  obtain ⟨bursts, ctx₁, hprepare, hbursts⟩ := bind_eq_ok.1 h
  obtain ⟨hne, -⟩ := prepare_bursts hprepare hctx has hc
  -- It is the last burst that counts.
  obtain ⟨init, last, rfl⟩ := List.eq_nil_or_concat bursts |>.resolve_left hne
  rw [List.concat_eq_append, each_append, bind_eq_ok] at hbursts
  obtain ⟨_, ctx₂, -, hlast⟩ := hbursts
  obtain ⟨ctx₃, hlast, hnil⟩ := each_cons_eq_ok.1 hlast
  cases hnil
  exact takes_of_perform hlast

end Context

namespace Pattern

open Context (Takes)

variable {caller template : Nat} {time : Float} {emitter direction : Group} {ctx ctx' : Context}
  {s s' : Firing} {e : BuildError}

theorem moveBullet_of_takes {duration : Float} {bullet : Group} (h : ctx.Takes caller time)
    (hdirection : ctx.Valid direction) (hbullet : ctx.Valid bullet) (hduration : 0.0 ≤ duration)
    (distance : Float) :
    ∃ ctx', moveBullet caller time direction distance bullet duration ctx = (.ok (), ctx') ∧
      ctx'.Takes caller time ∧ Evolves (fun _ => True) ctx ctx' := by
  have htick : 0.0 ≤ time + Schedule.tick := Number.add_nonneg h.nonneg (by decide)
  have heffect : (Action.moveTowards bullet direction distance (Tween.linear duration) false).effect
      ctx = .ok (.moveTowards bullet direction distance (Tween.linear duration) false) := by
    have hvalid : ctx.validateGroup direction = .ok () := hdirection
    simp only [Action.effect, Tween.validate_linear.2 hduration, hvalid]
    rfl
  obtain ⟨ctx', hmove, htakes, hevolves⟩ := Context.perform_of_takes (h.at htick) heffect
    (by simpa [Effect.target?] using hbullet)
  exact ⟨ctx', hmove, htakes.at h.nonneg, hevolves⟩

theorem moveBullets_of_takes {distance : Float} {moves : List (Assignment × Float)}
    (h : ctx.Takes caller time) (hdirection : ctx.Valid direction)
    (hmoves : ∀ m ∈ moves, ctx.Valid m.1.bullet ∧ 0.0 ≤ m.2) :
    ∃ ctx', moveBullets caller time direction distance moves ctx = (.ok (), ctx') := by
  let P (ctx₁ : Context) : Prop := ctx₁.Takes caller time ∧ Evolves (fun _ => True) ctx ctx₁
  have hround : ∀ m ∈ moves, ∀ ctx₁, P ctx₁ → ∃ ctx₂,
      moveBullet caller time direction distance m.1.bullet m.2 ctx₁ = (.ok (), ctx₂) ∧ P ctx₂ := by
    rintro m hm ctx₁ ⟨htakes, hevolves⟩
    obtain ⟨hbullet, hduration⟩ := hmoves m hm
    obtain ⟨ctx₂, hmove, htakes₂, hevolves₂⟩ := moveBullet_of_takes htakes
      (hevolves.valid hdirection) (hevolves.valid hbullet) hduration distance
    exact ⟨ctx₂, hmove, htakes₂, hevolves.trans hevolves₂⟩
  obtain ⟨ctx', hrun, -⟩ := each_succeeds ⟨h, .refl ctx⟩ hround
  exact ⟨ctx', hrun⟩

theorem AimedLine.bullet {pool : Pool} {n : Nat} {volley : Volley} {a : Assignment}
    (h : AimedLine ctx pool time template emitter direction n volley) (ha : a ∈ volley.assignments) :
    ctx.Valid a.bullet := by
  rw [h.assignments, lineAssignments, List.mem_map] at ha
  obtain ⟨shot, hshot, rfl⟩ := ha
  exact (h.shots shot hshot).1

theorem AimedLine.assignments_ne_nil {pool : Pool} {n : Nat} {volley : Volley}
    (h : AimedLine ctx pool time template emitter direction n volley) (hn : 0 < n) :
    volley.assignments ≠ [] := by
  rw [← List.length_pos_iff, h.length]
  exact hn

/-! ## Lines of one moment -/

theorem takes_of_launch {volley : Volley} {c : Component}
    (h : launch caller time template volley ctx = (.ok (), ctx')) (hctx : ctx.Regular)
    (has : volley.assignments ≠ []) (hc : ctx.components[template]? = some c) :
    ctx'.Takes caller time ∧ Evolves (fun _ => True) ctx ctx' := by
  obtain ⟨_, ctx₁, hwarn, hfire⟩ := bind_eq_ok.1 h
  obtain ⟨-, hcomponents, hbases, hwarned⟩ := Context.evolves_of_warn? (A := fun _ => True) hwarn
  have hingredients : Ingredients (Evolves (fun _ => True) ctx₁) caller :=
    Evolves.ingredients (fun _ _ => trivial) trivial
  have hfired := (hingredients.fire time template volley.assignments).of_run hfire (.refl ctx₁)
  exact ⟨Context.takes_of_fire hfire (hctx.evolves hbases hwarned) has (hcomponents ▸ hc),
    hwarned.trans hfired⟩

/-- Gives the warning of a volley and fires it up to its first burst. -/
def openLaunch (caller : Nat) (time : Float) (template : Nat) (volley : Volley) :
    Build Context (List Burst) := do
  Context.warn? volley.warning
  Context.openFire caller time template volley.assignments

theorem launch_eq_openLaunch {volley : Volley} : launch caller time template volley =
    (openLaunch caller time template volley >>= Build.each (Context.emitBurst caller time)) := by
  simp only [launch, openLaunch, Context.fire_eq_openFire, Build.bind_assoc]

theorem openLaunch_eq_error {volley : Volley}
    (h : openLaunch caller time template volley ctx = (.error e, ctx')) :
    Evolves (fun j => ctx.components.length ≤ j) ctx ctx' := by
  rcases bind_eq_error.1 h with h | ⟨_, ctx₁, hwarn, h⟩
  · cases (Context.evolves_of_warn? (A := fun _ => True) h).1
  · obtain ⟨-, hcomponents, -, hwarned⟩ :=
      Context.evolves_of_warn? (A := fun j => ctx.components.length ≤ j) hwarn
    have hopened := Context.openFire_eq_error h
    rw [hcomponents] at hopened
    exact hwarned.trans hopened

theorem openLaunch_grows {volley : Volley} {bursts : List Burst} {c c₀ : Component}
    (h : openLaunch caller time template volley ctx = (.ok bursts, ctx')) (hctx : ctx.Regular)
    (has : volley.assignments ≠ []) (hc : ctx.components[template]? = some c)
    (hcaller : ctx.components[caller]? = some c₀) :
    ∃ c₁, ctx'.components[caller]? = some c₁ ∧ c₀.records.length < c₁.records.length := by
  obtain ⟨_, ctx₁, hwarn, hopen⟩ := bind_eq_ok.1 h
  obtain ⟨-, hcomponents, hbases, hwarned⟩ := Context.evolves_of_warn? (A := fun _ => True) hwarn
  obtain ⟨r, hr⟩ := Context.openFire_grows hopen (hctx.evolves hbases hwarned) has
    (hcomponents ▸ hc) (hcomponents ▸ hcaller)
  exact ⟨c₀.push r, hr, by simp [Component.push]⟩

/-- Fires a line up to its first burst. -/
def openLine (caller : Nat) (time : Float) (template : Nat) (emitter direction : Group)
    (line : Line) : Build Firing ((Volley × List Float) × List Burst) :=
  Firing.openShot
    (fun s => do
      let _ ← s.context.component caller
      aimLine s.context s.pool time template emitter direction line)
    (fun aimed => openLaunch caller time template aimed.1)

theorem unchanged_iff_openLine {line : Line} {result : Except BuildError Unit}
    (h : Pattern.line caller time template emitter direction line s = (result, s'))
    (hctx : s.context.Regular) :
    s.Unchanged s' ↔
      ∃ e₁ s₁, openLine caller time template emitter direction line s = (.error e₁, s₁) := by
  have hingredients : ∀ ctx, Ingredients (Evolves (fun _ => True) ctx) caller := fun ctx =>
    Evolves.ingredients (fun _ _ => trivial) trivial
  simp only [line_eq_shoot, launch_eq_openLaunch, Build.bind_assoc] at h
  refine Firing.unchanged_iff_openShot caller h ?_ ?_ ?_
  · intro aimed e ctx _ hopen
    exact openLaunch_eq_error hopen
  · intro aimed bursts ctx haim hopen
    obtain ⟨c₀, hcaller, haim⟩ := Except.bind_eq_ok.1 haim
    have hcaller := Context.component_eq_ok.1 (Except.mapError_eq_ok.1 hcaller)
    obtain ⟨haimed, hdurations⟩ := aimLine_eq_ok haim
    obtain ⟨c, hc⟩ := haimed.known
    have hthree := (Line.durations_eq_ok hdurations).2.2.1
    obtain ⟨c₁, hc₁, hgrowth⟩ :=
      openLaunch_grows hopen hctx (haimed.assignments_ne_nil (by omega)) hc hcaller
    exact ⟨c₀, c₁, hcaller, hc₁, hgrowth⟩
  · intro aimed bursts ctx
    exact .bind (.each fun burst _ => (hingredients ctx).perform _ _) fun _ =>
      .each fun m _ => (hingredients ctx).perform _ _

/-- With an ordinary template and a slowest bullet that arrives, a line is all or
nothing. -/
theorem unchanged_of_line_error {line : Line}
    (h : Pattern.line caller time template emitter direction line s = (.error e, s'))
    (hctx : s.context.Regular)
    (hne : ∀ c, s.context.components[template]? = some c → c.caller ≠ Group.template)
    (hfinite : line.slowest.isFinite) (hbullets : line.bullets < 2 ^ 32) : s.Unchanged s' := by
  rw [line_eq_shoot, Firing.shoot_eq_error] at h
  rcases h with ⟨-, rfl⟩ | ⟨⟨volley, durations⟩, haim, hbody, hpool⟩
  · exact .of_evolves (.refl _) rfl
  obtain ⟨_, -, haim⟩ := Except.bind_eq_ok.1 haim
  obtain ⟨haimed, hdurations⟩ := aimLine_eq_ok haim
  obtain ⟨c, hc⟩ := haimed.known
  have hthree := (Line.durations_eq_ok hdurations).2.2.1
  have has := haimed.assignments_ne_nil (by omega)
  rcases bind_eq_error.1 hbody with hlaunch | ⟨_, ctx₁, hlaunch, hmoves⟩
  · exact .of_evolves (evolves_of_launch_error hlaunch hctx has hc (hne c hc)) hpool
  · -- Once the template is fired every motion is accepted.
    obtain ⟨htakes, hevolves⟩ := takes_of_launch hlaunch hctx has hc
    have haccepted : ∀ m ∈ volley.assignments.zip durations,
        ctx₁.Valid m.1.bullet ∧ 0.0 ≤ m.2 := by
      intro m hm
      obtain ⟨ha, hd⟩ := List.of_mem_zip hm
      exact ⟨hevolves.valid (haimed.bullet ha),
        Line.durations_nonneg hdurations hfinite hbullets m.2 hd⟩
    obtain ⟨ctx₂, hmoved⟩ := moveBullets_of_takes htakes (hevolves.valid haimed.toward) haccepted
    cases hmoved.symm.trans hmoves

/-! ## Timed lines -/

/-- Spawns the template for one bullet. -/
def timedSpawn (caller : Nat) (time : Float) (template : Nat) (a : Assignment) :
    Build Context Unit :=
  Context.perform caller time (.spawn (.component template) true (.table a.remap) 0.0)

/-- The template of an accepted spawn runs on a valid group. -/
theorem template_of_timedSpawn {a : Assignment}
    (h : timedSpawn caller time template a ctx = (.ok (), ctx')) :
    ∃ c, ctx.components[template]? = some c ∧ ctx.Valid c.caller := by
  obtain ⟨r, hr, -⟩ := Context.perform_eq_ok.1 h
  obtain ⟨_, effect, -, heffect, hplace⟩ := Context.draft_eq_ok.1 hr
  obtain ⟨htarget, -⟩ := Context.place_eq_ok.1 hplace
  obtain ⟨g, _, hresolve, -, -, rfl⟩ := Action.effect_spawn_eq_ok.1 heffect
  obtain ⟨c, hc, hg⟩ := Except.bind_eq_ok.1 hresolve
  cases hg
  exact ⟨c, Context.component_eq_ok.1 hc, htarget c.caller rfl⟩

theorem timedSpawn_of_takes {a : Assignment} {c : Component} (h : ctx.Takes caller time)
    (hc : ctx.components[template]? = some c) (hvalid : ctx.Valid c.caller)
    (hclean : a.remap.cleaned.pairs ≠ []) :
    ∃ ctx', timedSpawn caller time template a ctx = (.ok (), ctx') ∧ ctx'.Takes caller time ∧
      Evolves (fun _ => True) ctx ctx' := by
  have hne : a.remap.pairs ≠ [] := fun hnil => hclean (by simp [Remap.cleaned, hnil])
  have heffect := Action.effect_spawn_component hc true (.table a.remap) 0.0
  rw [(Action.effect_spawn_table hne).2 ⟨hclean, rfl⟩] at heffect
  exact Context.perform_of_takes h heffect (by simpa [Effect.target?] using hvalid)

/-- A remap to other groups than the placeholders changes something. -/
theorem cleaned_ne_nil_of_ne {a : Assignment} (h : a ≠ Assignment.placeholders) :
    a.remap.cleaned.pairs ≠ [] := by
  intro hnil
  have hsame : ∀ p ∈ a.remap.pairs, p.1 = p.2 := by
    intro p hp
    by_contra hne
    have hmem : p ∈ a.remap.cleaned.pairs := List.mem_filter.2 ⟨hp, by simpa using hne⟩
    rw [hnil] at hmem
    cases hmem
  obtain ⟨bullet, target, emitter, collision⟩ := a
  simp only [Assignment.remap, Assignment.pairs, Assignment.toList, Assignment.placeholders,
    List.zip_cons_cons, List.zip_nil_right, List.forall_mem_cons] at hsame
  obtain ⟨rfl, rfl, rfl, rfl, -⟩ := hsame
  exact h rfl

/-- A line can only hit all placeholders at once if it aims from one to another, and
its pool has as many bullets as the collision placeholder is away from the bullet. -/
theorem AimedLine.ne_placeholders {pool : Pool} {n : Nat} {volley : Volley} {a : Assignment}
    (h : AimedLine ctx pool time template emitter direction n volley) (ha : a ∈ volley.assignments)
    (hsafe : ¬ (direction = Group.target ∧ emitter = Group.emitter ∧ pool.size = 13)) :
    a ≠ Assignment.placeholders := by
  rw [h.assignments, lineAssignments, List.mem_map] at ha
  obtain ⟨⟨bullet, collision⟩, hshot, rfl⟩ := ha
  have hcollision : collision = bullet + pool.size := Pool.collision_of_take hshot
  intro heq
  injection heq with hbullet htarget hemitter haux
  refine hsafe ⟨htarget, hemitter, ?_⟩
  rw [hbullet, haux] at hcollision
  have hsum : 23 = 10 + pool.size := hcollision
  omega

theorem timedShot_of_takes {line : TimedLine} {a : Assignment} {c : Component}
    (h : ctx.Takes caller time) (hc : ctx.components[template]? = some c)
    (hvalid : ctx.Valid c.caller) (hclean : a.remap.cleaned.pairs ≠ [])
    (hdirection : ctx.Valid direction) (hbullet : ctx.Valid a.bullet)
    (hduration : 0.0 ≤ line.duration) :
    ∃ ctx', timedShot caller time template direction line a ctx = (.ok (), ctx') ∧
      ctx'.Takes caller time ∧ Evolves (fun _ => True) ctx ctx' := by
  obtain ⟨ctx₁, hspawn, htakes₁, hevolves₁⟩ := timedSpawn_of_takes h hc hvalid hclean
  obtain ⟨ctx₂, hmove, htakes₂, hevolves₂⟩ := moveBullet_of_takes htakes₁
    (hevolves₁.valid hdirection) (hevolves₁.valid hbullet) hduration line.distance
  exact ⟨ctx₂, bind_eq_ok.2 ⟨(), ctx₁, hspawn, hmove⟩, htakes₂, hevolves₁.trans hevolves₂⟩

/-- After the first shot of a timed line the others are accepted. -/
theorem timedShots_of_takes {line : TimedLine} {shots : List (Assignment × Nat)} {c : Component}
    (h : ctx.Takes caller time) (hc : ctx.components[template]? = some c)
    (hvalid : ctx.Valid c.caller) (hdirection : ctx.Valid direction)
    (hduration : 0.0 ≤ line.duration)
    (hshots : ∀ shot ∈ shots, shot.1.remap.cleaned.pairs ≠ [] ∧ ctx.Valid shot.1.bullet ∧
      0.0 ≤ time + Float.ofNat shot.2 * line.gap) :
    ∃ ctx', timedShots caller time template direction line shots ctx = (.ok (), ctx') := by
  let P (ctx₁ : Context) : Prop := ctx₁.Takes caller time ∧ Evolves (fun _ => True) ctx ctx₁
  have hround : ∀ shot ∈ shots, ∀ ctx₁, P ctx₁ → ∃ ctx₂,
      timedShot caller (time + Float.ofNat shot.2 * line.gap) template direction line shot.1 ctx₁ =
        (.ok (), ctx₂) ∧ P ctx₂ := by
    rintro shot hshot ctx₁ ⟨htakes, hevolves⟩
    obtain ⟨hclean, hbullet, htime⟩ := hshots shot hshot
    obtain ⟨c₁, hc₁, hcaller, -⟩ := hevolves.extension.component template c hc
    obtain ⟨ctx₂, hshot, htakes₂, hevolves₂⟩ := timedShot_of_takes (htakes.at htime) hc₁
      (hcaller ▸ hevolves.valid hvalid) hclean (hevolves.valid hdirection)
      (hevolves.valid hbullet) hduration
    exact ⟨ctx₂, hshot, htakes₂.at h.nonneg, hevolves.trans hevolves₂⟩
  obtain ⟨ctx', hrun, -⟩ := each_succeeds ⟨h, .refl ctx⟩ hround
  exact ⟨ctx', hrun⟩

theorem AimedLine.shot {pool : Pool} {volley : Volley} {line : TimedLine}
    {shot : Assignment × Nat}
    (h : AimedLine ctx pool time template emitter direction line.bullets volley)
    (hbullets : line.bullets < 2 ^ 32) (hgap : 0.0 ≤ line.gap) (hfinite : line.gap.isFinite)
    (hsafe : ¬ (direction = Group.target ∧ emitter = Group.emitter ∧ pool.size = 13))
    (hshot : shot ∈ volley.assignments.zipIdx) :
    shot.1.remap.cleaned.pairs ≠ [] ∧ ctx.Valid shot.1.bullet ∧
      0.0 ≤ time + Float.ofNat shot.2 * line.gap := by
  have ha : shot.1 ∈ volley.assignments := List.fst_mem_of_mem_zipIdx hshot
  have hk : shot.2 < line.bullets := by
    have := List.snd_lt_of_mem_zipIdx hshot
    rwa [h.length, Nat.add_zero] at this
  obtain ⟨hindex, hindex'⟩ := Number.ofNat_nonneg (by omega : shot.2 < 2 ^ 53)
  exact ⟨cleaned_ne_nil_of_ne (h.ne_placeholders ha hsafe), h.bullet ha,
    Number.add_nonneg (Schedule.nonNegative_eq_ok.1 h.moment)
      (Number.mul_nonneg hindex hgap hindex' hfinite)⟩

/-- Gives the warning of a timed line and spawns the template for its first bullet. -/
def openShots (caller : Nat) (time : Float) (template : Nat) (line : TimedLine)
    (volley : Volley) : Build Context Unit := do
  Context.warn? volley.warning
  Build.each (fun (a, k) => timedSpawn caller (time + Float.ofNat k * line.gap) template a)
    (volley.assignments.zipIdx.take 1)

/-- Moves the first bullet of a timed line, and goes on with the others. -/
def closeShots (caller : Nat) (time : Float) (template : Nat) (direction : Group)
    (line : TimedLine) (volley : Volley) : Build Context Unit := do
  Build.each (fun (a, k) => moveBullet caller (time + Float.ofNat k * line.gap) direction
    line.distance a.bullet line.duration) (volley.assignments.zipIdx.take 1)
  timedShots caller time template direction line (volley.assignments.zipIdx.drop 1)

theorem timedShots_eq_openShots (line : TimedLine) (volley : Volley) :
    (Context.warn? volley.warning >>= fun _ =>
      timedShots caller time template direction line volley.assignments.zipIdx) =
    (openShots caller time template line volley >>= fun _ =>
      closeShots caller time template direction line volley) := by
  unfold openShots closeShots timedShots
  rw [Build.bind_assoc]
  congr 1
  funext _
  cases volley.assignments.zipIdx with
  | nil => rfl
  | cons shot rest =>
      rw [List.take_succ_cons, List.take_zero, List.drop_succ_cons, List.drop_zero, each_singleton,
        each_singleton, each_cons]
      exact Build.bind_assoc _ _ _

theorem zipIdx_of_aimed {pool : Pool} {n : Nat} {volley : Volley}
    (h : AimedLine ctx pool time template emitter direction n volley) (hn : 0 < n) :
    ∃ a rest, volley.assignments.zipIdx = (a, 0) :: rest := by
  cases hassignments : volley.assignments with
  | nil => exact absurd hassignments (h.assignments_ne_nil hn)
  | cons a as => exact ⟨a, as.zipIdx 1, rfl⟩

/-- Fires a timed line up to the spawn of the template for its first bullet. -/
def openTimedLine (caller : Nat) (time : Float) (template : Nat) (emitter direction : Group)
    (line : TimedLine) : Build Firing (Volley × Unit) :=
  Firing.openShot
    (fun s => do
      let _ ← s.context.component caller
      aimTimedLine s.context s.pool time template emitter direction line)
    (openShots caller time template line)

theorem openShots_eq_error {line : TimedLine} {volley : Volley}
    (h : openShots caller time template line volley ctx = (.error e, ctx')) :
    Evolves (fun j => ctx.components.length ≤ j) ctx ctx' := by
  rcases bind_eq_error.1 h with h | ⟨_, ctx₁, hwarn, h⟩
  · cases (Context.evolves_of_warn? (A := fun _ => True) h).1
  · obtain ⟨-, -, -, hwarned⟩ := Context.evolves_of_warn? (A := fun j => ctx.components.length ≤ j) hwarn
    cases hzip : volley.assignments.zipIdx with
    | nil =>
        rw [hzip] at h
        cases h
    | cons shot rest =>
        rw [hzip] at h
        rcases each_cons_eq_error.1 h with h | ⟨_, -, h⟩
        · obtain ⟨-, rfl⟩ := Context.perform_eq_error.1 h
          exact hwarned
        · cases h

theorem openShots_eq_ok {line : TimedLine} {volley : Volley} {a : Assignment}
    {rest : List (Assignment × Nat)} (hzip : volley.assignments.zipIdx = (a, 0) :: rest)
    (h : openShots caller time template line volley ctx = (.ok (), ctx')) :
    ∃ ctx₁, ctx₁.components = ctx.components ∧ Evolves (fun _ => True) ctx ctx₁ ∧
      timedSpawn caller (time + Float.ofNat 0 * line.gap) template a ctx₁ = (.ok (), ctx') := by
  obtain ⟨_, ctx₁, hwarn, h⟩ := bind_eq_ok.1 h
  obtain ⟨-, hcomponents, -, hwarned⟩ := Context.evolves_of_warn? (A := fun _ => True) hwarn
  rw [hzip] at h
  obtain ⟨ctx₂, hspawn, hnil⟩ := each_cons_eq_ok.1 h
  cases hnil
  exact ⟨ctx₁, hcomponents, hwarned, hspawn⟩

theorem unchanged_iff_openTimedLine {line : TimedLine} {result : Except BuildError Unit}
    (h : Pattern.timedLine caller time template emitter direction line s = (result, s')) :
    s.Unchanged s' ↔
      ∃ e₁ s₁, openTimedLine caller time template emitter direction line s = (.error e₁, s₁) := by
  have hperform : ∀ ctx time a, Keeps (Evolves (fun _ => True) ctx) (Context.perform caller time a) :=
    fun ctx => Evolves.perform trivial
  simp only [timedLine_eq_shoot, timedShots_eq_openShots] at h
  refine Firing.unchanged_iff_openShot caller h ?_ ?_ ?_
  · intro volley e ctx _ hopen
    exact openShots_eq_error hopen
  · intro volley _ ctx haim hopen
    obtain ⟨c₀, hcaller, haim⟩ := Except.bind_eq_ok.1 haim
    have hcaller := Context.component_eq_ok.1 (Except.mapError_eq_ok.1 hcaller)
    obtain ⟨haimed, htwo, -⟩ := aimTimedLine_eq_ok haim
    obtain ⟨a, rest, hzip⟩ := zipIdx_of_aimed haimed (by omega)
    obtain ⟨ctx₁, hcomponents, -, hspawn⟩ := openShots_eq_ok hzip hopen
    obtain ⟨r, -, rfl⟩ := Context.perform_eq_ok.1 hspawn
    refine ⟨c₀, c₀.push r, hcaller, ?_, by simp [Component.push]⟩
    simp [hcomponents, hcaller]
  · intro volley _ ctx
    refine .bind (.each fun shot _ => hperform ctx _ _) fun _ => .each fun shot _ => ?_
    exact .bind (hperform ctx _ _) fun _ => hperform ctx _ _

/-- Once the template was spawned for the first bullet, the rest of a timed line
succeeds. -/
theorem closeShots_of_openShots {pool : Pool} {volley : Volley} {line : TimedLine}
    (h : AimedLine ctx pool time template emitter direction line.bullets volley)
    (htwo : 2 ≤ line.bullets) (hbullets : line.bullets < 2 ^ 32) (hgap : 0.0 ≤ line.gap)
    (hduration : 0.0 ≤ line.duration)
    (hsafe : ¬ (direction = Group.target ∧ emitter = Group.emitter ∧ pool.size = 13))
    (hopen : openShots caller time template line volley ctx = (.ok (), ctx')) :
    ∃ ctx'', closeShots caller time template direction line volley ctx' = (.ok (), ctx'') := by
  obtain ⟨a, rest, hzip⟩ := zipIdx_of_aimed h (by omega)
  obtain ⟨ctx₁, -, hwarned, hspawn⟩ := openShots_eq_ok hzip hopen
  have hevolves : Evolves (fun _ => True) ctx ctx' :=
    hwarned.trans (Context.evolves_of_perform hspawn)
  have htakes := Context.takes_of_perform hspawn
  have hfinite : line.gap.isFinite := Number.isFinite_of_add_zero_mul hgap htakes.nonneg
  have hshots : ∀ shot ∈ (a, 0) :: rest, shot.1.remap.cleaned.pairs ≠ [] ∧
      ctx.Valid shot.1.bullet ∧ 0.0 ≤ time + Float.ofNat shot.2 * line.gap := by
    intro shot hshot
    exact h.shot hbullets hgap hfinite hsafe (hzip ▸ hshot)
  -- The bullet whose template was spawned moves.
  obtain ⟨ctx₂, hmove, htakes₂, hevolves₂⟩ := moveBullet_of_takes htakes
    (hevolves.valid h.toward) (hevolves.valid (hshots _ List.mem_cons_self).2.1) hduration
    line.distance
  have hevolves₂ : Evolves (fun _ => True) ctx ctx₂ := hevolves.trans hevolves₂
  -- The other bullets find everything as the first did.
  obtain ⟨c₁, hc₁, hvalid₁⟩ := template_of_timedSpawn hspawn
  have hlater : Evolves (fun _ => True) ctx₁ ctx₂ :=
    (Context.evolves_of_perform hspawn).trans (Context.evolves_of_perform hmove)
  obtain ⟨c₂, hc₂, hcaller, -⟩ := hlater.extension.component template c₁ hc₁
  obtain ⟨ctx₃, hrest⟩ := timedShots_of_takes
    (htakes₂.at (Schedule.nonNegative_eq_ok.1 h.moment)) hc₂ (hcaller ▸ hlater.valid hvalid₁)
    (hevolves₂.valid h.toward) hduration fun shot hshot =>
      (hshots shot (List.mem_cons_of_mem _ hshot)).imp_right fun hrest =>
        hrest.imp_left hevolves₂.valid
  refine ⟨ctx₃, bind_eq_ok.2 ⟨(), ctx₂, ?_, ?_⟩⟩
  · rw [hzip, List.take_succ_cons, List.take_zero, each_singleton]
    exact hmove
  · rw [hzip]
    exact hrest

/-- A timed line is all or nothing, unless it may hit all placeholders at once. -/
theorem unchanged_of_timedLine_error {line : TimedLine}
    (h : Pattern.timedLine caller time template emitter direction line s = (.error e, s'))
    (hbullets : line.bullets < 2 ^ 32)
    (hsafe : ¬ (direction = Group.target ∧ emitter = Group.emitter ∧ s.pool.size = 13)) :
    s.Unchanged s' := by
  rw [unchanged_iff_openTimedLine h]
  rcases hopen : openTimedLine caller time template emitter direction line s with
    ⟨e₁ | ⟨volley, _⟩, s₁⟩
  · exact ⟨e₁, s₁, rfl⟩
  · simp only [timedLine_eq_shoot, timedShots_eq_openShots] at h
    have hclose := Firing.shoot_of_openShot hopen h
    obtain ⟨haim, hopened, -⟩ := Firing.openShot_eq_ok.1 hopen
    obtain ⟨_, -, haim⟩ := Except.bind_eq_ok.1 haim
    obtain ⟨haimed, htwo, hgap, htween⟩ := aimTimedLine_eq_ok haim
    obtain ⟨ctx, hclosed⟩ := closeShots_of_openShots haimed htwo hbullets hgap
      (Tween.validate_linear.1 htween) hsafe hopened
    cases hclosed.symm.trans hclose

end Pattern

/-- A failed line leaves its pool where it is, and it leaves nothing behind exactly if
it fails before its first burst, or the spawn for its first bullet, is out.  It is
all or nothing if the template is an ordinary one and the slowest bullet arrives, and
a timed line is if it does not hit all placeholders at once. -/
theorem line_leaves {caller template : Nat} {time : Float} {emitter direction : Group}
    {s s' : Firing} {e : BuildError} (hctx : Reachable s.context) :
    (∀ line : Line, Pattern.line caller time template emitter direction line s = (.error e, s') →
      s'.pool = s.pool ∧
      (s.Unchanged s' ↔ ∃ e₁ s₁,
        Pattern.openLine caller time template emitter direction line s = (.error e₁, s₁)) ∧
      ((∀ c, s.context.components[template]? = some c → c.caller ≠ Group.template) →
        line.slowest.isFinite → line.bullets < 2 ^ 32 → s.Unchanged s')) ∧
    ∀ line : TimedLine,
      Pattern.timedLine caller time template emitter direction line s = (.error e, s') →
      s'.pool = s.pool ∧
      (s.Unchanged s' ↔ ∃ e₁ s₁,
        Pattern.openTimedLine caller time template emitter direction line s = (.error e₁, s₁)) ∧
      (¬ (direction = Group.target ∧ emitter = Group.emitter ∧ s.pool.size = 13) →
        line.bullets < 2 ^ 32 → s.Unchanged s') := by
  have hregular : s.context.Regular := Run.regular hctx
  constructor
  · intro line h
    let p : PatternCall := .line time template emitter direction line
    have hpool : s'.pool = s.pool := PatternCall.pool_of_error (p := p) trivial h
    exact ⟨hpool, Pattern.unchanged_iff_openLine h hregular, fun hne hfinite hbullets =>
      Pattern.unchanged_of_line_error h hregular hne hfinite hbullets⟩
  · intro line h
    let p : PatternCall := .timedLine time template emitter direction line
    have hpool : s'.pool = s.pool := PatternCall.pool_of_error (p := p) trivial h
    exact ⟨hpool, Pattern.unchanged_iff_openTimedLine h, fun hsafe hbullets =>
      Pattern.unchanged_of_timedLine_error h hbullets hsafe⟩

/-- A caller, a template for lines, and thirteen bullets of which the second is the
placeholder for bullets.  No group is reserved. -/
def placeholderLine : Firing where
  context := Call.runAll
    [.register "Caller" 36 none, .register "Template" 37 none, .edit 1 (.spawnOrder true),
      .edit 1 (.trigger 0.0 (.toggle (.group Group.bullet) true)), .initBases]
    (Context.ofConfig { tiers := 2, reserved := [] })
  pool := { cycler := ⟨9, 21, 9, by decide, by decide⟩ }

/-- A line whose last bullet never arrives. -/
def endlessLine : Line where
  bullets := 3
  fastest := 1.0
  slowest := 1.0 / 0.0
  distance := 480.0

def twoShots : TimedLine where
  bullets := 2
  gap := 1.0
  duration := 1.0
  distance := 480.0

/-- The line fails when its first bullet is to move, and the timed line when the
template is spawned for the second one. -/
theorem line_leaves_spawns :
    (∃ e s', Pattern.line 0 0.0 1 41 2 endlessLine placeholderLine = (.error e, s') ∧
      s'.pool = placeholderLine.pool ∧ ¬ placeholderLine.Unchanged s') ∧
    ∃ e s', Pattern.timedLine 0 0.0 1 Group.emitter Group.target twoShots placeholderLine =
        (.error e, s') ∧
      s'.pool = placeholderLine.pool ∧ ¬ placeholderLine.Unchanged s' := by
  have hreachable : Reachable placeholderLine.context := by
    unfold placeholderLine
    dsimp only
    exact Reachable.runAll (.withConfig (Context.withConfig_eq_ok.2 ⟨by decide, rfl⟩)) _
  constructor
  · have hopens : (Pattern.openLine 0 0.0 1 41 2 endlessLine placeholderLine).1.isOk := by
      decide +kernel
    have hfails : ¬ (Pattern.line 0 0.0 1 41 2 endlessLine placeholderLine).1.isOk := by
      decide +kernel
    obtain ⟨e, s', hrun⟩ := eq_error_of_not_isOk hfails
    obtain ⟨hpool, hiff, -⟩ := (line_leaves hreachable).1 endlessLine hrun
    have hchanged : ¬ placeholderLine.Unchanged s' := by
      rw [hiff]
      rintro ⟨_, _, hfailed⟩
      rw [hfailed] at hopens
      cases hopens
    exact ⟨e, s', hrun, hpool, hchanged⟩
  · have hopens : (Pattern.openTimedLine 0 0.0 1 Group.emitter Group.target twoShots
        placeholderLine).1.isOk := by decide +kernel
    have hfails : ¬ (Pattern.timedLine 0 0.0 1 Group.emitter Group.target twoShots
        placeholderLine).1.isOk := by decide +kernel
    obtain ⟨e, s', hrun⟩ := eq_error_of_not_isOk hfails
    obtain ⟨hpool, hiff, -⟩ := (line_leaves hreachable).2 twoShots hrun
    have hchanged : ¬ placeholderLine.Unchanged s' := by
      rw [hiff]
      rintro ⟨_, _, hfailed⟩
      rw [hfailed] at hopens
      cases hopens
    exact ⟨e, s', hrun, hpool, hchanged⟩

end Barrage
