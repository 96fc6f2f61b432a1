import Barrage.Proofs.Burst.Expansion
import Barrage.Proofs.Pattern.Line

/-!
# Lines move the bullets that they spawn

A line spawns its template in bursts and then moves one bullet after the other.  The
bullets go two ways: with the assignments, which are cut into parts, packed into remaps
and unpacked by the bases, and with the moves, in the order in which they were drawn.
Both ways keep the order, so the move `i` is that of the bullet in the shot `i`.

A timed line spawns its template directly, with one remap per bullet, and each spawn is
followed by the move of its bullet.
-/

namespace Barrage

open Build

/-! ## Groups of 32 bits -/

/-- All groups that a record can name have at most 32 bits. -/
structure Context.Fits (ctx : Context) : Prop where
  hand : ctx.config.maxGroup ≤ Group.greatest
  issued : ctx.nextUnknown ≤ Group.greatest
  callers : ∀ c ∈ ctx.components, c.caller ≤ Group.greatest

theorem Context.Fits.of_valid {ctx : Context} {g : Group} (h : ctx.Fits) (hg : ctx.Valid g) :
    g ≤ Group.greatest := by
  rcases (valid_iff.1 hg).2 with ⟨-, hle⟩ | ⟨-, hlt⟩
  · exact Nat.le_trans hle h.hand
  · exact Nat.le_trans (Nat.le_of_lt hlt) h.issued

theorem Pattern.AimedLine.fits {ctx : Context} {pool : Pool} {time : Float} {template n : Nat}
    {emitter direction : Group} {volley : Volley}
    (h : AimedLine ctx pool time template emitter direction n volley) (hctx : ctx.Fits) :
    ∀ a ∈ volley.assignments, a.Fits := by
  intro a ha g hg
  rw [h.assignments] at ha
  obtain ⟨shot, hshot, rfl⟩ := List.mem_map.1 ha
  obtain ⟨hbullet, hcollision⟩ := h.shots shot hshot
  simp only [Assignment.toList, List.mem_cons, List.not_mem_nil, or_false] at hg
  rcases hg with rfl | rfl | rfl | rfl
  · exact hctx.of_valid hbullet
  · exact hctx.of_valid h.toward
  · exact hctx.of_valid h.source
  · exact hctx.of_valid hcollision

/-! ## Lines of one moment -/

section Instant

variable {ctx ctx₁ ctx' : Context} {caller template : Nat} {time : Float} {c₀ c : Component}
  {as : List Assignment} {b : Bases} {bursts : List Burst} {added : List Record} {g : Group}

theorem Burst.Emits.isSpawn {burst : Burst} {r : Record} (h : burst.Emits r) : r.isSpawn := by
  obtain ⟨ctx, heffect⟩ := h
  obtain ⟨_, _, -, -, -, he⟩ := Action.effect_spawn_eq_ok.1 heffect
  rw [Record.isSpawn, ← he]
  rfl

theorem Burst.isSpawn_of_emits (h : List.Forall₂ Burst.Emits bursts added) :
    ∀ r ∈ added, r.isSpawn := by
  induction h with
  | nil => simp
  | cons hr _ ih => exact List.forall_mem_cons.2 ⟨hr.isSpawn, ih⟩

/-- The bursts of a firing are read in every later context with the same bases. -/
theorem Context.Fired.delivers (h : Fired ctx ctx₁ caller c₀ g as b bursts added)
    (hctx : ctx.Fits) (haccepted : ctx.config.fault? = none) (hg : g ≤ Group.greatest)
    (has : ∀ a ∈ as, a.Fits) (hbases : ctx'.bases = some b) (hconfig : ctx'.config = ctx.config)
    (hintact : b.Intact ctx') : ctx'.Delivers added g as := by
  have hcapacities := h.intact.capacities
  obtain ⟨parts, rfl, hcarries⟩ := Bases.planAll_carries (Bases.binary_of_capacities hcapacities)
    (Bases.tiers_ne_nil (h.config ▸ haccepted) hcapacities) h.plan
  have harmed : ctx'.Armed b := ⟨hbases, hintact, hconfig ▸ haccepted, hconfig ▸ hctx.hand⟩
  exact harmed.delivers hg hcarries has h.emitted

/-- The bases of a firing stay intact when the caller gets more records. -/
theorem Context.Fired.intact_of_set (h : Fired ctx ctx₁ caller c₀ g as b bursts added)
    (hcaller : ctx.components[caller]? = some c₀) (hspared : ¬ ctx.IsBase caller)
    (hconfig : ctx'.config = ctx₁.config)
    (hcomponents : ∀ j, j ≠ caller → ctx'.components[j]? = ctx₁.components[j]?) :
    b.Intact ctx' := by
  refine h.intact.frame hconfig fun base hbase => ?_
  have hne : base.component ≠ caller := by
    rintro rfl
    rcases h.places base hbase with hold | hnew
    · exact hspared hold
    · exact absurd (List.getElem?_eq_some_iff.1 hcaller).1 (Nat.not_lt.2 hnew)
  rw [hcomponents _ hne]
  exact (List.getElem?_set_ne hne.symm).symm

namespace Pattern

variable {volley : Volley} {emitter direction : Group} {distance : Float} {s s' : Firing}

theorem fired_of_launch (hctx : ctx.BasesIntact) (hcaller : ctx.components[caller]? = some c₀)
    (htemplate : ctx.components[template]? = some c)
    (h : launch caller time template volley ctx = (.ok (), ctx')) :
    ∃ b bursts added,
      Context.Fired ctx ctx' caller c₀ c.caller volley.assignments b bursts added := by
  obtain ⟨_, ctx₁, hwarn, hfire⟩ := bind_eq_ok.1 h
  obtain ⟨-, hcomponents, hbases, hwarned⟩ := Context.evolves_of_warn? (A := fun _ => True) hwarn
  have hconfig : ctx₁.config = ctx.config := hwarned.extension.config
  have hctx₁ : ctx₁.BasesIntact := by
    intro b hb
    rw [hbases] at hb
    exact (hctx b hb).frame hconfig fun _ _ => by rw [hcomponents]
  obtain ⟨b, bursts, added, hfired⟩ :=
    hctx₁.fired (hcomponents ▸ hcaller) (hcomponents ▸ htemplate) hfire
  refine ⟨b, bursts, added, ?_⟩
  exact { hfired with
    config := hfired.config.trans hconfig
    places := by
      intro base hbase
      have hplace := hfired.places base hbase
      rwa [Context.IsBase, hbases, hcomponents] at hplace }

/-- The motion of a bullet, as a move has it. -/
def motion (direction : Group) (distance : Float) (bullet : Group) (duration : Float) : Effect :=
  .moveTowards bullet direction distance (Tween.linear duration) false

/-- Moves are appended in the order of the bullets. -/
theorem moveBullets_eq_ok {moves : List (Assignment × Float)}
    (hcaller : ctx.components[caller]? = some c₀)
    (h : moveBullets caller time direction distance moves ctx = (.ok (), ctx')) :
    ∃ rs : List Record,
      rs.map Record.effect = moves.map (fun m => motion direction distance m.1.bullet m.2) ∧
      ctx'.components[caller]? = some { c₀ with records := c₀.records ++ rs } ∧
      (∀ j, j ≠ caller → ctx'.components[j]? = ctx.components[j]?) ∧
      ctx'.config = ctx.config ∧ ctx'.bases = ctx.bases := by
  obtain ⟨rs, warnings, journal, hrs, rfl⟩ := Context.each_perform_eq_ok
    (f := fun m : Assignment × Float =>
      .moveTowards m.1.bullet direction distance (Tween.linear m.2) false) hcaller h
  have heffects : rs.map Record.effect =
      moves.map fun m => motion direction distance m.1.bullet m.2 := by
    rw [← List.forall₂_eq_eq_eq, List.forall₂_map_left_iff, List.forall₂_map_right_iff]
    exact hrs.flip.imp fun _ _ ⟨_, he⟩ => Action.effect_moveTowards he
  exact ⟨rs, heffects, List.getElem?_set_self (List.getElem?_eq_some_iff.1 hcaller).1,
    fun j hj => List.getElem?_set_ne hj.symm, rfl, rfl⟩

theorem line_eq_ok {line : Line}
    (h : Pattern.line caller time template emitter direction line s = (.ok (), s')) :
    ∃ c₀ volley durations ctx₁, s.context.components[caller]? = some c₀ ∧
      AimedLine s.context s.pool time template emitter direction line.bullets volley ∧
      Line.durations line.fastest line.slowest line.bullets = .ok durations ∧
      launch caller time template volley s.context = (.ok (), ctx₁) ∧
      moveBullets caller time direction line.distance (volley.assignments.zip durations) ctx₁ =
        (.ok (), s'.context) := by
  rw [line_eq_shoot, Firing.shoot_eq_ok] at h
  obtain ⟨⟨volley, durations⟩, haim, hbody, -⟩ := h
  obtain ⟨c₀, hcaller, haim⟩ := Except.bind_eq_ok.1 haim
  obtain ⟨haimed, hdurations⟩ := aimLine_eq_ok haim
  obtain ⟨_, ctx₁, hlaunch, hmoves⟩ := bind_eq_ok.1 hbody
  exact ⟨c₀, volley, durations, ctx₁, Context.component_eq_ok.1 (Except.mapError_eq_ok.1 hcaller),
    haimed, hdurations, hlaunch, hmoves⟩

theorem assignments_of_realizes {config : Config} {shots : List Shot}
    (h : List.Forall₂ (Shot.Realizes config g) shots as) : shots.map Shot.assignment = as := by
  rw [← List.forall₂_eq_eq_eq, List.forall₂_map_left_iff]
  exact h.imp fun _ _ hshot => hshot.assignment

/-- The moves of assignments are those of the bullets in the shots that realize them. -/
theorem motions_of_realizes {config : Config} {shots : List Shot} {durations : List Float}
    (h : List.Forall₂ (Shot.Realizes config g) shots as) :
    ((as.zip durations).map fun m => motion direction distance m.1.bullet m.2) =
      List.zipWith (fun shot => motion direction distance (shot.place Group.bullet)) shots
        durations := by
  rw [← assignments_of_realizes h, List.zip, List.map_zipWith, List.zipWith_map_left]
  rfl

end Pattern

end Instant

/-! ## Timed lines -/

/-- The record spawns the template with an assignment in the place of its
placeholders. -/
structure Record.Runs (template : Group) (a : Assignment) (r : Record) : Prop where
  spawn : r.isSpawn
  target : r.shownTarget? = some template
  remap : ∃ t, r.shownRemap? = some t ∧ t.resolve Group.bullet = a.bullet ∧
    t.resolve Group.target = a.target ∧ t.resolve Group.emitter = a.emitter ∧
    t.resolve Group.auxiliary = a.collision

section Timed

variable {ctx ctx' : Context} {caller template : Nat} {time : Float} {c₀ : Component}
  {emitter direction g : Group} {line : TimedLine} {a : Assignment}

/-- Pairs that change nothing are left out of the text and resolve to themselves. -/
theorem Record.runs_of_effect {r : Record} (ha : a.Fits) (hne : a.remap.cleaned.pairs ≠ [])
    (h : r.effect = .spawn g true none (some a.remap.cleaned)) : r.Runs g a := by
  have hfits : a.remap.Fits := Remap.fits_iff.2 (Assignment.fits_placeholders.pairs ha)
  have hresolve : Assignment.placeholders.map a.remap.resolve = a :=
    Assignment.map_resolve fun _ hp => hp
  have hspawn : r.isSpawn := by
    rw [isSpawn, h]
    rfl
  refine ⟨hspawn, shownTarget?_of_spawn h, _, shownRemap?_of_spawn h hne hfits.cleaned, ?_⟩
  simp only [Remap.resolve_cleaned]
  exact ⟨congrArg Assignment.bullet hresolve, congrArg Assignment.target hresolve,
    congrArg Assignment.emitter hresolve, congrArg Assignment.collision hresolve⟩

namespace Pattern

/-- The two records of a bullet: the template is run for it, and it is moved. -/
structure RunAndMove (template direction : Group) (line : TimedLine) (a : Assignment)
    (pair : Record × Record) : Prop where
  run : pair.1.Runs template a
  move : pair.2.effect = motion direction line.distance a.bullet line.duration

/-- A bullet of a timed line takes two records. -/
theorem timedShot_eq_ok (hcaller : ctx.components[caller]? = some c₀)
    (htemplate : ctx.components[template]?.map Component.caller = some g) (ha : a.Fits)
    (h : timedShot caller time template direction line a ctx = (.ok (), ctx')) :
    ∃ pair, RunAndMove g direction line a pair ∧
      ctx'.components = ctx.components.set caller ((c₀.push pair.1).push pair.2) := by
  obtain ⟨c, hc, rfl⟩ := Option.map_eq_some_iff.1 htemplate
  have hlt : caller < ctx.components.length := (List.getElem?_eq_some_iff.1 hcaller).1
  obtain ⟨_, ctx₁, hspawn, hmove⟩ := bind_eq_ok.1 h
  obtain ⟨_, r, hc₀, hr, -, hcomponents, -, -⟩ := Context.components_of_perform hspawn
  cases hcaller.symm.trans hc₀
  have hcaller₁ : ctx₁.components[caller]? = some (c₀.push r) := by
    rw [hcomponents]
    exact List.getElem?_set_self hlt
  obtain ⟨_, r', hc₁, hr', -, hcomponents', -, -⟩ := Context.components_of_perform hmove
  cases hcaller₁.symm.trans hc₁
  rw [Action.effect_spawn_component hc] at hr
  obtain ⟨hne, hr⟩ := (Action.effect_spawn_table (List.cons_ne_nil _ _)).1 hr
  refine ⟨(r, r'), ⟨Record.runs_of_effect ha hne hr.symm, Action.effect_moveTowards hr'⟩, ?_⟩
  rw [hcomponents', hcomponents, List.set_set]

/-- The records of pairs, one pair after the other. -/
def alternate (pairs : List (Record × Record)) : List Record := pairs.flatMap fun p => [p.1, p.2]

theorem timedShots_eq_ok {shots : List (Assignment × Nat)}
    (hcaller : ctx.components[caller]? = some c₀)
    (htemplate : ctx.components[template]?.map Component.caller = some g)
    (hfits : ∀ shot ∈ shots, shot.1.Fits)
    (h : timedShots caller time template direction line shots ctx = (.ok (), ctx')) :
    ∃ pairs, List.Forall₂ (fun shot pair => RunAndMove g direction line shot.1 pair) shots pairs ∧
      ctx'.components[caller]? = some { c₀ with records := c₀.records ++ alternate pairs } := by
  induction shots generalizing ctx c₀ with
  | nil =>
      cases h
      exact ⟨[], .nil, by simpa [alternate] using hcaller⟩
  | cons shot shots ih =>
      obtain ⟨ctx₁, hfirst, hrest⟩ := each_cons_eq_ok.1 h
      obtain ⟨hshot, hshots⟩ := List.forall_mem_cons.1 hfits
      obtain ⟨pair, hpair, hcomponents⟩ := timedShot_eq_ok hcaller htemplate hshot hfirst
      have hlt : caller < ctx.components.length := (List.getElem?_eq_some_iff.1 hcaller).1
      have hcaller₁ : ctx₁.components[caller]? = some ((c₀.push pair.1).push pair.2) := by
        rw [hcomponents]
        exact List.getElem?_set_self hlt
      -- The template keeps its group, even if it is the caller.
      have htemplate₁ : ctx₁.components[template]?.map Component.caller = some g := by
        by_cases hsame : caller = template
        · subst hsame
          rw [hcaller] at htemplate
          rw [hcaller₁]
          exact htemplate
        · rwa [hcomponents, List.getElem?_set_ne hsame]
      obtain ⟨pairs, hpairs, hadded⟩ := ih hcaller₁ htemplate₁ hshots hrest
      refine ⟨pair :: pairs, .cons hpair hpairs, hadded.trans ?_⟩
      simp [Component.push, alternate]

theorem length_alternate (pairs : List (Record × Record)) :
    (alternate pairs).length = 2 * pairs.length := by
  induction pairs with
  | nil => rfl
  | cons pair pairs ih =>
      rw [alternate, List.flatMap_cons, List.length_append, ← alternate, ih, List.length_cons,
        List.length_cons, List.length_cons, List.length_nil]
      omega

theorem timedLine_eq_ok {s s' : Firing}
    (h : Pattern.timedLine caller time template emitter direction line s = (.ok (), s')) :
    ∃ c₀ volley ctx₁, s.context.components[caller]? = some c₀ ∧
      AimedLine s.context s.pool time template emitter direction line.bullets volley ∧
      ctx₁.components = s.context.components ∧
      timedShots caller time template direction line volley.assignments.zipIdx ctx₁ =
        (.ok (), s'.context) := by
  rw [timedLine_eq_shoot, Firing.shoot_eq_ok] at h
  obtain ⟨volley, haim, hbody, -⟩ := h
  obtain ⟨c₀, hcaller, haim⟩ := Except.bind_eq_ok.1 haim
  obtain ⟨_, ctx₁, hwarn, hshots⟩ := bind_eq_ok.1 hbody
  obtain ⟨-, hcomponents, -⟩ := Context.evolves_of_warn? (A := fun _ => True) hwarn
  exact ⟨c₀, volley, ctx₁, Context.component_eq_ok.1 (Except.mapError_eq_ok.1 hcaller),
    (aimTimedLine_eq_ok haim).1, hcomponents, hshots⟩

end Pattern

end Timed

/-! ## Both kinds of lines -/

/-- Lines move the bullets that they spawn.

A line of one moment appends bursts and then one move per bullet.  The bursts expand to
the template, once per bullet in the order of drawing, and the move `i` moves the bullet
of the shot `i` in the direction, with the travel time `i`.

A timed line appends a spawn and a move per bullet, in turn.  The spawn runs the template
with the groups of the bullet, and the move moves that bullet. -/
theorem Pattern.line_moves {caller template : Nat} {time : Float} {emitter direction : Group}
    {s s' : Firing} (hfits : s.context.Fits) :
    (∀ line, Untouched s.context → ¬ s.context.IsBase caller →
      Pattern.line caller time template emitter direction line s = (.ok (), s') →
      ∃ c₀ c bursts moves shots durations, s.context.components[caller]? = some c₀ ∧
        s.context.components[template]? = some c ∧
        s'.context.components[caller]? =
          some { c₀ with records := c₀.records ++ (bursts ++ moves) } ∧
        (∀ r ∈ bursts, r.isSpawn) ∧ moves.length = line.bullets ∧
        s'.context.expandAll? bursts = some shots ∧
        List.Forall₂ (Shot.Realizes s.context.config c.caller) shots
          (lineAssignments emitter direction (s.pool.take line.bullets).1) ∧
        Line.durations line.fastest line.slowest line.bullets = .ok durations ∧
        moves.map Record.effect = List.zipWith
          (fun shot => motion direction line.distance (shot.place Group.bullet)) shots durations) ∧
    ∀ line, Pattern.timedLine caller time template emitter direction line s = (.ok (), s') →
      ∃ c₀ c pairs, s.context.components[caller]? = some c₀ ∧
        s.context.components[template]? = some c ∧
        s'.context.components[caller]? =
          some { c₀ with records := c₀.records ++ alternate pairs } ∧
        (alternate pairs).length = 2 * line.bullets ∧
        List.Forall₂ (RunAndMove c.caller direction line)
          (lineAssignments emitter direction (s.pool.take line.bullets).1) pairs := by
  constructor
  · intro line hctx hspared h
    obtain ⟨c₀, volley, durations, ctx₁, hcaller, haimed, hdurations, hlaunch, hmoves⟩ :=
      line_eq_ok h
    obtain ⟨c, htemplate⟩ := haimed.known
    obtain ⟨b, bursts, added, hfired⟩ := fired_of_launch hctx.intact hcaller htemplate hlaunch
    obtain ⟨moves, heffects, hadded, hothers, hconfig, hbases⟩ :=
      moveBullets_eq_ok hfired.appended hmoves
    have hconfig' : s'.context.config = s.context.config := hconfig.trans hfired.config
    obtain ⟨shots, hshots, hrealizes⟩ := hfired.delivers hfits hctx.regular.accepted
      (hfits.callers c (List.mem_of_getElem? htemplate)) (haimed.fits hfits)
      (hbases.trans hfired.bases) hconfig' (hfired.intact_of_set hcaller hspared hconfig hothers)
    have hlength : moves.length = line.bullets := by
      have := congrArg List.length heffects
      simpa [haimed.length, Line.length_durations hdurations] using this
    rw [hconfig'] at hrealizes
    rw [motions_of_realizes hrealizes] at heffects
    rw [haimed.assignments] at hrealizes
    rw [List.append_assoc] at hadded
    exact ⟨c₀, c, added, moves, shots, durations, hcaller, htemplate, hadded,
      Burst.isSpawn_of_emits hfired.emitted, hlength, hshots, hrealizes, hdurations, heffects⟩
  · intro line h
    obtain ⟨c₀, volley, ctx₁, hcaller, haimed, hcomponents, hshots⟩ := timedLine_eq_ok h
    obtain ⟨c, htemplate⟩ := haimed.known
    have hvolley : ∀ shot ∈ volley.assignments.zipIdx, shot.1.Fits := fun shot hshot =>
      haimed.fits hfits shot.1 (List.fst_mem_of_mem_zipIdx hshot)
    obtain ⟨pairs, hpairs, hadded⟩ := timedShots_eq_ok (g := c.caller) (hcomponents ▸ hcaller)
      (by rw [hcomponents, htemplate]; rfl) hvolley hshots
    have hpairs : List.Forall₂ (RunAndMove c.caller direction line) volley.assignments pairs := by
      rwa [← List.zipIdx_map_fst 0 volley.assignments, List.forall₂_map_left_iff]
    refine ⟨c₀, c, pairs, hcaller, htemplate, hadded, ?_, haimed.assignments ▸ hpairs⟩
    rw [length_alternate, ← hpairs.length_eq, haimed.length]

/-- A caller and a template for lines, with three bullets of which the next one is the
placeholder for bullets. -/
def threeBullets : Firing :=
  { placeholderLine with pool := { cycler := ⟨9, 11, 10, by decide, by decide⟩ } }

/-- More bullets than there are in the pool. -/
def fiveSpeeds : Line where
  bullets := 5
  fastest := 1.0
  slowest := 3.0
  distance := 480.0

theorem untouched_placeholderLine : Untouched placeholderLine.context := by
  unfold placeholderLine
  dsimp only [Call.runAll, List.foldl]
  have hconfig : Context.withConfig { tiers := 2, reserved := [] } =
      .ok (Context.ofConfig { tiers := 2, reserved := [] }) :=
    Context.withConfig_eq_ok.2 ⟨by decide, rfl⟩
  refine .call _ (.call _ (.call _ (.call _ (.call _ (.withConfig hconfig) ?_) ?_) ?_) ?_) ?_
  all_goals decide +kernel

theorem Pattern.line_moves_threeBullets :
    (∃ s' bursts moves shots durations,
      Pattern.line 0 0.0 1 Group.emitter Group.target fiveSpeeds threeBullets = (.ok (), s') ∧
        s'.context.components[0]?.map Component.records = some (bursts ++ moves) ∧
        s'.context.expandAll? bursts = some shots ∧ moves.length = 5 ∧
        shots.map Shot.assignment =
          [⟨10, 20, 21, 13⟩, ⟨11, 20, 21, 14⟩, ⟨9, 20, 21, 12⟩, ⟨10, 20, 21, 13⟩, ⟨11, 20, 21, 14⟩] ∧
        moves.map Record.effect = List.zipWith
          (fun shot => motion Group.target 480.0 (shot.place Group.bullet)) shots durations) ∧
    ∃ s' pairs,
      Pattern.timedLine 0 0.0 1 Group.emitter Group.target twoShots threeBullets = (.ok (), s') ∧
        s'.context.components[0]?.map Component.records = some (alternate pairs) ∧
        List.Forall₂ (RunAndMove 37 Group.target twoShots) [⟨10, 20, 21, 13⟩, ⟨11, 20, 21, 14⟩]
          pairs := by
  have hfits : threeBullets.context.Fits := by
    refine ⟨?_, ?_, ?_⟩
    all_goals decide +kernel
  have hctx : Untouched threeBullets.context := by
    unfold threeBullets
    dsimp only
    exact untouched_placeholderLine
  have hempty : threeBullets.context.components[0]?.map Component.records = some [] := by
    decide +kernel
  have htemplate : threeBullets.context.components[1]?.map Component.caller = some 37 := by
    decide +kernel
  constructor
  · have hok : (Pattern.line 0 0.0 1 Group.emitter Group.target fiveSpeeds threeBullets).1.isOk := by
      decide +kernel
    obtain ⟨_, s', hrun⟩ := eq_ok_of_isOk hok
    obtain ⟨c₀, c, bursts, moves, shots, durations, hc₀, -, hadded, -, hlength, hshots, hrealizes, -,
      heffects⟩ := (line_moves hfits).1 fiveSpeeds hctx (by decide +kernel) hrun
    rw [hc₀] at hempty
    refine ⟨s', bursts, moves, shots, durations, hrun, ?_, hshots, hlength, ?_, heffects⟩
    · rw [hadded, Option.map_some, Option.some_inj.1 hempty, List.nil_append]
    · exact assignments_of_realizes hrealizes
  · have hok : (Pattern.timedLine 0 0.0 1 Group.emitter Group.target twoShots
        threeBullets).1.isOk := by decide +kernel
    obtain ⟨_, s', hrun⟩ := eq_ok_of_isOk hok
    obtain ⟨c₀, c, pairs, hc₀, hc, hadded, -, hpairs⟩ := (line_moves hfits).2 twoShots hrun
    rw [hc₀] at hempty
    rw [hc] at htemplate
    refine ⟨s', pairs, hrun, ?_, Option.some_inj.1 htemplate ▸ hpairs⟩
    rw [hadded, Option.map_some, Option.some_inj.1 hempty, List.nil_append]

end Barrage
