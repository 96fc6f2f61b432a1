import Mathlib.Logic.Function.Iterate
import Barrage.Proofs.Pattern.Opening

/-!
# Patterns of one volley

All patterns but radial waves aim once and then shoot (`Firing.shoot`): they check
their arguments and draw their bullets from a copy of the pool, they work on the
context, and at the end they put the pool where the copy is.  So the pool moves only
with success, and then by one bullet per assignment (`PatternCall.atomic`).

The records of an arc or a radial are the bursts of one firing, and a firing is all
or nothing for any template but one that runs on the group that is the placeholder
for templates (`Context.evolves_of_fire_error`).
-/

namespace Barrage

open Build

/-! ## Shooting -/

namespace Firing

variable {α : Type} {aim : Firing → Except BuildError α} {body : α → Build Context Unit}
  {pool : α → Pool} {s s' : Firing}

/-- Aims, works on the context, and then puts the pool at another place. -/
def shoot (aim : Firing → Except BuildError α) (body : α → Build Context Unit)
    (pool : α → Pool) : Build Firing Unit := do
  let a ← Build.check aim
  onContext (body a)
  setPool (pool a)

theorem shoot_eq_ok : shoot aim body pool s = (.ok (), s') ↔
    ∃ a, aim s = .ok a ∧ body a s.context = (.ok (), s'.context) ∧ s'.pool = pool a := by
  simp only [shoot, bind_eq_ok, check_eq_ok, onContext_eq]
  constructor
  · rintro ⟨a, _, ⟨ha, rfl⟩, _, s₁, ⟨hbody, -⟩, hpool⟩
    cases hpool
    exact ⟨a, ha, hbody, rfl⟩
  · rintro ⟨a, ha, hbody, hpool⟩
    refine ⟨a, s, ⟨ha, rfl⟩, (), ⟨s'.context, s.pool⟩, ⟨hbody, rfl⟩, ?_⟩
    rw [setPool, ← hpool]

theorem shoot_eq_error {e : BuildError} : shoot aim body pool s = (.error e, s') ↔
    (aim s = .error e ∧ s' = s) ∨
      ∃ a, aim s = .ok a ∧ body a s.context = (.error e, s'.context) ∧ s'.pool = s.pool := by
  simp only [shoot, bind_eq_error, check_eq_error, check_eq_ok, onContext_eq]
  constructor
  · rintro (⟨haim, rfl⟩ | ⟨a, _, ⟨ha, rfl⟩, ⟨hbody, hpool⟩ | ⟨_, _, -, hset⟩⟩)
    · exact Or.inl ⟨haim, rfl⟩
    · exact Or.inr ⟨a, ha, hbody, hpool⟩
    · cases hset
  · rintro (⟨haim, rfl⟩ | ⟨a, ha, hbody, hpool⟩)
    · exact Or.inl ⟨haim, rfl⟩
    · exact Or.inr ⟨a, s, ⟨ha, rfl⟩, Or.inl ⟨hbody, hpool⟩⟩

/-- A shot leaves the context as it is, or the context is that of its body. -/
theorem shoot_context :
    (shoot aim body pool s).2.context = s.context ∨
      ∃ a, aim s = .ok a ∧ (shoot aim body pool s).2.context = (body a s.context).2 := by
  cases haim : aim s with
  | error e =>
      rw [shoot_eq_error.2 (Or.inl ⟨haim, rfl⟩)]
      exact Or.inl rfl
  | ok a =>
      refine Or.inr ⟨a, rfl, ?_⟩
      rcases hbody : body a s.context with ⟨e | _, ctx'⟩
      · have hshoot : shoot aim body pool s = (.error e, ⟨ctx', s.pool⟩) :=
          shoot_eq_error.2 (Or.inr ⟨a, haim, hbody, rfl⟩)
        rw [hshoot]
      · have hshoot : shoot aim body pool s = (.ok (), ⟨ctx', pool a⟩) :=
          shoot_eq_ok.2 ⟨a, haim, hbody, rfl⟩
        rw [hshoot]

end Firing

/-! ## Drawing -/

theorem Radial.bullets_of_toArc {r : Radial} {arc : Arc} (h : r.toArc = .ok arc) :
    ∃ s, r.division = .ok (arc.bullets, s) := by
  simp only [toArc, Except.bind_eq_ok] at h
  obtain ⟨⟨n, s⟩, hdivision, h⟩ := h
  rw [← Except.pure_eq_ok.1 h]
  exact ⟨s, hdivision⟩

theorem Line.durations_eq_ok {fastest slowest : Float} {bullets : Nat} {durations : List Float}
    (h : Line.durations fastest slowest bullets = .ok durations) :
    0.0 < fastest ∧ fastest < slowest ∧ 3 ≤ bullets ∧
      durations = (List.range bullets).map fun i =>
        fastest + (slowest - fastest) / Float.ofNat (bullets - 1) * Float.ofNat i := by
  simp only [Line.durations, Except.guard_eq_ok, not_not, Except.pure_eq_ok] at h
  obtain ⟨hfastest, hslowest, hbullets, rfl⟩ := h
  exact ⟨hfastest, hslowest, Nat.not_lt.1 hbullets, rfl⟩

theorem Line.length_durations {fastest slowest : Float} {bullets : Nat} {durations : List Float}
    (h : Line.durations fastest slowest bullets = .ok durations) : durations.length = bullets := by
  rw [(Line.durations_eq_ok h).2.2.2, List.length_map, List.length_range]

namespace Pattern

variable {caller template : Nat} {time : Float} {circle : Circle} {emitter direction : Group}
  {ctx : Context} {pool : Pool} {volley : Volley}

theorem aimArc_draws {arc : Arc} (h : aimArc ctx pool time template circle arc = .ok volley) :
    volley.assignments.length = arc.bullets ∧ volley.pool = (pool.take arc.bullets).2 := by
  simp only [aimArc, liftM, monadLift, MonadLift.monadLift, Except.bind_eq_ok,
    Except.mapError_eq_ok, Except.pure_eq_ok] at h
  obtain ⟨_, -, _, -, placed, hplaced, _, -, _, -, rfl⟩ := h
  rw [Arc.length_angles hplaced]
  simp [arcAssignments, Pool.length_take, Arc.length_angles hplaced]

/-- What is known of a line of `n` bullets when its volley is ready. -/
structure AimedLine (ctx : Context) (pool : Pool) (time : Float) (template : Nat)
    (emitter direction : Group) (n : Nat) (volley : Volley) : Prop where
  moment : Schedule.nonNegative .time time = .ok ()
  known : ∃ c, ctx.components[template]? = some c
  source : ctx.Valid emitter
  toward : ctx.Valid direction
  assignments : volley.assignments = lineAssignments emitter direction (pool.take n).1
  shots : ∀ shot ∈ (pool.take n).1, ctx.Valid shot.1 ∧ ctx.Valid shot.2
  drawn : volley.pool = (pool.take n).2

theorem AimedLine.length {n : Nat}
    (h : AimedLine ctx pool time template emitter direction n volley) :
    volley.assignments.length = n := by
  rw [h.assignments, lineAssignments, List.length_map, Pool.length_take]

theorem checkShots_eq_ok {shots : List (Group × Group)} :
    checkShots ctx shots = .ok () ↔ ∀ shot ∈ shots, ctx.Valid shot.1 ∧ ctx.Valid shot.2 := by
  simp only [checkShots, Context.validateGroups_eq_ok, List.mem_flatMap, List.mem_cons,
    List.not_mem_nil, or_false]
  constructor
  · exact fun h shot hshot => ⟨h _ ⟨shot, hshot, Or.inl rfl⟩, h _ ⟨shot, hshot, Or.inr rfl⟩⟩
  · rintro h g ⟨shot, hshot, rfl | rfl⟩
    · exact (h shot hshot).1
    · exact (h shot hshot).2

theorem aimLine_eq_ok {line : Line} {durations : List Float}
    (h : aimLine ctx pool time template emitter direction line = .ok (volley, durations)) :
    AimedLine ctx pool time template emitter direction line.bullets volley ∧
      Line.durations line.fastest line.slowest line.bullets = .ok durations := by
  simp only [aimLine, liftM, monadLift, MonadLift.monadLift, Except.bind_eq_ok,
    Except.mapError_eq_ok, Except.pure_eq_ok, Prod.mk.injEq] at h
  obtain ⟨_, htime, c, htemplate, durations, hdurations, _, hemitter, _, hdirection, _, hshots, rfl,
    rfl⟩ := h
  have hlength := Line.length_durations hdurations
  rw [hlength, checkShots_eq_ok] at hshots
  exact ⟨⟨htime, ⟨c, Context.enforceTemplate_eq_ok htemplate⟩, hemitter, hdirection,
    by rw [hlength], hshots, by rw [hlength]⟩, hdurations⟩

theorem aimTimedLine_eq_ok {line : TimedLine}
    (h : aimTimedLine ctx pool time template emitter direction line = .ok volley) :
    AimedLine ctx pool time template emitter direction line.bullets volley ∧ 2 ≤ line.bullets ∧
      0.0 ≤ line.gap ∧ (Tween.linear line.duration).validate = .ok () := by
  simp only [aimTimedLine, liftM, monadLift, MonadLift.monadLift, Except.bind_eq_ok,
    Except.guard_eq_ok, Except.mapError_eq_ok, Except.pure_eq_ok, not_not] at h
  obtain ⟨hbullets, hgap, _, htime, _, htween, c, htemplate, _, hemitter, _, hdirection, _, hshots,
    rfl⟩ := h
  exact ⟨⟨htime, ⟨c, Context.enforceTemplate_eq_ok htemplate⟩, hemitter, hdirection, rfl,
    checkShots_eq_ok.1 hshots, rfl⟩, Nat.not_lt.1 hbullets, hgap, htween⟩

/-! ## Patterns are shots -/

/-- Gives the warning of a volley and fires it. -/
def launch (caller : Nat) (time : Float) (template : Nat) (volley : Volley) :
    Build Context Unit := do
  Context.warn? volley.warning
  Context.fire caller time template volley.assignments

/-- Moves the bullets of a line. -/
def moveBullets (caller : Nat) (time : Float) (direction : Group) (distance : Float)
    (moves : List (Assignment × Float)) : Build Context Unit :=
  Build.each (fun (a, duration) => moveBullet caller time direction distance a.bullet duration) moves

/-- The shots of a timed line. -/
def timedShots (caller : Nat) (time : Float) (template : Nat) (direction : Group)
    (line : TimedLine) (as : List (Assignment × Nat)) : Build Context Unit :=
  Build.each
    (fun (a, k) => timedShot caller (time + Float.ofNat k * line.gap) template direction line a) as

theorem arc_eq_shoot (arc : Arc) : Pattern.arc caller time template circle arc =
    Firing.shoot
      (fun s => do
        let _ ← s.context.component caller
        aimArc s.context s.pool time template circle arc)
      (launch caller time template) Volley.pool := by
  simp only [Pattern.arc, Firing.shoot, launch, Firing.onContext_bind, bind_assoc]

theorem line_eq_shoot (line : Line) : Pattern.line caller time template emitter direction line =
    Firing.shoot
      (fun s => do
        let _ ← s.context.component caller
        aimLine s.context s.pool time template emitter direction line)
      (fun (volley, durations) => do
        launch caller time template volley
        moveBullets caller time direction line.distance (volley.assignments.zip durations))
      (fun aimed => aimed.1.pool) := by
  simp only [Pattern.line, Firing.shoot, launch, moveBullets, Firing.onContext_bind, bind_assoc]

theorem timedLine_eq_shoot (line : TimedLine) :
    Pattern.timedLine caller time template emitter direction line =
      Firing.shoot
        (fun s => do
          let _ ← s.context.component caller
          aimTimedLine s.context s.pool time template emitter direction line)
        (fun volley => do
          Context.warn? volley.warning
          timedShots caller time template direction line volley.assignments.zipIdx)
        Volley.pool := by
  simp only [Pattern.timedLine, Firing.shoot, timedShots, Firing.onContext_bind, bind_assoc]

end Pattern

/-! ## All or nothing -/

/-- An ordinary template that is not fired edits new components only. -/
theorem Context.evolves_of_fire_error {caller template : Nat} {time : Float}
    {as : List Assignment} {ctx ctx' : Context} {e : BuildError} {c : Component}
    (h : fire caller time template as ctx = (.error e, ctx')) (hctx : ctx.Regular) (has : as ≠ [])
    (hc : ctx.components[template]? = some c) (hne : c.caller ≠ Group.template) :
    Evolves (fun j => ctx.components.length ≤ j) ctx ctx' := by
  rw [fire_eq_openFire, bind_eq_error] at h
  rcases h with h | ⟨rest, ctx₁, hopen, h⟩
  · exact openFire_eq_error h
  · obtain ⟨ctx₂, hrest⟩ := each_emitBurst_of_openFire hopen hctx has hc hne
    cases hrest.symm.trans h

namespace Pattern

variable {caller template : Nat} {time : Float} {circle : Circle} {s s' : Firing} {e : BuildError}

theorem evolves_of_launch_error {volley : Volley} {ctx ctx' : Context} {c : Component}
    (h : launch caller time template volley ctx = (.error e, ctx')) (hctx : ctx.Regular)
    (has : volley.assignments ≠ []) (hc : ctx.components[template]? = some c)
    (hne : c.caller ≠ Group.template) :
    Evolves (fun j => ctx.components.length ≤ j) ctx ctx' := by
  rcases bind_eq_error.1 h with h | ⟨_, ctx₁, hwarn, h⟩
  · cases (Context.evolves_of_warn? (A := fun _ => True) h).1
  · obtain ⟨-, hcomponents, hbases, hwarned⟩ :=
      Context.evolves_of_warn? (A := fun j => ctx.components.length ≤ j) hwarn
    have hregular : ctx₁.Regular := hctx.evolves hbases hwarned
    have hfire := Context.evolves_of_fire_error h hregular has (hcomponents ▸ hc) hne
    rw [hcomponents] at hfire
    exact hwarned.trans hfire

theorem unchanged_of_arc_error {arc : Arc}
    (h : Pattern.arc caller time template circle arc s = (.error e, s')) (hctx : s.context.Regular)
    (hne : ∀ c, s.context.components[template]? = some c → c.caller ≠ Group.template) :
    s.Unchanged s' := by
  rw [arc_eq_shoot, Firing.shoot_eq_error] at h
  rcases h with ⟨-, rfl⟩ | ⟨volley, haim, hlaunch, hpool⟩
  · exact .of_evolves (.refl _) rfl
  · obtain ⟨_, -, haim⟩ := Except.bind_eq_ok.1 haim
    obtain ⟨has, c, hc⟩ := aimArc_eq_ok haim
    exact .of_evolves (evolves_of_launch_error hlaunch hctx has hc (hne c hc)) hpool

theorem radial_eq_ok {r : Radial} (h : radial caller time template circle r s = (.ok (), s')) :
    ∃ arc, r.toArc = .ok arc ∧ Pattern.arc caller time template circle arc s = (.ok (), s') := by
  obtain ⟨arc, s₁, hcheck, h⟩ := bind_eq_ok.1 h
  obtain ⟨harc, rfl⟩ := check_eq_ok.1 hcheck
  obtain ⟨_, -, harc⟩ := Except.bind_eq_ok.1 harc
  exact ⟨arc, Except.mapError_eq_ok.1 harc, h⟩

theorem radial_eq_error {r : Radial} (h : radial caller time template circle r s = (.error e, s')) :
    s' = s ∨ ∃ arc, Pattern.arc caller time template circle arc s = (.error e, s') := by
  rcases bind_eq_error.1 h with h | ⟨arc, s₁, hcheck, h⟩
  · exact Or.inl (check_eq_error.1 h).2.symm
  · obtain ⟨-, rfl⟩ := check_eq_ok.1 hcheck
    exact Or.inr ⟨arc, h⟩

/-- A radial is all or nothing where arcs are. -/
theorem unchanged_of_radial_error {r : Radial}
    (h : radial caller time template circle r s = (.error e, s')) (hctx : s.context.Regular)
    (hne : ∀ c, s.context.components[template]? = some c → c.caller ≠ Group.template) :
    s.Unchanged s' := by
  rcases radial_eq_error h with rfl | ⟨arc, h⟩
  · exact .of_evolves (.refl _) rfl
  · exact unchanged_of_arc_error h hctx hne

end Pattern

/-! ## Pools -/

theorem Firing.pool_of_shoot_error {α : Type} {aim : Firing → Except BuildError α}
    {body : α → Build Context Unit} {pool : α → Pool} {s s' : Firing} {e : BuildError}
    (h : shoot aim body pool s = (.error e, s')) : s'.pool = s.pool := by
  rcases shoot_eq_error.1 h with ⟨-, rfl⟩ | ⟨_, -, -, hpool⟩
  · rfl
  · exact hpool

namespace PatternCall

/-- The component that a pattern fires. -/
def template : PatternCall → Nat
  | .arc _ template _ _ => template
  | .radial _ template _ _ => template
  | .line _ template _ _ _ => template
  | .radialWave _ template _ _ => template
  | .timedLine _ template _ _ _ => template

/-- The pattern has one volley. -/
def Single : PatternCall → Prop
  | .radialWave .. => False
  | _ => True

/-- The pattern has one volley and aims at anchors of a circle. -/
def OnCircle : PatternCall → Prop
  | .arc .. => True
  | .radial .. => True
  | _ => False

/-- The number of bullets of a pattern of one volley. -/
def bullets? : PatternCall → Option Nat
  | .arc _ _ _ a => some a.bullets
  | .radial _ _ _ r => r.division.toOption.map Prod.fst
  | .line _ _ _ _ l => some l.bullets
  | .radialWave .. => none
  | .timedLine _ _ _ _ l => some l.bullets

variable {p : PatternCall} {caller : Nat} {s s' : Firing} {e : BuildError}

theorem pool_of_error (hp : p.Single) (h : p.run caller s = (.error e, s')) :
    s'.pool = s.pool := by
  cases p with
  | arc time template circle arc =>
      rw [run, Pattern.arc_eq_shoot] at h
      exact Firing.pool_of_shoot_error h
  | radial time template circle radial =>
      rcases Pattern.radial_eq_error h with rfl | ⟨arc, h⟩
      · rfl
      · rw [Pattern.arc_eq_shoot] at h
        exact Firing.pool_of_shoot_error h
  | line time template emitter direction line =>
      rw [run, Pattern.line_eq_shoot] at h
      exact Firing.pool_of_shoot_error h
  | radialWave time template circle wave => cases hp
  | timedLine time template emitter direction line =>
      rw [run, Pattern.timedLine_eq_shoot] at h
      exact Firing.pool_of_shoot_error h

/-- A pattern that succeeds has drawn its bullets. -/
theorem pool_of_ok (hp : p.Single) (h : p.run caller s = (.ok (), s')) :
    ∃ n, p.bullets? = some n ∧ s'.pool = (s.pool.take n).2 := by
  cases p with
  | arc time template circle arc =>
      rw [run, Pattern.arc_eq_shoot] at h
      obtain ⟨volley, haim, -, hpool⟩ := Firing.shoot_eq_ok.1 h
      obtain ⟨_, -, haim⟩ := Except.bind_eq_ok.1 haim
      exact ⟨arc.bullets, rfl, hpool.trans (Pattern.aimArc_draws haim).2⟩
  | radial time template circle radial =>
      obtain ⟨arc, harc, h⟩ := Pattern.radial_eq_ok h
      obtain ⟨spacing, hdivision⟩ := Radial.bullets_of_toArc harc
      rw [Pattern.arc_eq_shoot] at h
      obtain ⟨volley, haim, -, hpool⟩ := Firing.shoot_eq_ok.1 h
      obtain ⟨_, -, haim⟩ := Except.bind_eq_ok.1 haim
      refine ⟨arc.bullets, ?_, hpool.trans (Pattern.aimArc_draws haim).2⟩
      rw [bullets?, hdivision]
      rfl
  | line time template emitter direction line =>
      rw [run, Pattern.line_eq_shoot] at h
      obtain ⟨⟨volley, durations⟩, haim, -, hpool⟩ := Firing.shoot_eq_ok.1 h
      obtain ⟨_, -, haim⟩ := Except.bind_eq_ok.1 haim
      exact ⟨line.bullets, rfl, hpool.trans (Pattern.aimLine_eq_ok haim).1.drawn⟩
  | radialWave time template circle wave => cases hp
  | timedLine time template emitter direction line =>
      rw [run, Pattern.timedLine_eq_shoot] at h
      obtain ⟨volley, haim, -, hpool⟩ := Firing.shoot_eq_ok.1 h
      obtain ⟨_, -, haim⟩ := Except.bind_eq_ok.1 haim
      exact ⟨line.bullets, rfl, hpool.trans (Pattern.aimTimedLine_eq_ok haim).1.drawn⟩

theorem unchanged_of_error (hp : p.OnCircle) (hctx : s.context.Regular)
    (hne : ∀ c, s.context.components[p.template]? = some c → c.caller ≠ Group.template)
    (h : p.run caller s = (.error e, s')) : s.Unchanged s' := by
  cases p with
  | arc time template circle arc => exact Pattern.unchanged_of_arc_error h hctx hne
  | radial time template circle radial => exact Pattern.unchanged_of_radial_error h hctx hne
  | line time template emitter direction line => cases hp
  | radialWave time template circle wave => cases hp
  | timedLine time template emitter direction line => cases hp

/-- A pattern of one volley that fails leaves its pool where it is, and if it is on a
circle and its template is an ordinary one, it leaves no record either.  One that
succeeds advances its pool by the number of its bullets. -/
theorem atomic {result : Except BuildError Unit} (hp : p.Single) (hctx : Reachable s.context)
    (h : p.run caller s = (result, s')) :
    (∀ e, result = .error e → s'.pool = s.pool ∧
      (p.OnCircle →
        (∀ c, s.context.components[p.template]? = some c → c.caller ≠ Group.template) →
        s.Unchanged s')) ∧
    (result = .ok () →
      ∃ n, p.bullets? = some n ∧ s'.pool = (fun q : Pool => q.next.2)^[n] s.pool) := by
  constructor
  · rintro e rfl
    exact ⟨pool_of_error hp h, fun hcircle hne => unchanged_of_error hcircle (Run.regular hctx) hne h⟩
  · rintro rfl
    obtain ⟨n, hn, hpool⟩ := pool_of_ok hp h
    exact ⟨n, hn, by rw [hpool, Pool.take_snd]⟩

/-- A caller on a group, and a template, without bases. -/
def callerOn (g : Group) : Firing where
  context := Call.runAll
    [.register "Caller" g none, .register "Template" 37 none, .edit 1 (.spawnOrder true),
      .edit 1 (.trigger 0.0 (.toggle (.group Group.bullet) true)),
      .edit 1 (.trigger 0.0 (.toggle (.group Group.target) true))]
    (Context.ofConfig { tiers := 2 })
  pool := { cycler := ⟨501, 510, 501, by decide, by decide⟩ }

/-- Three bullets, 20 degrees apart. -/
def fan : PatternCall := .arc 0.0 1 Circle.main { bullets := 3, spacing := 20, center := 90.0 }

/-- A caller on a reserved group takes no burst, but the bases are built before that
is known.  A caller on another group takes all of them. -/
theorem atomic_fan :
    (∃ e s', fan.run 0 (callerOn 19) = (.error e, s') ∧ s'.context.components.length = 4 ∧
      (callerOn 19).Unchanged s' ∧ s'.pool = (callerOn 19).pool) ∧
    ∃ s', fan.run 0 (callerOn 36) = (.ok (), s') ∧
      s'.pool = (fun q : Pool => q.next.2)^[3] (callerOn 36).pool := by
  have hreachable : ∀ g, Reachable (callerOn g).context := fun g =>
    Reachable.runAll (.withConfig (Context.withConfig_eq_ok.2 ⟨by decide, rfl⟩)) _
  have hsingle : fan.Single := trivial
  constructor
  · have hfails : ¬ (fan.run 0 (callerOn 19)).1.isOk := by decide +kernel
    have hbases : (fan.run 0 (callerOn 19)).2.context.components.length = 4 := by decide +kernel
    have hordinary : ∀ c ∈ (callerOn 19).context.components[1]?, c.caller ≠ Group.template := by
      decide +kernel
    obtain ⟨e, s', hrun⟩ := eq_error_of_not_isOk hfails
    obtain ⟨hpool, hrecords⟩ := (atomic hsingle (hreachable 19) hrun).1 e rfl
    rw [hrun] at hbases
    exact ⟨e, s', hrun, hbases, hrecords trivial hordinary, hpool⟩
  · have hsucceeds : (fan.run 0 (callerOn 36)).1.isOk := by decide +kernel
    obtain ⟨_, s', hrun⟩ := eq_ok_of_isOk hsucceeds
    obtain ⟨n, hn, hpool⟩ := (atomic hsingle (hreachable 36) hrun).2 rfl
    cases hn
    exact ⟨s', hrun, hpool⟩

end PatternCall

end Barrage
