import Barrage.Keyframe
import Barrage.Pattern.Timed

/-!
# The demo stage

One enemy attack and an arc of its own.  Two templates serve them: bullets that
fly to anchors of a circle, and bullets that fly along a line.
-/

namespace Barrage.Stage

open Context (perform assertSpawnOrder)

/-- The group of the enemy. -/
def enemy : Group := 40

/-- The group of its sprite. -/
def enemySprite : Group := 41

/-- The group that its bullets come from. -/
def enemyEmitter : Group := 42

/-- Registers a component. -/
def component (name : String) (caller : Group) : Build Context Nat :=
  Build.update fun ctx => ctx.register name caller none

/-- Runs a pattern on a pool and gives the pool after it. -/
def withPool (pool : Pool) (pattern : Build Firing Unit) : Build Context Pool := fun ctx =>
  let (result, s) := pattern ⟨ctx, pool⟩
  (result.map fun _ => s.pool, s.context)

/-- Carries out timed actions in a component. -/
def performAll (i : Nat) (actions : List (Float × Action)) : Build Context Unit :=
  Build.each (fun (time, action) => perform i time action) actions

/-- The template of bullets that start at the center of a circle, fly to an
anchor and disappear. -/
def circleBullet : Build Context Nat := do
  let i ← component "Circle bullet" 36
  assertSpawnOrder i true
  performAll i
    [(0.0, .moveTo Group.bullet Group.emitter Tween.instant),
      (0.0, .toggle (.group Group.bullet) true),
      (0.0, .toggle (.group Group.auxiliary) true),
      (0.05, .moveTowards Group.bullet Group.target Schedule.offscreen (Tween.linear 4.0) false),
      (4.1, .toggle (.group Group.bullet) false)]
  pure i

/-- The template of bullets that are aimed along a line. -/
def lineBullet : Build Context Nat := do
  let i ← component "Line bullet" 37
  assertSpawnOrder i true
  performAll i
    [(0.0, .moveTo Group.bullet Group.emitter Tween.instant),
      (0.0, .aim Group.bullet Group.target Tween.instant false),
      (0.0, .toggle (.group Group.bullet) true),
      (0.0, .alpha Group.bullet 100.0 0.2)]
  pure i

/-- The enemy comes in, attacks and leaves.  Gives the pool of round bullets
after the attack. -/
def enemyAttack (i circle line : Nat) (round aimed : Pool) : Build Context Pool := do
  let arrive : Tween := ⟨1.0, .easeOut, 2.0⟩
  let leave : Tween := ⟨1.0, .easeIn, 2.0⟩
  assertSpawnOrder i true
  performAll i
    [(0.0, .moveTo enemySprite Group.screenCenter arrive),
      (0.0, .moveTo enemyEmitter Group.screenCenter arrive),
      (1.0, .pulse enemySprite (Color.ofChannels 255 80 80) ⟨0.1, 0.2, 0.3⟩ false)]
  Context.scale i 1.0 enemySprite
    { factor := 1.5, hold := 0.2, tween := Tween.linear 0.3, reverse := true }
  let round ← withPool round
    (Pattern.radial i 1.5 circle Circle.main ⟨some 18, none, 0.0⟩)
  let round ← withPool round
    (Pattern.radialWave i 3.0 circle Circle.main ⟨⟨none, some 20, 10.0⟩, 3, 0.4⟩)
  let aimed ← withPool aimed
    (Pattern.line i 5.0 line enemyEmitter Group.player ⟨5, 1.0, 2.0, Schedule.offscreen⟩)
  let aimed ← withPool aimed
    (Pattern.line i 5.5 line enemyEmitter Group.player ⟨8, 1.0, 2.0, Schedule.offscreen⟩)
  let _ ← withPool aimed
    (Pattern.timedLine i 6.0 line enemyEmitter Group.player ⟨6, 0.15, 1.5, Schedule.offscreen⟩)
  performAll i
    [(8.0, .moveBy enemySprite 0.0 200.0 leave),
      (8.0, .moveBy enemyEmitter 0.0 200.0 leave),
      (9.0, .toggle (.group enemySprite) false)]
  pure round

/-- Builds the stage. -/
def build : Build Context Unit := do
  let circle ← circleBullet
  let line ← lineBullet
  let round ← Build.check fun _ => Pool.new 501 1000 false
  let aimed ← Build.check fun _ => Pool.new 1501 1700 true
  let attack ← component "Enemy attack" enemy
  let round ← enemyAttack attack circle line round aimed
  let arc ← component "Opening arc" 38
  let _ ← withPool round (Pattern.arc arc 0.0 circle Circle.main ⟨7, 15, 270.0, false⟩)
  let spell ← Build.update fun ctx => ctx.addSpell "Opening" 60
  Build.each
    (fun i => fun ctx =>
      match ctx.addToSpell spell i with
      | .ok ctx => (.ok (), ctx)
      | .error e => (.error (.misuse e), ctx))
    [attack, arc, circle, line]

end Barrage.Stage
