import Barrage.Action
import Barrage.Remap.Basic

/-!
# Scale keyframes

A scaling is not written into the component that wants it.  A keyframe component
of its own holds it, written against a placeholder, and the component spawns the
keyframe with its target in the place of the placeholder.  Scalings with the
same key share one keyframe.

A keyframe that cannot be finished is not cached, but its component and its
group remain.
-/

namespace Barrage

namespace Scaling

/-- Refuses a scaling that shrinks to nothing, changes nothing or has a bad
timing. -/
def validate (s : Scaling) : Except TriggerError Unit := do
  if ¬ 0.0 < s.factor then
    throw (.scaleFactor s.factor)
  if s.factor == 1.0 then
    throw .scaleIdentity
  Schedule.nonNegative .hold s.hold
  s.tween.validate

/-- The effect of one half of a scaling. -/
def effect (s : Scaling) (divide : Bool) : Effect :=
  .scale Group.keyframe s.factor divide s.tween

end Scaling

namespace Context

/-- The keyframe of a scaling, if it is built. -/
def keyframe? (ctx : Context) (s : Scaling) : Option Nat := ctx.keyframes.lookup s.key

/-- Builds the keyframe of a scaling. -/
def buildKeyframe (s : Scaling) : Build Context Nat := do
  let caller ← Build.update issueGroup
  let ctx ← Build.read
  let name := "Scale keyframe " ++ toString (ctx.keyframes.length + 1)
  let i ← Build.update fun ctx => ctx.register name caller none
  assertSpawnOrder i true
  inscribe i 0.0 (s.effect false)
  if s.reverse then
    inscribe i (s.tween.duration + s.hold) (s.effect true)
  Build.change fun ctx =>
    let event : Event :=
      ⟨.debug, .compiler, "Built scale keyframe on group " ++ toString caller ++ " (factor "
        ++ Number.Layout.quantity.render s.factor ++ ")"⟩
    { ctx.log event with keyframes := ctx.keyframes ++ [(s.key, i)] }
  pure i

/-- The keyframe of a scaling, built on first use. -/
def keyframe (s : Scaling) : Build Context Nat := do
  let ctx ← Build.read
  match ctx.keyframe? s with
  | some i => pure i
  | none => buildKeyframe s

/-- The remap that puts a group in the place of the keyframe placeholder. -/
def keyframeRemap (target : Group) : RemapRequest :=
  if target = Group.keyframe then .none else .table ⟨[(Group.keyframe, target)], by simp⟩

/-- Scales a group through a keyframe. -/
def scale (i : Nat) (time : Float) (target : Group) (s : Scaling) : Build Context Unit := do
  Build.check fun ctx => do
    let _ ← ctx.component i
    s.validate
    Schedule.nonNegative .time time
    ctx.validateGroup target
  let k ← keyframe s
  perform i time (.spawn (.component k) true (keyframeRemap target) 0.0)

end Context

end Barrage
