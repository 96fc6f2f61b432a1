import Barrage.Action
import Barrage.Burst.Basic

/-!
# Building bases and firing bursts

The bases are built on first use.  A build of the bases that fails is not kept,
but the components it has registered and the groups it has issued remain.

Firing a template plans bursts for all assignments and then spawns them one by
one from the caller.
-/

namespace Barrage.Context

/-- The spawn in a base that works on one scratch block. -/
def baseSpawn (start : Group) (index : Nat) : Action :=
  .spawn (.group Group.template) true (.table (Assignment.scratch start index).remap) 0.0

/-- Builds the base of a tier. -/
def buildBase (tier : Nat) : Build Context Base := do
  let config := (← Build.read).config
  let capacity := Nat.pow 2 tier
  let group ← Build.update issueGroup
  let i ← Build.update fun ctx =>
    ctx.register ("Multitarget base " ++ toString capacity) group (some config.defaultLayer)
  assertSpawnOrder i false
  Build.each (fun k => perform i 0.0 (baseSpawn config.scratchStart k)) (List.range capacity)
  pure ⟨capacity, i, group⟩

/-- Builds the bases of the given tiers. -/
def buildTiers : List Nat → Build Context (List Base)
  | [] => pure []
  | tier :: rest => do
    let base ← buildBase tier
    let bases ← buildTiers rest
    pure (base :: bases)

/-- Builds all bases. -/
def buildBases : Build Context Bases := do
  let config := (← Build.read).config
  let tiers ← buildTiers (List.range config.tiers)
  Build.change fun ctx => ctx.log
    ⟨.info, .bursts, "Built " ++ toString tiers.length ++ " multitarget base components (ceiling "
      ++ toString config.ceiling ++ ")"⟩
  pure ⟨tiers, config.scratchStart⟩

/-- Keeps the bases. -/
def keepBases (b : Bases) : Build Context Unit :=
  Build.change fun ctx => { ctx with bases := some b }

/-- Builds the bases now, which can be done once only. -/
def initBases : Build Context Unit := do
  if (← Build.read).bases.isSome then
    Build.fail (.misuse .alreadyInitialized)
  else
    let b ← buildBases
    keepBases b

/-- The bases, built on first use. -/
def requireBases : Build Context Bases := do
  match (← Build.read).bases with
  | some b => pure b
  | none =>
    let b ← buildBases
    keepBases b
    pure b

/-- Plans the bursts of a template.  A template that itself spawns gives a
warning. -/
def planBursts (template : Nat) (as : List Assignment) : Build Context (List Burst) := do
  let c ← Build.check fun ctx => ctx.component template
  if c.hasSpawn then
    Build.change fun ctx => ctx.warn (.multitargetIntoSpawner c.name)
  let b ← requireBases
  Build.check fun _ => b.planAll c.caller as

/-- Plans the bursts of a template for a time, and says in the log how many there
are. -/
def prepare (time : Float) (template : Nat) (as : List Assignment) :
    Build Context (List Burst) := do
  Build.check fun _ => Schedule.nonNegative .time time
  let bursts ← planBursts template as
  Build.change fun ctx => ctx.log
    ⟨.debug, .compiler, "Firing " ++ toString as.length ++ " instances of #" ++ toString template
      ++ " in " ++ toString bursts.length ++ " bursts"⟩
  pure bursts

/-- Spawns a burst from a component. -/
def emitBurst (caller : Nat) (time : Float) (burst : Burst) : Build Context Unit :=
  perform caller time (.spawn (.group burst.group) false (.table burst.remap) 0.0)

/-- Spawns a template from a component, once per assignment. -/
def fire (caller : Nat) (time : Float) (template : Nat) (as : List Assignment) :
    Build Context Unit := do
  let bursts ← prepare time template as
  Build.each (emitBurst caller time) bursts

end Barrage.Context
