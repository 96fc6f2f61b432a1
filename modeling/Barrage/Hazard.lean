import Barrage.Context.Basic

/-!
# Spawn hazards

The game runs simultaneous spawns of one group only once when that group itself
holds a spawn.  Two kinds of input lead there.

* Direct: a component that requires spawn order spawns such a group more than
  once at one place, at once and without remap.
* Indirect: a remapped spawn runs a group whose immediate spawns, seen through
  the remap, go more than once to such a group from one place, and the remap has
  redirected at least one of them.

Spawns are simultaneous when their places have the same bits.  Of the hazards of
a component, or of a remapped spawn, the one at the least place, and there in
the least group, is reported.
-/

namespace Barrage.Hazard

/-- The bits of a place, and a group. -/
abbrev Landing := Nat × Group

/-- Landings in the order of places, then of groups. -/
def before (a b : Landing) : Bool := a.1 < b.1 || (a.1 == b.1 && a.2 ≤ b.2)

/-- The least landing. -/
def least? : List Landing → Option Landing
  | [] => none
  | a :: rest =>
    match least? rest with
    | none => some a
    | some b => some (if before a b then a else b)

/-- The bits of the place of a record. -/
def placeBits (r : Record) : Nat := r.x.toBits.toNat

/-- All records. -/
def allRecords (cs : List Component) : List Record := cs.flatMap Component.records

/-- The groups that a spawn belongs to. -/
def spawnBearing (cs : List Component) : List Group :=
  ((allRecords cs).filter Record.isSpawn).flatMap Record.groups

/-! ## Direct -/

/-- Where the plain spawns of a component go. -/
def plainLandings (c : Component) : List Landing :=
  (c.records.filter Record.isPlainSpawn).filterMap fun r =>
    r.effect.target?.map fun g => (placeBits r, g)

/-- The direct hazard of a component, if it has one. -/
def direct? (bearing : List Group) (c : Component) : Option HazardError :=
  if c.requiresSpawnOrder then
    let landings := plainLandings c
    let bad := landings.filter fun l => 2 ≤ landings.count l && bearing.contains l.2
    (least? bad).map fun l =>
      .direct c.name l.2 (Float.ofBits l.1.toUInt64) (landings.count l)
  else
    none

/-! ## Indirect -/

/-- The immediate spawns that a group runs, each as often as it lists the
group. -/
def candidates (immediate : List Record) (activated : Group) : List Record :=
  immediate.flatMap fun r => List.replicate (r.groups.count activated) r

/-- Where immediate spawns go through a remap, and whether it redirects them. -/
def remappedLandings (remap : Remap) (rs : List Record) : List (Landing × Bool) :=
  rs.filterMap fun r =>
    r.effect.target?.map fun g => ((placeBits r, remap.resolve g), remap.resolve g != g)

/-- The indirect hazard of a spawn of a component, if it has one. -/
def indirect? (bearing : List Group) (immediate : List Record) (c : Component) (r : Record) :
    Option HazardError :=
  match r.effect.target?, r.effect.remap? with
  | some activated, some remap =>
    let marked := remappedLandings remap (candidates immediate activated)
    let landings := marked.map Prod.fst
    let bad := landings.filter fun l =>
      2 ≤ landings.count l && marked.contains (l, true) && bearing.contains l.2
    (least? bad).map fun l => .indirect c.name activated l.2 (landings.count l)
  | _, _ => none

/-! ## All components -/

/-- The first hazard: the direct ones of all components, then the indirect ones
of all their spawns. -/
def first? (cs : List Component) : Option HazardError :=
  let bearing := spawnBearing cs
  let immediate := (allRecords cs).filter Record.isImmediateSpawn
  match cs.findSome? (direct? bearing) with
  | some e => some e
  | none => cs.findSome? fun c => c.records.findSome? (indirect? bearing immediate c)

/-- Refuses components with a hazard. -/
def check (cs : List Component) : Except HazardError Unit :=
  match first? cs with
  | some e => .error e
  | none => .ok ()

/-- The event of a check that found no hazard. -/
def passed (cs : List Component) : Event :=
  ⟨.debug, .compiler, "Spawn limits ok across " ++ toString cs.length ++ " components"⟩

end Barrage.Hazard
