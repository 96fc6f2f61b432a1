import Barrage.Component
import Barrage.Config
import Barrage.Export.Area
import Barrage.Export.Generator

/-!
# Placement

Records come with a place along the schedule.  An export spreads the records of
each component over the trigger area.

* A single record goes anywhere.
* Records of one moment whose order does not matter are scattered over even
  places.
* Records that must keep their order keep their distances too: the whole chain
  is shifted to a landing place.
* All others follow each other from the left edge in small random steps.

Then each record gets a random place across the level.
-/

namespace Barrage.Placement

open Number (truncate)

/-- The least of some numbers. -/
def least (xs : List Float) : Float :=
  xs.foldl (fun a x => if x < a then x else a) (1.0 / 0.0)

/-- The greatest of some numbers. -/
def greatest (xs : List Float) : Float :=
  xs.foldl (fun a x => if a < x then x else a) (-1.0 / 0.0)

/-- Places for `n` records anywhere on even numbers. -/
def scatter (area : Area) (n : Nat) (g : Generator) : List Float × Generator :=
  let (halves, g) := g.betweens (area.minX.tdiv 2) (area.maxX.tdiv 2) n
  (halves.map fun k => Float.ofInt (k * 2), g)

/-- Sums of a number and the steps so far. -/
def walk (x : Float) : List Int → List Float
  | [] => [x]
  | step :: rest => x :: walk (x + Float.ofInt step) rest

/-- Places for `n` records, at least one, that follow each other in steps from 1
to 10. -/
def elastic (area : Area) (n : Nat) (g : Generator) : List Float × Generator :=
  let (steps, g) := g.betweens 1 10 (n - 1)
  (walk (Float.ofInt area.minX) steps, g)

/-- Places for records that keep their distances. -/
def rigid (name : String) (area : Area) (xs : List Float) (g : Generator) :
    Except ExportError (List Float × Generator) :=
  let width := greatest xs - least xs
  if area.width < width then
    .error (.chainTooWide name width area.width)
  else
    let (landing, g) := g.between area.minX (truncate (Float.ofInt area.maxX - width))
    let shift := Float.ofInt landing - least xs
    .ok (xs.map fun x => x + shift, g)

/-- Are all records at the place of the first? -/
def sameMoment : List Float → Bool
  | [] => true
  | x :: rest => (x :: rest).all (· == x)

/-- New places along the level. -/
def places (c : Component) (area : Area) (xs : List Float) (g : Generator) :
    Except ExportError (List Float × Generator) :=
  match xs with
  | [] => .error (.emptyComponent c.name)
  | [_] =>
    let (x, g) := g.between area.minX area.maxX
    .ok ([Float.ofInt x], g)
  | _ =>
    if sameMoment xs && !c.requiresSpawnOrder then
      .ok (scatter area xs.length g)
    else if c.requiresSpawnOrder then
      rigid c.name area xs g
    else
      .ok (elastic area xs.length g)

/-- Moves each record to its place along the level and a random place across. -/
def settle (area : Area) : List Record → List Float → Generator → List Record × Generator
  | r :: rs, x :: xs, g =>
    let (y, g) := g.between area.minY area.maxY
    let (rest, g) := settle area rs xs g
    (r.moveTo x (Float.ofInt y) :: rest, g)
  | _, _, g => ([], g)

/-- Places records of a component in an area. -/
def spread (c : Component) (area : Area) (rs : List Record) (g : Generator) :
    Except ExportError (List Record × Generator) := do
  let (xs, g) ← places c area (rs.map Record.x) g
  pure (settle area rs xs g)

/-- Records in the order of their places.  Records of one place keep their
order. -/
def sort (rs : List Record) : List Record := rs.mergeSort fun a b => Number.totalLe a.x b.x

/-- Refuses placed records: one that belongs to a reserved group, or, where the
order matters, one less than a unit after the record before it. -/
def checkFrom (c : Component) (config : Config) : Float → List Record → Except ExportError Unit
  | _, [] => .ok ()
  | previous, r :: rest =>
    match r.groups.find? config.isReserved with
    | some g => .error (.reservedGroup c.name g)
    | none =>
      let dx := r.x - previous
      if c.requiresSpawnOrder ∧ 0.0 < dx ∧ dx < 1.0 then
        .error (.spawnOrderBroken c.name r.x previous)
      else
        checkFrom c config r.x rest

/-- Refuses placed records of a component. -/
def check (c : Component) (config : Config) (rs : List Record) : Except ExportError Unit :=
  checkFrom c config (-1.0 / 0.0) rs

end Barrage.Placement
