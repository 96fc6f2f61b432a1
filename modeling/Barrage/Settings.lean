import Barrage.Config
import Barrage.Export.Area
import Barrage.Json.Decode
import Barrage.Json.Reader

/-!
# Settings

Settings come as JSON.  A field that is absent has its default, except that an
area is given whole or not at all.
-/

namespace Barrage

/-- How a document is exported. -/
structure ExportSettings where
  area : Area := {}
  /-- The seed of the placement. -/
  seed : Nat := 24301
  /-- How many objects the level can hold. -/
  budget : Nat := 200000
  /-- The path of the document. -/
  output : String := "triggers.json"
deriving Repr, DecidableEq

/-- All settings of a run. -/
structure Settings where
  compiler : Config := {}
  exporter : ExportSettings := {}
deriving Repr, DecidableEq

namespace Config

/-- Inserts a number into an ascending list that does not repeat any. -/
def insertSorted (n : Nat) : List Nat → List Nat
  | [] => [n]
  | m :: rest =>
    if n < m then n :: m :: rest else if n = m then m :: rest else m :: insertSorted n rest

/-- The names of the fields in JSON. -/
def fieldNames : List String :=
  ["reserved_groups", "max_group", "unknown_group_start", "multitarget_tiers",
    "scratch_group_start", "default_editor_layer"]

/-- The greatest layer of the editor. -/
def greatestLayer : Nat := 255

/-- Reads a configuration. -/
def ofJson? (v : Json) : Option Config := do
  let d : Config := {}
  match ← v.members? fieldNames with
  | [reserved, maxGroup, unknownStart, tiers, scratchStart, defaultLayer] =>
    let groups ← Json.orDefault d.reserved (Json.list? (Json.natUpTo? Group.greatest)) reserved
    pure
      { reserved := groups.foldl (fun gs g => insertSorted g gs) []
        maxGroup := ← Json.orDefault d.maxGroup (Json.natUpTo? Group.greatest) maxGroup
        unknownStart := ← Json.orDefault d.unknownStart (Json.natUpTo? Group.greatest) unknownStart
        tiers := ← Json.orDefault d.tiers (Json.natUpTo? Group.greatest) tiers
        scratchStart := ← Json.orDefault d.scratchStart (Json.natUpTo? Group.greatest) scratchStart
        defaultLayer := ← Json.orDefault d.defaultLayer (Json.natUpTo? greatestLayer) defaultLayer }
  | _ => none

/-- A configuration as JSON. -/
def toJson (c : Config) : Json :=
  Json.ofFields (fieldNames.zip
    [.array (c.reserved.map Json.ofNat), .ofNat c.maxGroup, .ofNat c.unknownStart, .ofNat c.tiers,
      .ofNat c.scratchStart, .ofNat c.defaultLayer])

end Config

namespace Area

/-- The names of the fields in JSON. -/
def fieldNames : List String := ["min_x", "min_y", "max_x", "max_y"]

/-- A coordinate: an integer of 64 bits. -/
def coordinate? (v : Json) : Option Int := v.int? Number.int64Min Number.int64Max

/-- Reads an area. -/
def ofJson? (v : Json) : Option Area := do
  match ← v.members? fieldNames with
  | [minX, minY, maxX, maxY] =>
    pure
      { minX := ← Json.required coordinate? minX
        minY := ← Json.required coordinate? minY
        maxX := ← Json.required coordinate? maxX
        maxY := ← Json.required coordinate? maxY }
  | _ => none

/-- An area as JSON. -/
def toJson (a : Area) : Json :=
  Json.ofFields (fieldNames.zip [.int a.minX, .int a.minY, .int a.maxX, .int a.maxY])

end Area

namespace ExportSettings

/-- The greatest seed and the greatest budget: a word of 64 bits. -/
def greatestWord : Nat := 18446744073709551615

/-- The names of the fields in JSON. -/
def fieldNames : List String := ["area", "seed", "object_budget", "output"]

/-- Reads export settings. -/
def ofJson? (v : Json) : Option ExportSettings := do
  let d : ExportSettings := {}
  match ← v.members? fieldNames with
  | [area, seed, budget, output] =>
    pure
      { area := ← Json.orDefault d.area Area.ofJson? area
        seed := ← Json.orDefault d.seed (Json.natUpTo? greatestWord) seed
        budget := ← Json.orDefault d.budget (Json.natUpTo? greatestWord) budget
        output := ← Json.orDefault d.output Json.text? output }
  | _ => none

/-- Export settings as JSON. -/
def toJson (s : ExportSettings) : Json :=
  Json.ofFields (fieldNames.zip
    [s.area.toJson, .ofNat s.seed, .ofNat s.budget, Json.ofText s.output])

end ExportSettings

namespace Settings

/-- Reads settings. -/
def ofJson? (v : Json) : Option Settings := do
  let d : Settings := {}
  match ← v.members? ["compiler", "export"] with
  | [compiler, exporter] =>
    pure
      { compiler := ← Json.orDefault d.compiler Config.ofJson? compiler
        exporter := ← Json.orDefault d.exporter ExportSettings.ofJson? exporter }
  | _ => none

/-- Reads settings from a text. -/
def parse (text : String) : Option Settings := do
  let v ← Json.parse text
  ofJson? v

end Settings

end Barrage
