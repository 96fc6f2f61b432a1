import Barrage.Context.Basic
import Barrage.Export.Placement
import Barrage.Hazard
import Barrage.Json.Printer

/-!
# Documents

A document is the list of all placed records, component after component.  One
generator goes through all components, and a component without records draws
nothing from it.
-/

namespace Barrage

/-- Placed records. -/
structure Document where
  records : List Record
deriving DecidableEq

namespace Document

/-- The placed and sorted records of one component. -/
def segment (config : Config) (area : Area) (c : Component) (g : Generator) :
    Except ExportError (List Record × Generator) := do
  let (rs, g) ← Placement.spread c area c.records g
  let rs := Placement.sort rs
  Placement.check c config rs
  pure (rs, g)

/-- The placed records of components. -/
def segments (config : Config) (area : Area) :
    List Component → Generator → Except ExportError (List Record)
  | [], _ => .ok []
  | c :: rest, g =>
    if c.records = [] then
      segments config area rest g
    else do
      let (rs, g) ← segment config area c g
      let others ← segments config area rest g
      pure (rs ++ others)

/-- The document of components, for an area and a seed. -/
def build (config : Config) (cs : List Component) (area : Area) (seed : Nat) :
    Except ExportError Document := do
  area.validate
  (Hazard.check cs).mapError .hazard
  let records ← segments config area cs ⟨seed.toUInt64⟩
  pure ⟨records⟩

/-- A document as JSON. -/
def toJson (d : Document) : Json :=
  Json.ofFields [("triggers", .array (d.records.map Record.toJson))]

/-- The text of a document. -/
def text (d : Document) : String := d.toJson.pretty

end Document

end Barrage
