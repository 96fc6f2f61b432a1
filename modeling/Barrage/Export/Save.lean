import Barrage.Export.Disk
import Barrage.Export.Document
import Barrage.Export.Tally
import Barrage.Settings

/-!
# Exporting

An export builds the document, reports the statistics and saves the document.
The document is written under a temporary path and then renamed, so that its
path never leads to half of it.
-/

namespace Barrage

namespace Document

/-- The document of a context. -/
def ofContext (ctx : Context) (s : ExportSettings) : Except ExportError Document :=
  build ctx.config ctx.components s.area s.seed

/-- The events of building a document, by its outcome.  The hazard check passes
before anything is placed. -/
def events (ctx : Context) : Except ExportError Document → List Event
  | .error (.invalidArea _) => []
  | .error (.hazard _) => []
  | .error _ => [Hazard.passed ctx.components]
  | .ok d =>
    [Hazard.passed ctx.components,
      ⟨.debug, .exporter, "Laid out " ++ toString d.records.length ++ " triggers from "
        ++ toString ctx.components.length ++ " components"⟩]

variable {m : Type → Type} [Monad m]

/-- Writes a document and renames it into place.  When the renaming fails, the
temporary file is removed. -/
def save (disk : Disk m) (path : String) (d : Document) : m (Except ExportError Unit) := do
  let temporary := Path.temporary path
  match ← disk.write temporary d.text with
  | .error e => pure (.error (.disk temporary e))
  | .ok () =>
    match ← disk.rename temporary path with
    | .ok () => pure (.ok ())
    | .error e =>
      let _ ← disk.remove temporary
      pure (.error (.disk path e))

end Document

namespace Context

variable {m : Type → Type} [Monad m]

/-- Exports a context: the statistics, or why it failed, and the events up to
there. -/
def exportTo (disk : Disk m) (ctx : Context) (s : ExportSettings) :
    m (Except ExportError Tally × List Event) := do
  let built := Document.ofContext ctx s
  let events := Document.events ctx built
  match built with
  | .error e => pure (.error e, events)
  | .ok d =>
    let tally := ctx.tally s.budget
    let events := events ++ tally.report
    match ← d.save disk s.output with
    | .error e => pure (.error e, events)
    | .ok () =>
      let saved : Event :=
        ⟨.info, .exporter, "Saved " ++ toString d.records.length ++ " triggers to " ++ s.output⟩
      pure (.ok tally, events ++ [saved])

end Context

end Barrage
