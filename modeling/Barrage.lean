import Barrage.Action
import Barrage.Build
import Barrage.Burst.Basic
import Barrage.Burst.Fire
import Barrage.Circle
import Barrage.Color
import Barrage.Component
import Barrage.Config
import Barrage.Context.Basic
import Barrage.Cycler
import Barrage.Easing
import Barrage.Error
import Barrage.Export.Area
import Barrage.Export.Disk
import Barrage.Export.Document
import Barrage.Export.Error
import Barrage.Export.Generator
import Barrage.Export.Path
import Barrage.Export.Placement
import Barrage.Export.Save
import Barrage.Export.Tally
import Barrage.Geometry.Arc
import Barrage.Geometry.Line
import Barrage.Group
import Barrage.Hazard
import Barrage.Json.Basic
import Barrage.Json.Decode
import Barrage.Json.Printer
import Barrage.Json.Reader
import Barrage.Keyframe
import Barrage.Main
import Barrage.Number.Binary
import Barrage.Number.Layout
import Barrage.Number.Shortest
import Barrage.Pattern.Basic
import Barrage.Pattern.Instant
import Barrage.Pattern.Timed
import Barrage.Pool
import Barrage.Proofs.Action
import Barrage.Proofs.Budget
import Barrage.Proofs.Build
import Barrage.Proofs.Burst.Bases
import Barrage.Proofs.Burst.Builds
import Barrage.Proofs.Burst.Compatible
import Barrage.Proofs.Burst.Decomposition
import Barrage.Proofs.Burst.Expansion
import Barrage.Proofs.Burst.Foundation
import Barrage.Proofs.Burst.Plan
import Barrage.Proofs.Call
import Barrage.Proofs.Change
import Barrage.Proofs.Disk
import Barrage.Proofs.Document
import Barrage.Proofs.Document.Chain
import Barrage.Proofs.Document.Extension
import Barrage.Proofs.Document.Overflow
import Barrage.Proofs.Document.Refusal
import Barrage.Proofs.Document.Schedule
import Barrage.Proofs.Document.Within
import Barrage.Proofs.Edit
import Barrage.Proofs.Generator
import Barrage.Proofs.Geometry.Arc
import Barrage.Proofs.Geometry.Center
import Barrage.Proofs.Hazard
import Barrage.Proofs.Hazard.Orderly
import Barrage.Proofs.Hazard.PatternRun
import Barrage.Proofs.Hazard.Place
import Barrage.Proofs.Hazard.SpawningTemplate
import Barrage.Proofs.Keyframe
import Barrage.Proofs.Keyframe.Memo
import Barrage.Proofs.Moment
import Barrage.Proofs.Number.Halves
import Barrage.Proofs.Number.Moderate
import Barrage.Proofs.Number.Nearest
import Barrage.Proofs.Number.Nonneg
import Barrage.Proofs.Number.SignedZero
import Barrage.Proofs.Number.Units
import Barrage.Proofs.Number.Word
import Barrage.Proofs.Owners
import Barrage.Proofs.Pattern
import Barrage.Proofs.Pattern.Line
import Barrage.Proofs.Pattern.Motion
import Barrage.Proofs.Pattern.Opening
import Barrage.Proofs.Pattern.Redirect
import Barrage.Proofs.Pattern.Volley
import Barrage.Proofs.Pattern.Wave
import Barrage.Proofs.Pool
import Barrage.Proofs.Record
import Barrage.Proofs.Regular
import Barrage.Proofs.Remap.Grammar
import Barrage.Proofs.Remap.Slot
import Barrage.Proofs.Remap.Wire
import Barrage.Proofs.Run
import Barrage.Proofs.Spell
import Barrage.Proofs.Tally
import Barrage.Proofs.Validity
import Barrage.Proofs.Widening
import Barrage.Record.Basic
import Barrage.Record.Effect
import Barrage.Record.Kind
import Barrage.Record.Value
import Barrage.Remap.Basic
import Barrage.Remap.Slot
import Barrage.Remap.Wire
import Barrage.Run
import Barrage.Schedule
import Barrage.Settings
import Barrage.Stage
import Barrage.Warning
