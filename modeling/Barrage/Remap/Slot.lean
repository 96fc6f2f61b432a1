import Barrage.Cycler
import Barrage.Remap.Basic

/-!
# Strict remaps

A strict remap is built from slots.  The target of a slot is given, or drawn
from a cycler when the slot is reached.  No source and no target may occur
twice.  The cycler stays where the last draw left it, also when the slots are
refused.
-/

namespace Barrage.Remap

/-- A pair to be. -/
structure Slot where
  /-- The source. -/
  source : Group
  /-- The target, or `none` for one that is drawn. -/
  target : Option Group
deriving Repr, DecidableEq

/-- The target of a slot, and the cycler after it. -/
def Slot.draw (slot : Slot) (cycler : Cycler) : Group × Cycler :=
  match slot.target with
  | some target => (target, cycler)
  | none => cycler.next

/-- Adds slots to a table.  A repeated target is noticed before a repeated
source. -/
def fill : List Slot → Remap → Cycler → Except RemapError Remap × Cycler
  | [], r, cycler => (.ok r, cycler)
  | slot :: rest, r, cycler =>
    let (target, cycler) := slot.draw cycler
    if target ∈ r.pairs.map Prod.snd then
      (.error (.duplicateTarget target), cycler)
    else
      match r.insert slot.source target with
      | .error e => (.error e, cycler)
      | .ok r => fill rest r cycler

/-- The strict remap of a list of slots. -/
def ofSlots (slots : List Slot) (cycler : Cycler) : Except RemapError Remap × Cycler :=
  fill slots empty cycler

end Barrage.Remap
