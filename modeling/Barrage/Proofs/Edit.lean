import Barrage.Proofs.Action

/-!
# Edits are all or nothing

An *edit* is an operation on one component.  An action appends one record to it.
A change of structure sets the demand for spawn order, or opens or closes the
group context, and appends nothing.

`Edit.all_or_nothing` says that a refused edit leaves the whole context as it
was, the warnings and the log included.  An accepted edit changes its own
component only, never the records that were there, and it warns exactly when it
is a spawn with a remap text that cleaning changes.
-/

namespace Barrage

/-- An operation on one component. -/
inductive Edit where
  /-- Appends the record of an action. -/
  | trigger (time : Float) (action : Action)
  /-- Says whether the records must keep their order. -/
  | spawnOrder (required : Bool)
  /-- Opens a group context. -/
  | openContext (groups : List Group)
  /-- Closes the group context. -/
  | closeContext

namespace Edit

/-- Carries out an edit on a component. -/
def run (i : Nat) : Edit → Build Context Unit
  | .trigger time action => Context.perform i time action
  | .spawnOrder required => Context.assertSpawnOrder i required
  | .openContext groups => Context.startGroupContext i groups
  | .closeContext => Context.endGroupContext i

/-- The number of records that an accepted edit appends. -/
def size : Edit → Nat
  | .trigger .. => 1
  | _ => 0

/-- The edit is a spawn with a remap text, and the text of the cleaned remap is
another one. -/
def Redundant (e : Edit) (given cleaned : String) : Prop :=
  ∃ time target ordered q delay c, e = .trigger time (.spawn target ordered q delay) ∧
    q.given = given ∧ given ≠ "" ∧ q.clean = .ok (some c) ∧ c.table.wire = cleaned ∧
    cleaned ≠ given

/-- What an accepted edit of a component does to the context. -/
structure Accepted (i : Nat) (e : Edit) (ctx ctx' : Context) : Prop where
  /-- The other components are as before. -/
  others : ∀ j, j ≠ i → ctx'.components[j]? = ctx.components[j]?
  /-- The component keeps what it had and grows by the records of the edit. -/
  edited : ∃ c c' added, ctx.components[i]? = some c ∧ ctx'.components[i]? = some c' ∧
    c'.records = c.records ++ added ∧ added.length = e.size ∧
    c'.name = c.name ∧ c'.caller = c.caller ∧ c'.layer = c.layer
  config : ctx'.config = ctx.config
  spells : ctx'.spells = ctx.spells
  nextUnknown : ctx'.nextUnknown = ctx.nextUnknown
  bases : ctx'.bases = ctx.bases
  keyframes : ctx'.keyframes = ctx.keyframes
  /-- A remap text that cleaning changes gives one warning. -/
  warned : ∀ given cleaned, e.Redundant given cleaned →
    ctx'.warnings = ctx.warnings ++ [.redundantRemap given cleaned]
  /-- Nothing else gives a warning. -/
  silent : (∀ given cleaned, ¬ e.Redundant given cleaned) → ctx'.warnings = ctx.warnings

/-! ## Actions -/

/-- The warning of an action is about its redundant remap text. -/
theorem warning?_eq_some (time : Float) {a : Action} {w : Warning} :
    a.warning? = some w ↔
      ∃ given cleaned, (Edit.trigger time a).Redundant given cleaned ∧
        w = .redundantRemap given cleaned := by
  constructor
  · intro h
    cases a with
    | spawn target ordered q delay =>
        simp only [Action.warning?] at h
        split at h
        next c hc =>
          obtain ⟨hgiven, hne, hchanged⟩ := RemapRequest.note_of_clean hc
          split at h
          next hch =>
            cases h
            rw [hgiven]
            exact ⟨_, _, ⟨time, target, ordered, q, delay, c, rfl, rfl, hne, hc, rfl,
              hchanged.1 hch⟩, rfl⟩
          next => cases h
        next => cases h
    | _ => cases h
  · rintro ⟨_, _, ⟨time', target, ordered, q, delay, c, heq, rfl, hne, hc, rfl, hdiff⟩, rfl⟩
    cases heq
    obtain ⟨hgiven, -, hchanged⟩ := RemapRequest.note_of_clean hc
    simp only [Action.warning?, hc, if_pos (hchanged.2 hdiff), hgiven]

theorem accepted_of_perform {i : Nat} {time : Float} {a : Action} {ctx ctx' : Context}
    (h : Context.perform i time a ctx = (.ok (), ctx')) : (trigger time a).Accepted i ctx ctx' := by
  obtain ⟨r, hr, rfl⟩ := Context.perform_eq_ok.1 h
  obtain ⟨c, e, hc, -, -⟩ := Context.draft_eq_ok.1 hr
  refine ⟨?_, ?_, rfl, rfl, rfl, rfl, rfl, ?_, ?_⟩
  · intro j hj
    exact List.getElem?_modify_ne _ _ (Ne.symm hj)
  · refine ⟨c, c.push r, [r], hc, ?_, rfl, rfl, rfl, rfl, rfl⟩
    simp [hc]
  · intro given cleaned hred
    have hw : a.warning? = some (.redundantRemap given cleaned) :=
      (warning?_eq_some time).2 ⟨given, cleaned, hred, rfl⟩
    simp [hw]
  · intro hnone
    have hw : a.warning? = none := by
      cases ha : a.warning? with
      | none => rfl
      | some w =>
          obtain ⟨given, cleaned, hred, -⟩ := (warning?_eq_some time).1 ha
          exact absurd hred (hnone given cleaned)
    simp [hw]

/-! ## Changes of structure -/

/-- A change of structure leaves the records, the name, the caller and the layer
alone. -/
theorem accepted_of_setComponent {i : Nat} {e : Edit} {ctx : Context} {c c' : Component}
    (hc : ctx.components[i]? = some c) (hsize : e.size = 0) (hrecords : c'.records = c.records)
    (hname : c'.name = c.name) (hcaller : c'.caller = c.caller) (hlayer : c'.layer = c.layer) :
    e.Accepted i ctx (ctx.setComponent i c') := by
  have hi : i < ctx.components.length := (List.getElem?_eq_some_iff.1 hc).1
  refine ⟨?_, ?_, rfl, rfl, rfl, rfl, rfl, ?_, fun _ => rfl⟩
  · intro j hj
    exact List.getElem?_set_ne (Ne.symm hj)
  · refine ⟨c, c', [], hc, List.getElem?_set_self hi, ?_, ?_, hname, hcaller, hlayer⟩
    · rw [hrecords, List.append_nil]
    · exact hsize.symm
  · rintro given cleaned ⟨time, target, ordered, q, delay, c, rfl, -⟩
    cases hsize

/-- A refused edit changes nothing, and an accepted one exactly its component. -/
theorem all_or_nothing (i : Nat) (e : Edit) (ctx : Context) :
    match e.run i ctx with
    | (.error _, ctx') => ctx' = ctx
    | (.ok (), ctx') => e.Accepted i ctx ctx' := by
  cases e with
  | trigger time a =>
      simp only [run]
      rcases h : Context.perform i time a ctx with ⟨err | _, ctx'⟩
      · exact (Context.perform_eq_error.1 h).2.symm
      · exact accepted_of_perform h
  | spawnOrder required =>
      simp only [run]
      rcases h : Context.assertSpawnOrder i required ctx with ⟨err | _, ctx'⟩
      · exact Context.assertSpawnOrder_eq_error h
      · obtain ⟨c, hc, rfl⟩ := Context.assertSpawnOrder_eq_ok.1 h
        exact accepted_of_setComponent hc rfl rfl rfl rfl rfl
  | openContext groups =>
      simp only [run]
      rcases h : Context.startGroupContext i groups ctx with ⟨err | _, ctx'⟩
      · exact Context.startGroupContext_eq_error h
      · obtain ⟨c, hc, -, -, -, rfl⟩ := Context.startGroupContext_eq_ok.1 h
        exact accepted_of_setComponent hc rfl rfl rfl rfl rfl
  | closeContext =>
      simp only [run]
      rcases h : Context.endGroupContext i ctx with ⟨err | _, ctx'⟩
      · exact Context.endGroupContext_eq_error h
      · obtain ⟨c, hc, -, rfl⟩ := Context.endGroupContext_eq_ok.1 h
        exact accepted_of_setComponent hc rfl rfl rfl rfl rfl

end Edit

end Barrage
