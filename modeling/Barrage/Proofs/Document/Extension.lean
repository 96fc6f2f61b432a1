import Barrage.Proofs.Document.Refusal

/-!
# Documents of extended contexts

One generator goes through all components of a document.  `Document.LaysOut` is this
passage with the states of the generator at both ends.  A component without records
leaves the state as it is, and any other one is placed from the state that it finds and
hands on another.  So the records of some components depend on the state before them
only, and not on what comes after.

A context is extended by components without records at any place, which draw nothing
(`Document.Padded`), and by any components at the end, which draw after all others.
Neither changes what is placed before, and so the document of a context begins the
document of the extended one.
-/

namespace Barrage.Document

/-! ## The passage of the generator -/

/-- From the state `g` the components are placed as the records, and the generator is
left in the second state. -/
inductive LaysOut (config : Config) (area : Area) :
    Generator → List Component → List Record → Generator → Prop
  | nil {g : Generator} : LaysOut config area g [] [] g
  | skip {g g' : Generator} {c : Component} {cs : List Component} {rs : List Record} :
      c.records = [] → LaysOut config area g cs rs g' → LaysOut config area g (c :: cs) rs g'
  | place {g g₁ g' : Generator} {c : Component} {cs : List Component} {part rs : List Record} :
      c.records ≠ [] → segment config area c g = .ok (part, g₁) →
      LaysOut config area g₁ cs rs g' → LaysOut config area g (c :: cs) (part ++ rs) g'

theorem laysOut_of_segments {config : Config} {area : Area} {cs : List Component} {g : Generator}
    {rs : List Record} (h : segments config area cs g = .ok rs) :
    ∃ g', LaysOut config area g cs rs g' := by
  induction cs generalizing g rs with
  | nil =>
      cases h
      exact ⟨g, .nil⟩
  | cons c cs ih =>
      rw [segments] at h
      split at h
      next hempty =>
        obtain ⟨g', hlays⟩ := ih h
        exact ⟨g', .skip hempty hlays⟩
      next hrecords =>
        simp only [Except.bind_eq_ok, Except.pure_eq_ok, Prod.exists] at h
        obtain ⟨part, g₁, hpart, others, hothers, rfl⟩ := h
        obtain ⟨g', hlays⟩ := ih hothers
        exact ⟨g', .place hrecords hpart hlays⟩

namespace LaysOut

variable {config : Config} {area : Area} {g g₁ g₂ : Generator} {cs ds : List Component}
  {rs rs' : List Record}

/-- The state before components determines their records and the state after them. -/
theorem unique (h : LaysOut config area g cs rs g₁) (h' : LaysOut config area g cs rs' g₂) :
    rs = rs' ∧ g₁ = g₂ := by
  induction h generalizing rs' with
  | nil =>
      cases h'
      exact ⟨rfl, rfl⟩
  | skip hempty _ ih =>
      cases h' with
      | skip _ hlays => exact ih hlays
      | place hrecords _ _ => exact absurd hempty hrecords
  | place hrecords hpart _ ih =>
      cases h' with
      | skip hempty _ => exact absurd hempty hrecords
      | place _ hpart' hlays =>
          cases hpart.symm.trans hpart'
          obtain ⟨rfl, rfl⟩ := ih hlays
          exact ⟨rfl, rfl⟩

/-- Components at the end are placed from the state that those before them leave. -/
theorem split (h : LaysOut config area g (cs ++ ds) rs g₂) :
    ∃ rs₁ g₁ rs₂, LaysOut config area g cs rs₁ g₁ ∧ LaysOut config area g₁ ds rs₂ g₂ ∧
      rs = rs₁ ++ rs₂ := by
  induction cs generalizing g rs with
  | nil => exact ⟨[], g, rs, .nil, h, rfl⟩
  | cons c cs ih =>
      cases h with
      | skip hempty hlays =>
          obtain ⟨rs₁, g₁, rs₂, hfirst, hrest, rfl⟩ := ih hlays
          exact ⟨rs₁, g₁, rs₂, .skip hempty hfirst, hrest, rfl⟩
      | place hrecords hpart hlays =>
          obtain ⟨rs₁, g₁, rs₂, hfirst, hrest, rfl⟩ := ih hlays
          exact ⟨_, g₁, rs₂, .place hrecords hpart hfirst, hrest, (List.append_assoc _ _ _).symm⟩

/-- Components without records give no records and draw nothing. -/
theorem eq_nil_of_empty (h : LaysOut config area g cs rs g₁) (hempty : ∀ c ∈ cs, c.records = []) :
    rs = [] := by
  induction h with
  | nil => rfl
  | skip _ _ ih => exact ih fun c hc => hempty c (List.mem_cons_of_mem _ hc)
  | place hrecords _ _ _ => exact absurd (hempty _ List.mem_cons_self) hrecords

end LaysOut

/-! ## Extended contexts -/

/-- The second list is the first one with components without records put in between. -/
inductive Padded : List Component → List Component → Prop
  | nil : Padded [] []
  | keep (c : Component) {cs cs' : List Component} : Padded cs cs' → Padded (c :: cs) (c :: cs')
  | pad {c : Component} {cs cs' : List Component} :
      c.records = [] → Padded cs cs' → Padded cs (c :: cs')

/-- What is put in between does not change what is placed. -/
theorem Padded.laysOut {config : Config} {area : Area} {cs cs' : List Component}
    (hpadded : Padded cs cs') {g g' : Generator} {rs : List Record}
    (h : LaysOut config area g cs rs g') : LaysOut config area g cs' rs g' := by
  induction hpadded generalizing g rs with
  | nil => exact h
  | keep c _ ih =>
      cases h with
      | skip hempty hlays => exact .skip hempty (ih hlays)
      | place hrecords hpart hlays => exact .place hrecords hpart (ih hlays)
  | pad hempty _ ih => exact .skip hempty (ih h)

/-- Components without records at any place and further components at the end leave the
records of a document where they were, and further records come after them.  If no
component was added that has records, the document stays the same. -/
theorem ofContext_extends {ctx ctx' : Context} {padded appended : List Component}
    {s : ExportSettings} {d d' : Document} (hconfig : ctx'.config = ctx.config)
    (hpadded : Padded ctx.components padded) (hcomponents : ctx'.components = padded ++ appended)
    (h : ofContext ctx s = .ok d) (h' : ofContext ctx' s = .ok d') :
    d.records <+: d'.records ∧
      ((∀ c ∈ appended, c.records = []) → d.records = d'.records) := by
  obtain ⟨g₁, hlays⟩ := laysOut_of_segments (segments_of_ofContext h).2
  obtain ⟨g₂, hlays'⟩ := laysOut_of_segments (segments_of_ofContext h').2
  rw [hconfig, hcomponents] at hlays'
  obtain ⟨rs₁, g₃, rs₂, hfirst, hrest, hrecords⟩ := hlays'.split
  obtain ⟨rfl, rfl⟩ := (hpadded.laysOut hlays).unique hfirst
  rw [hrecords]
  refine ⟨List.prefix_append _ _, fun hempty => ?_⟩
  rw [hrest.eq_nil_of_empty hempty, List.append_nil]

/-- The component of `switches` between two without records, and a later one at the end. -/
def surroundedSwitches : Context :=
  Call.runAll
    [.register "Idle" 50 none, .register "Switches" 40 none, .edit 1 (.spawnOrder false),
      .edit 1 (.trigger 0.0 (.toggle (.group 41) true)),
      .edit 1 (.trigger 1.0 (.toggle (.group 42) true)),
      .register "Idle" 51 none, .register "Late" 52 none,
      .edit 3 (.trigger 2.0 (.toggle (.group 43) true))]
    (Context.ofConfig {})

theorem ofContext_extends_switches :
    ∃ d d', ofContext (switches false 0.0 1.0) {} = .ok d ∧
      ofContext surroundedSwitches {} = .ok d' ∧ d.records <+: d'.records := by
  have hcs : (switches false 0.0 1.0).components = [switchBoard false 0.0 1.0] := by decide +kernel
  have hcs' : surroundedSwitches.components =
      [{ name := "Idle", caller := 50, layer := 4 }, switchBoard false 0.0 1.0,
        { name := "Idle", caller := 51, layer := 4 }] ++
      [{ name := "Late", caller := 52, layer := 4,
         records := [{ switch 2.0 43 with groups := [52] }] }] := by decide +kernel
  have hpadded : Padded (switches false 0.0 1.0).components
      [{ name := "Idle", caller := 50, layer := 4 }, switchBoard false 0.0 1.0,
        { name := "Idle", caller := 51, layer := 4 }] :=
    hcs ▸ .pad rfl (.keep _ (.pad rfl .nil))
  obtain ⟨d, hd⟩ : ∃ d, ofContext (switches false 0.0 1.0) {} = .ok d :=
    exists_of_unordered (Reachable.runAll .new _).sound (by decide) (by decide +kernel)
      (by decide +kernel)
  obtain ⟨d', hd'⟩ : ∃ d, ofContext surroundedSwitches {} = .ok d :=
    exists_of_unordered (Reachable.runAll .new _).sound (by decide) (by decide +kernel)
      (by decide +kernel)
  have hconfig : surroundedSwitches.config = (switches false 0.0 1.0).config := by decide +kernel
  exact ⟨d, d', hd, hd', (ofContext_extends hconfig hpadded hcs' hd hd').1⟩

end Barrage.Document
