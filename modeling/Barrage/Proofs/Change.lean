import Mathlib.Logic.Relation
import Barrage.Keyframe
import Barrage.Proofs.Action
import Barrage.Proofs.Component

/-!
# How a context changes

Everything a compiler does to its components comes down to a few elementary
changes.  A component is registered, a group is issued, an accepted record is
appended, the last record gets further groups, or a component changes its
structure.  `Change A` is one of them, where `A` says which components may be
edited, and `Evolves A` is any number of them.  Spells, caches, warnings and the
log are not part of the picture: a change of them alone is a change that leaves
the components, the configuration and the issued groups as they are.

Each elementary operation follows this relation, whether it succeeds or fails.
So a property of components that survives every `Change` survives everything.
Two consequences are drawn here.  A component outside of `A` stays as it is
(`Extension.component`), and valid groups stay valid (`Evolves.valid`).
-/

namespace Barrage

/-! ## Elementary changes -/

/-- The record is one that can be appended to the component: it belongs to the
groups of the component, all its groups are valid, and its remap is clean. -/
structure Context.Accepts (ctx : Context) (c : Component) (r : Record) : Prop where
  groups : r.groups = c.recordGroups
  layer : r.layer = c.layer
  owners : ∀ g ∈ c.recordGroups, ctx.Valid g
  refs : ∀ g ∈ r.effect.groupRefs, ctx.Valid g
  remap : ∀ t ∈ r.effect.remap?, t.pairs ≠ [] ∧ ∀ p ∈ t.pairs, p.1 ≠ p.2

/-- One change of a context, which edits at most a component in `A`. -/
inductive Change (A : Nat → Prop) : Context → Context → Prop
  | register {ctx : Context} (name : String) (caller : Group) (layer : Option Nat) :
      Change A ctx (ctx.register name caller layer).2
  | issue {ctx : Context} : Change A ctx ctx.issueGroup.2
  | append {ctx : Context} {i : Nat} {c : Component} {r : Record} :
      A i → ctx.components[i]? = some c → ctx.Accepts c r → Change A ctx (ctx.append i r)
  /-- The last record gets further groups. -/
  | widen {ctx : Context} {i : Nat} {c : Component} {init : List Record} {last : Record}
      {extra : List Group} :
      A i → ctx.components[i]? = some c → c.records = init ++ [last] →
      (∀ g ∈ extra, ctx.Valid g) → extra.Nodup → (∀ g ∈ extra, g ∉ last.groups) →
      Change A ctx (ctx.setComponent i
        { c with records := init ++ [{ last with groups := last.groups ++ extra }] })
  /-- The demand for spawn order or the group context becomes another one. -/
  | reshape {ctx : Context} {i : Nat} {c : Component} (spawnOrder : Option Bool)
      (groups : Option (List Group)) :
      A i → ctx.components[i]? = some c →
      (groups = none ∨ groups = c.context ∨
        ∃ gs, groups = some gs ∧ (∀ g ∈ gs, ctx.Valid g) ∧ Component.checkGroups gs = .ok ()) →
      Change A ctx (ctx.setComponent i { c with spawnOrder, context := groups })
  /-- Something else than components and groups changes. -/
  | note {ctx ctx' : Context} :
      ctx'.config = ctx.config → ctx'.components = ctx.components →
      ctx'.nextUnknown = ctx.nextUnknown → Change A ctx ctx'

/-- Any number of changes. -/
def Evolves (A : Nat → Prop) : Context → Context → Prop := Relation.ReflTransGen (Change A)

/-! ## What stays -/

/-- What a context keeps while it evolves. -/
structure Extension (A : Nat → Prop) (ctx ctx' : Context) : Prop where
  config : ctx'.config = ctx.config
  nextUnknown : ctx.nextUnknown ≤ ctx'.nextUnknown
  /-- A component stays at its place.  It loses no record, and a component that is
  not in `A` stays as it is. -/
  component : ∀ j c, ctx.components[j]? = some c → ∃ c', ctx'.components[j]? = some c' ∧
    c'.caller = c.caller ∧ c.records.length ≤ c'.records.length ∧ (¬ A j → c' = c)

namespace Extension

variable {A : Nat → Prop}

theorem refl (ctx : Context) : Extension A ctx ctx :=
  ⟨rfl, Nat.le_refl _, fun _ c hc => ⟨c, hc, rfl, Nat.le_refl _, fun _ => rfl⟩⟩

theorem trans {ctx₁ ctx₂ ctx₃ : Context} (h₁ : Extension A ctx₁ ctx₂) (h₂ : Extension A ctx₂ ctx₃) :
    Extension A ctx₁ ctx₃ := by
  refine ⟨h₂.config.trans h₁.config, Nat.le_trans h₁.nextUnknown h₂.nextUnknown, ?_⟩
  intro j c hc
  obtain ⟨c', hc', hcaller', hlen', heq'⟩ := h₁.component j c hc
  obtain ⟨c'', hc'', hcaller'', hlen'', heq''⟩ := h₂.component j c' hc'
  exact ⟨c'', hc'', hcaller''.trans hcaller', Nat.le_trans hlen' hlen'',
    fun hA => (heq'' hA).trans (heq' hA)⟩

/-- Replacing one component by one with the same caller and at least as many
records extends a context. -/
theorem setComponent {ctx : Context} {i : Nat} {c c' : Component} (hi : A i)
    (hc : ctx.components[i]? = some c) (hcaller : c'.caller = c.caller)
    (hlen : c.records.length ≤ c'.records.length) : Extension A ctx (ctx.setComponent i c') := by
  have hlt : i < ctx.components.length := (List.getElem?_eq_some_iff.1 hc).1
  refine ⟨rfl, Nat.le_refl _, fun j d hd => ?_⟩
  by_cases hji : i = j
  · subst hji
    obtain rfl : c = d := Option.some.inj (hc.symm.trans hd)
    exact ⟨c', List.getElem?_set_self hlt, hcaller, hlen, fun hA => absurd hi hA⟩
  · refine ⟨d, ?_, rfl, Nat.le_refl _, fun _ => rfl⟩
    rw [← hd]
    exact List.getElem?_set_ne hji

end Extension

theorem Component.modify_eq_set {components : List Component} {i : Nat} {c : Component}
    (f : Component → Component) (hc : components[i]? = some c) :
    components.modify i f = components.set i (f c) := by
  have hlt : i < components.length := (List.getElem?_eq_some_iff.1 hc).1
  refine List.ext_getElem? fun j => ?_
  by_cases hij : i = j
  · subst hij
    rw [List.getElem?_modify_eq, hc, List.getElem?_set_self hlt]
    rfl
  · rw [List.getElem?_modify_ne _ _ hij, List.getElem?_set_ne hij]

theorem Component.modify_push {components : List Component} {i : Nat} {c : Component} (r : Record)
    (hc : components[i]? = some c) :
    components.modify i (·.push r) = components.set i (c.push r) := modify_eq_set (·.push r) hc

theorem Component.getElem?_set_cases {cs : List Component} {i j : Nat} {c d : Component}
    (h : (cs.set i c)[j]? = some d) : i = j ∧ d = c ∨ cs[j]? = some d := by
  by_cases hij : i = j
  · subst hij
    obtain ⟨_, rfl⟩ := List.getElem?_eq_some_iff.1 h
    exact Or.inl ⟨rfl, List.getElem_set_self _⟩
  · rw [List.getElem?_set_ne hij] at h
    exact Or.inr h

theorem Context.append_eq_setComponent {ctx : Context} {i : Nat} {c : Component} (r : Record)
    (hc : ctx.components[i]? = some c) : ctx.append i r = ctx.setComponent i (c.push r) := by
  simp only [Context.append, Context.setComponent, Component.modify_push r hc]

theorem Change.extension {A : Nat → Prop} {ctx ctx' : Context} (h : Change A ctx ctx') :
    Extension A ctx ctx' := by
  cases h with
  | register name caller layer =>
      refine ⟨rfl, Nat.le_refl _, fun j c hc => ⟨c, ?_, rfl, Nat.le_refl _, fun _ => rfl⟩⟩
      have hj : j < ctx.components.length := (List.getElem?_eq_some_iff.1 hc).1
      rw [← hc]
      exact List.getElem?_append_left hj
  | issue =>
      exact ⟨rfl, Nat.le_succ _, fun _ c hc => ⟨c, hc, rfl, Nat.le_refl _, fun _ => rfl⟩⟩
  | append hi hc hr =>
      rw [Context.append_eq_setComponent _ hc]
      exact .setComponent hi hc rfl (by simp [Component.push])
  | widen hi hc hrec _ _ _ => exact .setComponent hi hc rfl (by simp [hrec])
  | reshape _ _ hi hc _ => exact .setComponent hi hc rfl (Nat.le_refl _)
  | note hconfig hcomponents hnext =>
      refine ⟨hconfig, Nat.le_of_eq hnext.symm, fun j c hc => ?_⟩
      exact ⟨c, hcomponents ▸ hc, rfl, Nat.le_refl _, fun _ => rfl⟩

namespace Evolves

variable {A : Nat → Prop} {ctx ctx' : Context}

theorem refl (ctx : Context) : Evolves A ctx ctx := Relation.ReflTransGen.refl

theorem step {ctx'' : Context} (h : Evolves A ctx ctx') (hs : Change A ctx' ctx'') :
    Evolves A ctx ctx'' := .tail h hs

theorem extension (h : Evolves A ctx ctx') : Extension A ctx ctx' := by
  induction h with
  | refl => exact .refl ctx
  | tail _ hs ih => exact ih.trans hs.extension

theorem length_le (h : Evolves A ctx ctx') :
    ctx.components.length ≤ ctx'.components.length := by
  cases hn : ctx.components.length with
  | zero => exact Nat.zero_le _
  | succ n =>
      have hlt : n < ctx.components.length := by omega
      obtain ⟨c', hc', -⟩ := h.extension.component n _ (List.getElem?_eq_getElem hlt)
      have := (List.getElem?_eq_some_iff.1 hc').1
      omega

theorem valid (h : Evolves A ctx ctx') {g : Group} (hg : ctx.Valid g) : ctx'.Valid g :=
  hg.mono h.extension.config h.extension.nextUnknown

end Evolves

/-- A property that every change keeps holds after any number of them. -/
theorem Evolves.keeps {A : Nat → Prop} {P : Context → Prop}
    (hP : ∀ {ctx ctx'}, Change A ctx ctx' → P ctx → P ctx') {ctx ctx' : Context}
    (h : Evolves A ctx ctx') (hctx : P ctx) : P ctx' := by
  induction h with
  | refl => exact hctx
  | tail _ hs ih => exact hP hs ih

/-! ## Operations follow changes -/

namespace Context

/-- A placed record is accepted if the groups of its effect other than the target
are valid and its remap is clean. -/
theorem accepts_of_place {ctx : Context} {c : Component} {time : Float} {e : Effect} {r : Record}
    (h : ctx.place c time e = .ok r) (hrefs : ∀ g ∈ e.groupRefs, g ∈ e.target? ∨ ctx.Valid g)
    (hremap : ∀ t ∈ e.remap?, t.pairs ≠ [] ∧ ∀ p ∈ t.pairs, p.1 ≠ p.2) : ctx.Accepts c r := by
  obtain ⟨htarget, -, howners, rfl⟩ := place_eq_ok.1 h
  exact ⟨rfl, rfl, howners, fun g hg => (hrefs g hg).elim (htarget g) id, hremap⟩

theorem accepts_of_draft {ctx : Context} {i : Nat} {time : Float} {a : Action} {r : Record}
    (h : ctx.draft i time a = .ok r) : ∃ c, ctx.components[i]? = some c ∧ ctx.Accepts c r := by
  obtain ⟨c, e, hc, he, hr⟩ := draft_eq_ok.1 h
  refine ⟨c, hc, accepts_of_place hr (Action.valid_of_effect he) ?_⟩
  intro t ht
  exact (Action.remap_of_effect he ht).2

/-- A new component has the group that runs it, and no records. -/
theorem getElem?_register_cases {ctx : Context} {name : String} {g : Group}
    {layer : Option Nat} {j : Nat} {d : Component}
    (h : (ctx.register name g layer).2.components[j]? = some d) :
    ctx.components[j]? = some d ∨
      ctx.components.length ≤ j ∧ d.context = none ∧ d.recordGroups = [g] ∧ d.records = [] := by
  rcases Nat.lt_or_ge j ctx.components.length with hj | hj
  · exact Or.inl ((List.getElem?_append_left hj).symm.trans h)
  · have hmem := List.mem_of_getElem? ((List.getElem?_append_right hj).symm.trans h)
    cases List.mem_singleton.1 hmem
    exact Or.inr ⟨hj, rfl, rfl, rfl⟩

/-- An accepted action appends a record with the groups of its component. -/
theorem components_of_perform {i : Nat} {time : Float} {a : Action} {ctx ctx' : Context}
    (h : perform i time a ctx = (.ok (), ctx')) :
    ∃ c r, ctx.components[i]? = some c ∧ a.effect ctx = .ok r.effect ∧ r.groups = c.recordGroups ∧
      ctx'.components = ctx.components.set i (c.push r) ∧ ctx'.bases = ctx.bases ∧
      ctx'.nextUnknown = ctx.nextUnknown := by
  obtain ⟨r, hr, rfl⟩ := perform_eq_ok.1 h
  obtain ⟨c, hc, haccepts⟩ := accepts_of_draft hr
  exact ⟨c, r, hc, effect_of_draft hr, haccepts.groups, Component.modify_push r hc, rfl, rfl⟩

end Context

namespace Evolves

open Build Context

variable {A : Nat → Prop} {ctx₀ : Context}

theorem note {ctx ctx' : Context} (h : Evolves A ctx₀ ctx) (hconfig : ctx'.config = ctx.config)
    (hcomponents : ctx'.components = ctx.components) (hnext : ctx'.nextUnknown = ctx.nextUnknown) :
    Evolves A ctx₀ ctx' :=
  h.step (.note hconfig hcomponents hnext)

theorem perform {i : Nat} (hi : A i) (time : Float) (a : Action) :
    Keeps (Evolves A ctx₀) (Context.perform i time a) := by
  intro ctx h
  rcases hrun : Context.perform i time a ctx with ⟨e | _, ctx'⟩
  · obtain ⟨-, rfl⟩ := perform_eq_error.1 hrun
    exact h
  · obtain ⟨r, hr, rfl⟩ := perform_eq_ok.1 hrun
    obtain ⟨c, hc, haccepts⟩ := accepts_of_draft hr
    exact (h.step (.append hi hc haccepts)).note rfl rfl rfl

/-- Inscribed effects name no group but their target, and have no remap. -/
theorem inscribe {i : Nat} (hi : A i) (time : Float) {e : Effect}
    (hrefs : ∀ g ∈ e.groupRefs, g ∈ e.target?) (hremap : e.remap? = none) :
    Keeps (Evolves A ctx₀) (Context.inscribe i time e) := by
  intro ctx h
  rcases hrun : Context.inscribe i time e ctx with ⟨err | _, ctx'⟩
  · rw [inscribe_eq_error hrun]
    exact h
  · obtain ⟨c, r, hc, hr, rfl⟩ := inscribe_eq_ok.1 hrun
    refine h.step (.append hi hc (accepts_of_place hr (fun g hg => Or.inl (hrefs g hg)) ?_))
    simp [hremap]

theorem assertSpawnOrder {i : Nat} (hi : A i) (required : Bool) :
    Keeps (Evolves A ctx₀) (Context.assertSpawnOrder i required) := by
  intro ctx h
  rcases hrun : Context.assertSpawnOrder i required ctx with ⟨e | _, ctx'⟩
  · rw [assertSpawnOrder_eq_error hrun]
    exact h
  · obtain ⟨c, hc, rfl⟩ := assertSpawnOrder_eq_ok.1 hrun
    exact h.step (.reshape (some required) c.context hi hc (Or.inr (Or.inl rfl)))

theorem startGroupContext {i : Nat} (hi : A i) (gs : List Group) :
    Keeps (Evolves A ctx₀) (Context.startGroupContext i gs) := by
  intro ctx h
  rcases hrun : Context.startGroupContext i gs ctx with ⟨e | _, ctx'⟩
  · rw [startGroupContext_eq_error hrun]
    exact h
  · obtain ⟨c, hc, hvalid, -, hcheck, rfl⟩ := startGroupContext_eq_ok.1 hrun
    exact h.step (.reshape c.spawnOrder (some gs) hi hc (Or.inr (Or.inr ⟨gs, rfl, hvalid, hcheck⟩)))

theorem endGroupContext {i : Nat} (hi : A i) :
    Keeps (Evolves A ctx₀) (Context.endGroupContext i) := by
  intro ctx h
  rcases hrun : Context.endGroupContext i ctx with ⟨e | _, ctx'⟩
  · rw [endGroupContext_eq_error hrun]
    exact h
  · obtain ⟨c, hc, -, rfl⟩ := endGroupContext_eq_ok.1 hrun
    exact h.step (.reshape c.spawnOrder none hi hc (Or.inl rfl))

theorem groupLastRecord {i : Nat} (hi : A i) (gs : List Group) :
    Keeps (Evolves A ctx₀) (Context.groupLastRecord i gs) := by
  intro ctx h
  rcases groupLastRecord_snd ctx i gs with heq | ⟨c, hc, hvalid, heq⟩
  · rw [heq]
    exact h
  · rw [heq]
    rcases c.groupLast_snd gs with hsame | ⟨init, last, extra, hrec, hpre, hnodup, hnew, hwide⟩
    · rw [hsame]
      exact h.step (.reshape c.spawnOrder c.context hi hc (Or.inr (Or.inl rfl)))
    · rw [hwide]
      exact h.step (.widen hi hc hrec (fun g hg => hvalid g (hpre.subset hg)) hnodup hnew)

theorem register (name : String) (caller : Group) (layer : Option Nat) :
    Keeps (Evolves A ctx₀) (update fun ctx => ctx.register name caller layer) :=
  Keeps.update fun _ h => h.step (.register name caller layer)

theorem issueGroup : Keeps (Evolves A ctx₀) (update Context.issueGroup) :=
  Keeps.update fun _ h => h.step .issue

end Evolves

theorem Context.evolves_of_perform {ctx ctx' : Context} {i : Nat} {time : Float} {a : Action}
    {result : Except BuildError Unit} (h : perform i time a ctx = (result, ctx')) :
    Evolves (fun _ => True) ctx ctx' :=
  (Evolves.perform trivial time a).of_run h (.refl ctx)

end Barrage
