import Barrage.Proofs.Call
import Barrage.Proofs.Record

/-!
# Records are valid

Every record of every component that a run builds is in order
(`Record.WellFormed`): the groups it names and the groups it belongs to are valid
in the current context, the first of the latter runs the component, a remap
stands on spawns only and is the text of a clean table, and the fields that every
trigger needs are there.

Records are read through their fields, as a document shows them.  The invariant
behind it speaks of effects (`Record.Sound`).  It survives each elementary change
of a context, since groups stay valid when further groups are issued, and so it
survives every call.
-/

namespace Barrage

/-! ## Well-formed records -/

/-- A record of a component is in order, as its fields show it. -/
structure Record.WellFormed (ctx : Context) (c : Component) (r : Record) : Prop where
  /-- The groups that it names are valid. -/
  refs : ∀ f ∈ Field.groupValued, ∀ v, r.field? f = some v →
    ∃ g, v = .group g ∧ ctx.validateGroup g = .ok ()
  /-- The groups that it belongs to are valid, and the first runs the component. -/
  groups : ∃ rest, r.field? Field.groups = some (.groups (c.caller :: rest)) ∧
    ∀ g ∈ c.caller :: rest, ctx.validateGroup g = .ok ()
  /-- Only a spawn has a remap, which is the text of a clean table. -/
  remap : ∀ v, r.field? Field.remap = some v → r.kind = .spawn ∧
    ∃ t : Remap, v = .text t.wire ∧ t.pairs ≠ [] ∧ t.sources.Nodup ∧ ∀ p ∈ t.pairs, p.1 ≠ p.2
  layer : ∃ n : Nat, r.field? Field.layer = some (.int n)
  spawnTriggered : r.field? Field.spawnTriggered = some (.bool true)
  multiTriggered : r.field? Field.multiTriggered = some (.bool true)

/-- The same about the effect and the groups of a record. -/
structure Record.Sound (ctx : Context) (c : Component) (r : Record) : Prop where
  caller : ∃ rest, r.groups = c.caller :: rest
  owners : ∀ g ∈ r.groups, ctx.Valid g
  refs : ∀ g ∈ r.effect.groupRefs, ctx.Valid g
  remap : ∀ t ∈ r.effect.remap?, t.pairs ≠ [] ∧ ∀ p ∈ t.pairs, p.1 ≠ p.2

namespace Record.Sound

variable {ctx ctx' : Context} {c c' : Component} {r : Record}

theorem wellFormed (h : r.Sound ctx c) : r.WellFormed ctx c := by
  refine ⟨?_, ?_, ?_, ⟨r.layer, ?_⟩, ?_, ?_⟩
  · intro f hf v hv
    obtain ⟨g, hg, rfl⟩ :=
      Effect.group_of_field
        ((field?_eq_some_of_not_common (Field.not_common_of_groupValued f hf)).1 hv) hf
    exact ⟨g, rfl, h.refs g hg⟩
  · obtain ⟨rest, hrest⟩ := h.caller
    refine ⟨rest, ?_, fun g hg => h.owners g (hrest ▸ hg)⟩
    rw [← hrest]
    exact field?_of_common (by simp [commonFields])
  · intro v hv
    obtain ⟨t, ht, rfl⟩ :=
      Effect.remap_of_field ((field?_eq_some_of_not_common (by decide)).1 hv)
    obtain ⟨hne, hclean⟩ := h.remap t ht
    refine ⟨?_, t, rfl, hne, t.distinct, hclean⟩
    rw [Record.kind]
    cases he : r.effect <;> simp [he, Effect.remap?] at ht ⊢
    rfl
  all_goals
    exact field?_of_common (by simp [commonFields])

/-- A record stays sound while groups are issued and its component keeps its
caller. -/
theorem mono (h : r.Sound ctx c) (hvalid : ∀ g, ctx.Valid g → ctx'.Valid g)
    (hcaller : c'.caller = c.caller) : r.Sound ctx' c' :=
  ⟨hcaller ▸ h.caller, fun g hg => hvalid g (h.owners g hg), fun g hg => hvalid g (h.refs g hg),
    h.remap⟩

end Record.Sound

theorem Context.Accepts.sound {ctx : Context} {c : Component} {r : Record}
    (h : ctx.Accepts c r) : r.Sound ctx c := by
  refine ⟨⟨c.context.getD [], h.groups⟩, ?_, h.refs, h.remap⟩
  rw [h.groups]
  exact h.owners

/-! ## Runs -/

/-- Every record of the context is sound. -/
def Context.Sound (ctx : Context) : Prop := ∀ c ∈ ctx.components, ∀ r ∈ c.records, r.Sound ctx c

namespace Context.Sound

variable {ctx ctx' : Context}

theorem ofConfig (config : Config) : (Context.ofConfig config).Sound := fun _ hc => nomatch hc

/-- Components may stay as they are while groups are issued. -/
theorem mono (h : ctx.Sound) (hcomponents : ctx'.components = ctx.components)
    (hvalid : ∀ g, ctx.Valid g → ctx'.Valid g) : ctx'.Sound := by
  intro c hc r hr
  rw [hcomponents] at hc
  exact (h c hc r hr).mono hvalid rfl

theorem setComponent (h : ctx.Sound) {i : Nat} {c : Component}
    (hc : ∀ r ∈ c.records, r.Sound ctx c) : (ctx.setComponent i c).Sound := by
  intro d hd r hr
  rcases List.mem_or_eq_of_mem_set hd with hd | rfl
  · exact (h d hd r hr).mono (fun _ hg => hg) rfl
  · exact (hc r hr).mono (fun _ hg => hg) rfl

/-- Every elementary change keeps records sound. -/
theorem change {A : Nat → Prop} (hstep : Change A ctx ctx') (h : ctx.Sound) : ctx'.Sound := by
  have hvalid : ∀ g, ctx.Valid g → ctx'.Valid g := fun g hg =>
    hg.mono hstep.extension.config hstep.extension.nextUnknown
  cases hstep with
  | register name caller layer =>
      intro c hc r hr
      rcases List.mem_append.1 hc with hc | hc
      · exact (h c hc r hr).mono hvalid rfl
      · -- The new component has no records.
        cases List.mem_singleton.1 hc
        cases hr
  | issue => exact h.mono rfl hvalid
  | @append i c r hi hc hr =>
      rw [Context.append_eq_setComponent _ hc]
      refine h.setComponent fun r' hr' => ?_
      rcases List.mem_append.1 hr' with hr' | hr'
      · exact (h c (List.mem_of_getElem? hc) r' hr').mono (fun _ hg => hg) rfl
      · cases List.mem_singleton.1 hr'
        exact hr.sound.mono (fun _ hg => hg) rfl
  | @widen i c init last extra hi hc hrec hextra _ _ =>
      have hold : ∀ r ∈ init ++ [last], r.Sound ctx c := fun r hr =>
        h c (List.mem_of_getElem? hc) r (hrec ▸ hr)
      refine h.setComponent fun r hr => ?_
      rcases List.mem_append.1 hr with hr | hr
      · exact (hold r (List.mem_append_left _ hr)).mono (fun _ hg => hg) rfl
      · cases List.mem_singleton.1 hr
        obtain ⟨⟨rest, hrest⟩, howners, hrefs, hremap⟩ := hold last (by simp)
        refine ⟨⟨rest ++ extra, by simp [hrest]⟩, fun g hg => ?_, hrefs, hremap⟩
        exact (List.mem_append.1 hg).elim (howners g) (hextra g)
  | @reshape i c spawnOrder groups hi hc _ =>
      exact h.setComponent fun r hr =>
        (h c (List.mem_of_getElem? hc) r hr).mono (fun _ hg => hg) rfl
  | note hconfig hcomponents hnext => exact h.mono hcomponents hvalid

theorem call (h : ctx.Sound) (k : Call) : (k.run ctx).Sound :=
  (k.evolves ctx).keeps (P := Context.Sound) change h

end Context.Sound

theorem Run.sound {ok : Context → Call → Prop} {ctx : Context} (h : Run ok ctx) : ctx.Sound :=
  h.holds (fun config _ => .ofConfig config) fun k _ hsound => hsound.call k

/-- In every context that a run reaches, every record of every component is in
order. -/
theorem records_wellFormed {ctx : Context} (h : Reachable ctx) :
    ∀ c ∈ ctx.components, ∀ r ∈ c.records, r.WellFormed ctx c :=
  fun c hc r hr => (h.sound c hc r hr).wellFormed

/-- A component that is scaled up and back, after which a further edit is refused. -/
def scaledBoss : Context :=
  Call.runAll
    [.register "Boss" 36 none, .scale 0 1.0 40 { factor := 2.0, reverse := true },
      .edit 0 (.trigger 2.0 (.toggle (.group 3) true)), .groupLastRecord 0 [50, 51]]
    (Context.ofConfig {})

theorem records_wellFormed_scaledBoss :
    Reachable scaledBoss ∧ (scaledBoss.components.map fun c => c.records.length) = [1, 2] ∧
      ∀ c ∈ scaledBoss.components, ∀ r ∈ c.records, r.WellFormed scaledBoss c := by
  have hreachable : Reachable scaledBoss := Reachable.runAll .new _
  exact ⟨hreachable, by decide +kernel, records_wellFormed hreachable⟩

end Barrage
