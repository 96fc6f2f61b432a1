import Mathlib.Data.List.Induction
import Barrage.Proofs.Call

/-!
# Who owns a record

A record belongs to the group that runs its component, then to the groups of the
group context that was open when it was appended, and then to those that it got
while it was the last record.  Groups may not repeat, but each step looks for
repetitions in a list of its own.  A group context is checked in itself
(`Component.checkGroups_eq_ok`).  Further groups are checked against all the groups of
the record (`Component.addGroups_append`).  Nothing checks a group context against the
group that runs the component.

So a record can belong to that group twice, and to no other group.  It does if and
only if it was appended while a group context was open that names the group
(`record_owners`).  The call that appended a record is one of the calls of the run:
the first after which there is a record at its place.

The proof looks at one call.  A record that was there before the call keeps its
groups and may get new ones, and any other record belongs to what its component had
open before the call (`Call.follows`).  For everything but the opening and closing of
group contexts and the widening of the last record this holds because components
only grow (`Context.Grown`).
-/

namespace Barrage

open Build

/-! ## Repeated groups -/

namespace Component

/-- The open group context names the group that runs the component. -/
def NamesCaller (c : Component) : Prop := c.caller ∈ c.context.getD []

theorem nodup_recordGroups {c : Component} (h : (c.context.getD []).Nodup) :
    c.recordGroups.Nodup ↔ ¬ c.NamesCaller := by
  rw [recordGroups, List.nodup_cons]
  exact and_iff_left h

end Component

/-- All groups but the one that runs the component occur once, both in the open group
context and in the groups of each record. -/
structure Component.Tidy (c : Component) : Prop where
  context : (c.context.getD []).Nodup
  records : ∀ r ∈ c.records, ∃ others, r.groups = c.caller :: others ∧ others.Nodup

namespace Component.Tidy

variable {c : Component}

theorem push (h : c.Tidy) {r : Record} (hr : r.groups = c.recordGroups) : (c.push r).Tidy := by
  refine ⟨h.context, fun r' hr' => ?_⟩
  rcases List.mem_append.1 hr' with hr' | hr'
  · exact h.records r' hr'
  · cases List.mem_singleton.1 hr'
    exact ⟨_, hr, h.context⟩

theorem widen (h : c.Tidy) {init : List Record} {last : Record} {extra : List Group}
    (hc : c.records = init ++ [last]) (hnodup : extra.Nodup) (hnew : ∀ g ∈ extra, g ∉ last.groups) :
    { c with records := init ++ [{ last with groups := last.groups ++ extra }] }.Tidy := by
  refine ⟨h.context, fun r hr => ?_⟩
  rcases List.mem_append.1 hr with hr | hr
  · exact h.records r (by simp [hc, hr])
  · cases List.mem_singleton.1 hr
    obtain ⟨others, hgroups, hothers⟩ := h.records last (by simp [hc])
    refine ⟨others ++ extra, by simp [hgroups], List.nodup_append.2 ⟨hothers, hnodup, ?_⟩⟩
    rintro g hg _ hg' rfl
    exact hnew g hg' (by simp [hgroups, hg])

end Component.Tidy

/-- Every elementary change keeps components tidy. -/
theorem Change.tidy {A : Nat → Prop} {ctx ctx' : Context} (hstep : Change A ctx ctx')
    (h : ∀ c ∈ ctx.components, c.Tidy) : ∀ c ∈ ctx'.components, c.Tidy := by
  have hset : ∀ {i d}, d.Tidy → ∀ c ∈ (ctx.setComponent i d).components, c.Tidy := by
    intro i d hd c hc
    rcases List.mem_or_eq_of_mem_set hc with hc | rfl
    · exact h c hc
    · exact hd
  cases hstep with
  | register name caller layer =>
      intro c hc
      rcases List.mem_append.1 hc with hc | hc
      · exact h c hc
      · cases List.mem_singleton.1 hc
        exact ⟨List.nodup_nil, by simp⟩
  | issue => exact h
  | @append i c r hi hc hr =>
      rw [Context.append_eq_setComponent _ hc]
      exact hset ((h c (List.mem_of_getElem? hc)).push hr.groups)
  | @widen i c init last extra hi hc hrecords _ hnodup hnew =>
      exact hset ((h c (List.mem_of_getElem? hc)).widen hrecords hnodup hnew)
  | @reshape i c spawnOrder groups hi hc hgroups =>
      have htidy := h c (List.mem_of_getElem? hc)
      refine hset ⟨?_, htidy.records⟩
      rcases hgroups with rfl | rfl | ⟨gs, rfl, -, hcheck⟩
      · exact List.nodup_nil
      · exact htidy.context
      · exact (Component.checkGroups_eq_ok.1 hcheck).2
  | note _ hcomponents _ => exact hcomponents ▸ h

theorem Call.tidy_runAll (ks : List Call) (config : Config) :
    ∀ c ∈ (runAll ks (Context.ofConfig config)).components, c.Tidy :=
  runAll_keeps (P := fun ctx => ∀ c ∈ ctx.components, c.Tidy) Change.tidy ks fun _ hc => nomatch hc

/-! ## Where a component comes from -/

/-- The component at a place of a context.  At a place that is free it is one that was
just registered. -/
def Context.Origin (ctx : Context) (i : Nat) (c : Component) : Prop :=
  ctx.components[i]? = some c ∨
    ctx.components[i]? = none ∧ c.context = none ∧ c.records = []

/-- Every component of the second context is related to its origin in the first. -/
def Context.Follows (R : Component → Component → Prop) (ctx ctx' : Context) : Prop :=
  ∀ i c', ctx'.components[i]? = some c' → ∃ c, ctx.Origin i c ∧ R c c'

/-- New records belong to the groups that the component has for them. -/
structure Component.Grows (c c' : Component) : Prop where
  caller : c'.caller = c.caller
  context : c'.context = c.context
  records : ∃ added, c'.records = c.records ++ added ∧ ∀ r ∈ added, r.groups = c.recordGroups

namespace Component.Grows

variable {c c' c'' : Component}

theorem refl (c : Component) : c.Grows c := ⟨rfl, rfl, [], by simp⟩

theorem trans (h : c.Grows c') (h' : c'.Grows c'') : c.Grows c'' := by
  obtain ⟨added, hrecords, hgroups⟩ := h.records
  obtain ⟨added', hrecords', hgroups'⟩ := h'.records
  refine ⟨h'.caller.trans h.caller, h'.context.trans h.context, added ++ added', ?_, ?_⟩
  · rw [hrecords', hrecords, List.append_assoc]
  · have hsame : c'.recordGroups = c.recordGroups := by
      rw [recordGroups, recordGroups, h.caller, h.context]
    intro r hr
    exact (List.mem_append.1 hr).elim (hgroups r) fun hr => (hgroups' r hr).trans hsame

theorem push {r : Record} (hr : r.groups = c.recordGroups) : c.Grows (c.push r) :=
  ⟨rfl, rfl, [r], rfl, by simpa using hr⟩

end Component.Grows

/-- Components grew, and others were registered. -/
structure Context.Grown (ctx ctx' : Context) : Prop where
  length : ctx.components.length ≤ ctx'.components.length
  component : ctx.Follows Component.Grows ctx'

namespace Context.Grown

variable {ctx₀ ctx ctx' : Context}

theorem refl (ctx : Context) : ctx.Grown ctx :=
  ⟨Nat.le_refl _, fun _ c hc => ⟨c, Or.inl hc, .refl c⟩⟩

theorem note (h : ctx₀.Grown ctx) (hcomponents : ctx'.components = ctx.components) :
    ctx₀.Grown ctx' :=
  ⟨hcomponents ▸ h.length, fun i c hc => h.component i c (hcomponents ▸ hc)⟩

theorem set (h : ctx₀.Grown ctx) {i : Nat} {c c' : Component} (hc : ctx.components[i]? = some c)
    (hgrows : c.Grows c') (hset : ctx'.components = ctx.components.set i c') : ctx₀.Grown ctx' := by
  refine ⟨by simpa [hset] using h.length, fun j d hd => ?_⟩
  rw [hset] at hd
  rcases Component.getElem?_set_cases hd with ⟨rfl, rfl⟩ | hd
  · obtain ⟨c₀, horigin, hgrows₀⟩ := h.component i c hc
    exact ⟨c₀, horigin, hgrows₀.trans hgrows⟩
  · exact h.component j d hd

theorem register (name : String) (g : Group) (layer : Option Nat) :
    Keeps ctx₀.Grown (Build.update fun ctx => ctx.register name g layer) := by
  intro ctx h
  have hlength : ctx.components.length ≤ (ctx.register name g layer).2.components.length := by
    simp [Context.register, log]
  refine ⟨Nat.le_trans h.length hlength, fun j d hd => ?_⟩
  rcases getElem?_register_cases hd with hd | ⟨hj, hcontext, -, hrecords⟩
  · exact h.component j d hd
  · have hfree := List.getElem?_eq_none (Nat.le_trans h.length hj)
    exact ⟨d, Or.inr ⟨hfree, hcontext, hrecords⟩, .refl d⟩

theorem perform (i : Nat) (time : Float) (a : Action) :
    Keeps ctx₀.Grown (Context.perform i time a) := by
  intro ctx h
  rcases hrun : Context.perform i time a ctx with ⟨e | _, ctx'⟩
  · obtain ⟨-, rfl⟩ := perform_eq_error.1 hrun
    exact h
  · obtain ⟨c, r, hc, -, hgroups, hset, -, -⟩ := components_of_perform hrun
    exact h.set hc (.push hgroups) hset

theorem inscribe (i : Nat) (time : Float) (e : Effect) :
    Keeps ctx₀.Grown (Context.inscribe i time e) := by
  intro ctx h
  rcases hrun : Context.inscribe i time e ctx with ⟨err | _, ctx'⟩
  · rw [inscribe_eq_error hrun]
    exact h
  · obtain ⟨c, r, hc, hplace, rfl⟩ := inscribe_eq_ok.1 hrun
    obtain ⟨-, -, -, rfl⟩ := place_eq_ok.1 hplace
    exact h.set hc (.push rfl) (Component.modify_push _ hc)

theorem assertSpawnOrder (i : Nat) (required : Bool) :
    Keeps ctx₀.Grown (Context.assertSpawnOrder i required) := by
  intro ctx h
  rcases hrun : Context.assertSpawnOrder i required ctx with ⟨e | _, ctx'⟩
  · rw [assertSpawnOrder_eq_error hrun]
    exact h
  · obtain ⟨c, hc, rfl⟩ := assertSpawnOrder_eq_ok.1 hrun
    have hgrows : c.Grows { c with spawnOrder := some required } := ⟨rfl, rfl, [], by simp⟩
    exact h.set hc hgrows rfl

theorem elements : Elements ctx₀.Grown fun _ => True where
  fresh _ _ := trivial
  issueGroup _ h := h.note rfl
  register := register
  assertSpawnOrder {i} _ := assertSpawnOrder i
  perform {i} _ := perform i
  inscribe {i} _ time s divide := inscribe i time (s.effect divide)
  note h _ hcomponents _ _ _ _ := h.note hcomponents

theorem keepBases (b : Bases) : Keeps ctx₀.Grown (Context.keepBases b) :=
  .change fun _ h => h.note rfl

theorem ingredients (caller : Nat) : Ingredients ctx₀.Grown caller :=
  elements.ingredients keepBases trivial

end Context.Grown

/-! ## What a call does to records -/

/-- The record may have got further groups, which are new to it. -/
def Record.Widens (r r' : Record) : Prop :=
  ∃ extra, r'.groups = r.groups ++ extra ∧ extra.Nodup ∧ ∀ g ∈ extra, g ∉ r.groups

theorem Record.Widens.refl (r : Record) : r.Widens r := ⟨[], by simp⟩

theorem Record.Widens.nodup {r r' : Record} (h : r.Widens r') :
    r'.groups.Nodup ↔ r.groups.Nodup := by
  obtain ⟨extra, hgroups, hextra, hnew⟩ := h
  rw [hgroups, List.nodup_append]
  refine ⟨And.left, fun hr => ⟨hr, hextra, ?_⟩⟩
  rintro g hg _ hg' rfl
  exact hnew g hg' hg

/-- Every record was there, and may have been widened, or it is new and belongs to the
groups that the component had for it. -/
def Component.Continues (c c' : Component) : Prop :=
  ∀ (j : Nat) (r' : Record), c'.records[j]? = some r' →
    (∃ r, c.records[j]? = some r ∧ r.Widens r') ∨
      c.records[j]? = none ∧ r'.groups = c.recordGroups

namespace Component

variable {c c' : Component}

theorem Continues.of_records (h : c'.records = c.records) : c.Continues c' :=
  fun _ r hr => Or.inl ⟨r, h ▸ hr, .refl r⟩

theorem Grows.continues (h : c.Grows c') : c.Continues c' := by
  obtain ⟨added, hrecords, hgroups⟩ := h.records
  intro j r hr
  rw [hrecords] at hr
  rcases Nat.lt_or_ge j c.records.length with hj | hj
  · rw [List.getElem?_append_left hj] at hr
    exact Or.inl ⟨r, hr, .refl r⟩
  · rw [List.getElem?_append_right hj] at hr
    exact Or.inr ⟨List.getElem?_eq_none hj, hgroups r (List.mem_of_getElem? hr)⟩

theorem groupLast_continues (c : Component) (gs : List Group) :
    c.Continues (c.groupLast gs).2 := by
  rcases c.groupLast_snd gs with hsame | ⟨init, last, extra, hc, -, hnodup, hnew, hlast⟩
  · exact .of_records (by rw [hsame])
  · intro j r hr
    rw [hlast] at hr
    rcases Nat.lt_or_ge j init.length with hj | hj
    · refine Or.inl ⟨r, ?_, .refl r⟩
      rw [hc, List.getElem?_append_left hj]
      simpa [List.getElem?_append_left hj] using hr
    · -- The place is that of the last record.
      have hr := (List.getElem?_append_right hj).symm.trans hr
      cases List.mem_singleton.1 (List.mem_of_getElem? hr)
      have hj' : j = init.length := by
        have := (List.getElem?_eq_some_iff.1 hr).1
        simp only [List.length_singleton] at this
        omega
      exact Or.inl ⟨last, by simp [hc, hj'], extra, rfl, hnodup, hnew⟩

end Component

namespace Context

variable {ctx ctx' : Context}

theorem Grown.follows (h : ctx.Grown ctx') : ctx.Follows Component.Continues ctx' := by
  intro i c' hc'
  obtain ⟨c, horigin, hgrows⟩ := h.component i c' hc'
  exact ⟨c, horigin, hgrows.continues⟩

theorem Follows.refl (ctx : Context) : ctx.Follows Component.Continues ctx :=
  (Grown.refl ctx).follows

theorem Follows.set {i : Nat} {c c' : Component} (hc : ctx.components[i]? = some c)
    (h : c.Continues c') : ctx.Follows Component.Continues (ctx.setComponent i c') := by
  intro j d hd
  rcases Component.getElem?_set_cases hd with ⟨rfl, rfl⟩ | hd
  · exact ⟨c, Or.inl hc, h⟩
  · exact ⟨d, Or.inl hd, .of_records rfl⟩

end Context

namespace Call

open Context

theorem edit_follows (i : Nat) (e : Edit) (ctx : Context) :
    ctx.Follows Component.Continues (e.run i ctx).2 := by
  cases e with
  | trigger time a => exact (Grown.perform i time a ctx (.refl ctx)).follows
  | spawnOrder required => exact (Grown.assertSpawnOrder i required ctx (.refl ctx)).follows
  | openContext groups =>
      rcases hrun : startGroupContext i groups ctx with ⟨e | _, ctx'⟩
      · simp only [Edit.run, hrun, startGroupContext_eq_error hrun, Follows.refl]
      · obtain ⟨c, hc, -, -, -, rfl⟩ := startGroupContext_eq_ok.1 hrun
        simp only [Edit.run, hrun]
        exact .set hc (.of_records rfl)
  | closeContext =>
      rcases hrun : endGroupContext i ctx with ⟨e | _, ctx'⟩
      · simp only [Edit.run, hrun, endGroupContext_eq_error hrun, Follows.refl]
      · obtain ⟨c, hc, -, rfl⟩ := endGroupContext_eq_ok.1 hrun
        simp only [Edit.run, hrun]
        exact .set hc (.of_records rfl)

/-- After a call every record was there before, or it belongs to the groups that its
component had for new records before the call. -/
theorem follows (k : Call) (ctx : Context) : ctx.Follows Component.Continues (k.run ctx) := by
  have hrefl := Grown.refl ctx
  cases k with
  | register name caller layer => exact (Grown.register name caller layer ctx hrefl).follows
  | issueGroup => exact (hrefl.note rfl).follows
  | addSpell name caller => exact (hrefl.note rfl).follows
  | addToSpell spell component =>
      simp only [run]
      split
      next ctx' hadd =>
        obtain ⟨spells, rfl⟩ := addToSpell_eq_ok hadd
        exact (hrefl.note rfl).follows
      next => exact hrefl.follows
  | drainWarnings => exact (hrefl.note rfl).follows
  | initBases => exact (Grown.elements.initBases Grown.keepBases ctx hrefl).follows
  | requireBases => exact (Grown.elements.requireBases Grown.keepBases ctx hrefl).follows
  | edit i e => exact edit_follows i e ctx
  | groupLastRecord i groups =>
      rcases ctx.groupLastRecord_snd i groups with hsame | ⟨c, hc, -, hset⟩
      · simp only [run, hsame, Follows.refl]
      · simp only [run, hset]
        exact .set hc (c.groupLast_continues groups)
  | scale i time target scaling =>
      have hcache : ∀ entry ctx', ctx.Grown ctx' → ctx.Grown (ctx'.cached entry) :=
        fun _ _ h => h.note rfl
      exact (Grown.elements.scale hcache trivial time target scaling ctx hrefl).follows
  | pattern caller pool p =>
      exact ((Grown.ingredients caller).pattern p ⟨ctx, pool⟩ hrefl).follows

end Call

/-! ## Records over a run -/

/-- The record at a place of a component. -/
def Context.record? (ctx : Context) (i j : Nat) : Option Record :=
  ctx.components[i]?.bind fun c => c.records[j]?

theorem Context.record?_of_component {ctx : Context} {i : Nat} {c : Component}
    (hc : ctx.components[i]? = some c) (j : Nat) : ctx.record? i j = c.records[j]? := by
  simp [record?, hc]

/-- No place loses its record. -/
theorem Call.record?_runAll {ctx : Context} {i j : Nat} (h : (ctx.record? i j).isSome)
    (ks : List Call) : ((runAll ks ctx).record? i j).isSome := by
  refine runAll_keeps (P := fun ctx => (ctx.record? i j).isSome) ?_ ks h
  intro A ctx ctx' hstep h
  obtain ⟨c, hc, hj⟩ : ∃ c, ctx.components[i]? = some c ∧ j < c.records.length := by
    cases hc : ctx.components[i]? with
    | none => simp [Context.record?, hc] at h
    | some c => exact ⟨c, rfl, by simpa [Context.record?, hc] using h⟩
  obtain ⟨c', hc', -, hlength, -⟩ := hstep.extension.component i c hc
  simpa [Context.record?, hc'] using Nat.lt_of_lt_of_le hj hlength

/-- The call appends a record at a place of a component, while the open group context
of the component names the group that runs it. -/
structure Call.AppendsDoubled (k : Call) (ctx : Context) (i j : Nat) : Prop where
  absent : ctx.record? i j = none
  present : ((k.run ctx).record? i j).isSome
  component : ∃ c, ctx.components[i]? = some c ∧ c.NamesCaller

/-- One of the calls appends the record in that way. -/
def Call.Doubled (ks : List Call) (ctx : Context) (i j : Nat) : Prop :=
  Made (fun ctx k => k.AppendsDoubled ctx i j) ks ctx

namespace Call

variable {ctx : Context} {i j : Nat}

theorem doubled_concat {ks : List Call} {k : Call} :
    Doubled (ks ++ [k]) ctx i j ↔ Doubled ks ctx i j ∨ k.AppendsDoubled (runAll ks ctx) i j :=
  made_concat

/-- There is a record at the place from then on. -/
theorem Doubled.present {ks : List Call} (h : Doubled ks ctx i j) :
    ((runAll ks ctx).record? i j).isSome := by
  obtain ⟨before, k, after, rfl, happends⟩ := h
  rw [List.append_cons, runAll_append, runAll_concat]
  exact record?_runAll happends.present after

/-- A record has a repeated group if and only if it was appended while the open group
context named the group that runs the component. -/
theorem nodup_iff_not_doubled (config : Config) (ks : List Call) {c : Component} {r : Record}
    (hc : (runAll ks (Context.ofConfig config)).components[i]? = some c)
    (hr : c.records[j]? = some r) :
    r.groups.Nodup ↔ ¬ Doubled ks (Context.ofConfig config) i j := by
  induction ks using List.reverseRecOn generalizing c r with
  | nil => cases hc
  | append_singleton ks k ih =>
      have htidy := tidy_runAll ks config
      rw [runAll_concat] at hc
      rw [doubled_concat, not_or]
      generalize hctx : runAll ks (Context.ofConfig config) = ctx at *
      have hpresent : ((k.run ctx).record? i j).isSome := by
        simp [Context.record?_of_component hc, hr]
      obtain ⟨c₀, horigin, hcontinues⟩ := k.follows ctx i c hc
      rcases hcontinues j r hr with ⟨r₀, hr₀, hwidens⟩ | ⟨hnone, hgroups⟩
      · -- The record was there, so this call does not append it.
        rcases horigin with hc₀ | ⟨-, -, hempty⟩
        · rw [hwidens.nodup, ih hc₀ hr₀]
          refine (and_iff_left ?_).symm
          intro happends
          have habsent := happends.absent
          rw [Context.record?_of_component hc₀, hr₀] at habsent
          cases habsent
        · simp [hempty] at hr₀
      · -- The record is new, so no earlier call appended it.
        have habsent : ctx.record? i j = none := by
          rcases horigin with hc₀ | ⟨hfree, -⟩
          · rw [Context.record?_of_component hc₀, hnone]
          · simp [Context.record?, hfree]
        have hearlier : ¬ Doubled ks (Context.ofConfig config) i j := by
          intro h
          have := h.present
          simp [hctx, habsent] at this
        rw [and_iff_right hearlier, hgroups]
        rcases horigin with hc₀ | ⟨hfree, hcontext, -⟩
        · rw [Component.nodup_recordGroups (htidy c₀ (List.mem_of_getElem? hc₀)).context]
          refine not_congr ⟨fun hnames => ⟨habsent, hpresent, c₀, hc₀, hnames⟩, ?_⟩
          rintro ⟨-, -, d, hd, hnames⟩
          cases hc₀.symm.trans hd
          exact hnames
        · refine iff_of_true (by simp [Component.recordGroups, hcontext]) ?_
          rintro ⟨-, -, d, hd, -⟩
          cases hfree.symm.trans hd

end Call

/-- A record belongs to the group that runs its component and to other groups, each of
them once.  It belongs to some group twice if and only if one of the calls appended it
while the open group context named the group that runs the component. -/
theorem record_owners (config : Config) (ks : List Call) {i j : Nat} {c : Component} {r : Record}
    (hc : (Call.runAll ks (Context.ofConfig config)).components[i]? = some c)
    (hr : c.records[j]? = some r) :
    (∃ others, r.groups = c.caller :: others ∧ others.Nodup) ∧
      (¬ r.groups.Nodup ↔ Call.Doubled ks (Context.ofConfig config) i j) := by
  have htidy := Call.tidy_runAll ks config c (List.mem_of_getElem? hc)
  refine ⟨htidy.records r (List.mem_of_getElem? hr), ?_⟩
  rw [Call.nodup_iff_not_doubled config ks hc hr, not_not]

/-- A component on group 36 that opens a group context with group 36. -/
def ownContext : List Call :=
  [.register "Boss" 36 none, .edit 0 (.openContext [36]),
    .edit 0 (.trigger 0.0 (.toggle (.group 41) true))]

theorem record_owners_ownContext :
    ((Call.runAll ownContext (Context.ofConfig {})).record? 0 0).map (·.groups) = some [36, 36] ∧
      Call.Doubled ownContext (Context.ofConfig {}) 0 0 := by
  have hgroups : ((Call.runAll ownContext (Context.ofConfig {})).record? 0 0).map (·.groups)
      = some [36, 36] := by decide +kernel
  refine ⟨hgroups, ?_⟩
  obtain ⟨r, hr, hr'⟩ := Option.map_eq_some_iff.1 hgroups
  obtain ⟨c, hc, hr⟩ := Option.bind_eq_some_iff.1 hr
  exact (record_owners {} ownContext hc hr).2.1 (by rw [hr']; decide)

end Barrage
