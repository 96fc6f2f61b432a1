import Barrage.Proofs.Burst.Expansion
import Barrage.Proofs.Hazard
import Barrage.Proofs.Pattern.Line

/-!
# Orderly contexts have no hazards

The spawns that patterns create are of three kinds.  The records of a base *feed* the
template placeholder, a *burst* runs a base and sends the placeholder to a template, and a
*shot* of a timed line runs a template itself.

A context is orderly (`Context.Orderly`) if it has no other spawns, and if no shot belongs
to a group that runs a base.  Then a burst redirects nothing but the placeholder.  What it
runs are feeds, and possibly bursts that were given to the base later; the former go to the
template, and the latter stay where they are.  So the check passes if no spawn belongs to
the placeholder or to a template (`Context.Orderly.passes`).

This module shows that order survives the operations on single components and the building
of bases.  Groups are the key to it.  Groups that run bases are issued when the bases are
built, so components that were there before do not have them.  A component that comes later
has a group that is hand-assigned or fresh, and so does its group context.  The last record
of a component may be given any group, but a shot is never last.
-/

namespace Barrage

open Build Hazard

/-! ## Orderly components -/

/-- A spawn that is part of a burst.  It feeds the template placeholder, or it runs a base
and puts a template in the place of the placeholder.  The groups in `B` run bases, and
those in `T` run templates. -/
inductive Effect.Relays (B T : Group → Prop) : Effect → Prop
  | feed (ordered : Bool) (delay : Option Float) (m : Remap) :
      Relays B T (.spawn Group.template ordered delay (some m))
  | burst {g : Group} {m : Remap} (ordered : Bool) (delay : Option Float) :
      B g → T (m.resolve Group.template) → (∀ g', B g' → g' ≠ Group.template → m.resolve g' = g') →
      Relays B T (.spawn g ordered delay (some m))

/-- A spawn of a template, with a remap. -/
inductive Effect.Shoots (T : Group → Prop) : Effect → Prop
  | mk {g : Group} (ordered : Bool) (delay : Option Float) (m : Remap) :
      T g → Shoots T (.spawn g ordered delay (some m))

/-- A record that keeps order, whatever groups it gets. -/
def Record.Sturdy (B T : Group → Prop) (r : Record) : Prop := r.isSpawn → r.effect.Relays B T

/-- A record that keeps order.  If it is a spawn of a template, then no base runs it. -/
def Record.Orderly (B T : Group → Prop) (r : Record) : Prop :=
  r.isSpawn → r.effect.Relays B T ∨ r.effect.Shoots T ∧ ∀ g ∈ r.groups, ¬ B g

/-- All records keep order, and the last one may be given any groups. -/
structure Component.Orderly (B T : Group → Prop) (c : Component) : Prop where
  records : ∀ r ∈ c.records, r.Orderly B T
  last : ∀ r ∈ c.records.getLast?, r.Sturdy B T

theorem Effect.Relays.mono {B T T' : Group → Prop} {e : Effect} (h : e.Relays B T)
    (hT : ∀ g, T g → T' g) : e.Relays B T' := by
  cases h with
  | feed ordered delay m => exact .feed ordered delay m
  | burst ordered delay hg ht hfix => exact .burst ordered delay hg (hT _ ht) hfix

theorem Effect.Shoots.mono {T T' : Group → Prop} {e : Effect} (h : e.Shoots T)
    (hT : ∀ g, T g → T' g) : e.Shoots T' := by
  cases h with
  | mk ordered delay m ht => exact .mk ordered delay m (hT _ ht)

theorem Record.Sturdy.orderly {B T : Group → Prop} {r : Record} (h : r.Sturdy B T) :
    r.Orderly B T := fun hspawn => Or.inl (h hspawn)

namespace Component.Orderly

variable {B T T' : Group → Prop} {c c' : Component} {r : Record}

theorem mono (h : c.Orderly B T) (hT : ∀ g, T g → T' g) : c.Orderly B T' where
  records r hr hspawn := (h.records r hr hspawn).imp (·.mono hT) (And.imp_left (·.mono hT))
  last r hr hspawn := (h.last r hr hspawn).mono hT

theorem of_records (h : c.Orderly B T) (hrecords : c'.records = c.records) : c'.Orderly B T :=
  ⟨hrecords ▸ h.records, hrecords ▸ h.last⟩

theorem concat {init : List Record} (hrecords : c.records = init ++ [r])
    (hinit : ∀ r ∈ init, r.Orderly B T) (hlast : r.Sturdy B T) : c.Orderly B T := by
  constructor
  · intro r' hr'
    rw [hrecords] at hr'
    rcases List.mem_append.1 hr' with hr' | hr'
    · exact hinit r' hr'
    · cases List.mem_singleton.1 hr'
      exact hlast.orderly
  · intro r' hr'
    rw [hrecords, List.getLast?_concat] at hr'
    cases hr'
    exact hlast

theorem push (h : c.Orderly B T) (hr : r.Sturdy B T) : (c.push r).Orderly B T :=
  concat rfl h.records hr

/-- A spawn of a template is followed by a record that is no spawn. -/
theorem push_shot {next : Record} (h : c.Orderly B T) (hr : r.effect.Shoots T)
    (hgroups : ∀ g ∈ r.groups, ¬ B g) (hnext : ¬ next.isSpawn) :
    ((c.push r).push next).Orderly B T := by
  refine concat rfl (fun r' hr' => ?_) fun hspawn => absurd hspawn hnext
  rcases List.mem_append.1 hr' with hr' | hr'
  · exact h.records r' hr'
  · cases List.mem_singleton.1 hr'
    exact fun _ => Or.inr ⟨hr, hgroups⟩

/-- The last record may get any groups, since it is no spawn or a part of a burst. -/
theorem widen {init : List Record} {last : Record} (h : c.Orderly B T)
    (hrecords : c.records = init ++ [last]) (extra : List Group) :
    Orderly B T
      { c with records := init ++ [{ last with groups := last.groups ++ extra }] } := by
  refine concat rfl (fun r hr => ?_) (h.last last (by simp [hrecords]))
  exact h.records r (hrecords ▸ List.mem_append_left _ hr)

/-- Bases are built on groups that no record belongs to. -/
theorem found (h : c.Orderly (fun _ => False) T)
    (hgroups : ∀ r ∈ c.records, ∀ g ∈ r.groups, ¬ B g) : c.Orderly B T := by
  have hrelays : ∀ e : Effect, e.Relays (fun _ => False) T → e.Relays B T := by
    intro e he
    cases he with
    | feed ordered delay m => exact .feed ordered delay m
    | burst _ _ hg _ _ => exact hg.elim
  refine ⟨fun r hr hspawn => ?_, fun r hr hspawn => hrelays _ (h.last r hr hspawn)⟩
  exact (h.records r hr hspawn).imp (hrelays _) fun hshot => ⟨hshot.1, hgroups r hr⟩

/-- A base is orderly, whatever runs it. -/
theorem of_feeds (h : ∀ r ∈ c.records, ∃ start k, r.effect = Base.effect start k) :
    c.Orderly B T := by
  have hsturdy : ∀ r ∈ c.records, r.Sturdy B T := by
    intro r hr _
    obtain ⟨start, k, he⟩ := h r hr
    rw [he]
    exact .feed _ _ _
  exact ⟨fun r hr => (hsturdy r hr).orderly, fun r hr => hsturdy r (List.mem_of_getLast? hr)⟩

end Component.Orderly

/-! ## Orderly contexts -/

namespace Context

/-- The group runs a base. -/
def RunsBase (ctx : Context) (g : Group) : Prop :=
  ∃ b ∈ ctx.bases, ∃ base ∈ b.tiers, base.group = g

/-- The component is orderly, and its groups are told apart from those that run bases. -/
structure OrderlyAt (T : Group → Prop) (ctx : Context) (i : Nat) (c : Component) : Prop where
  /-- None of its groups is issued later. -/
  owned : ∀ g ∈ c.recordGroups, g < ctx.nextUnknown
  /-- Only a base has a group that runs a base. -/
  apart : ¬ ctx.IsBase i → ∀ g ∈ c.recordGroups, ¬ ctx.RunsBase g
  orderly : c.Orderly ctx.RunsBase T

/-- All components are orderly, and the groups that run bases are issued. -/
structure Orderly (T : Group → Prop) (ctx : Context) : Prop where
  regular : ctx.Regular
  issuing : ctx.config.unknownStart ≤ ctx.nextUnknown
  issued : ∀ g, ctx.RunsBase g → ctx.config.maxGroup < g ∧ g < ctx.nextUnknown
  scratch : ∀ b ∈ ctx.bases, b.scratchStart = ctx.config.scratchStart
  known : ∀ i, ctx.IsBase i → i < ctx.components.length
  components : ∀ i c, ctx.components[i]? = some c → ctx.OrderlyAt T i c

theorem runsBase_congr {ctx ctx' : Context} (h : ctx'.bases = ctx.bases) :
    ctx'.RunsBase = ctx.RunsBase := by
  funext g
  rw [RunsBase, RunsBase, h]

theorem isBase_congr {ctx ctx' : Context} (h : ctx'.bases = ctx.bases) :
    ctx'.IsBase = ctx.IsBase := by
  funext i
  rw [IsBase, IsBase, h]

namespace Orderly

variable {A : Nat → Prop} {T T' : Group → Prop} {ctx ctx' : Context} {i : Nat} {c c' : Component}

theorem ofConfig {config : Config} (h : config.fault? = none) :
    (Context.ofConfig config).Orderly T where
  regular := .ofConfig h
  issuing := Nat.le_refl _
  issued := by
    rintro g ⟨b, hb, -⟩
    cases hb
  scratch _ hb := nomatch hb
  known := by
    rintro i ⟨b, hb, -⟩
    cases hb
  components _ _ hc := nomatch hc

theorem mono (h : ctx.Orderly T) (hT : ∀ g, T g → T' g) : ctx.Orderly T' where
  regular := h.regular
  issuing := h.issuing
  issued := h.issued
  scratch := h.scratch
  known := h.known
  components i c hc :=
    ⟨(h.components i c hc).owned, (h.components i c hc).apart, (h.components i c hc).orderly.mono hT⟩

theorem maxGroup_lt (h : ctx.Orderly T) : ctx.config.maxGroup < ctx.nextUnknown :=
  Nat.lt_of_lt_of_le (Config.maxGroup_lt_of_fault? h.regular.accepted) h.issuing

/-- A hand-assigned group is neither issued nor that of a base. -/
theorem of_hand (h : ctx.Orderly T) {g : Group} (hg : g ≤ ctx.config.maxGroup) :
    g < ctx.nextUnknown ∧ ¬ ctx.RunsBase g :=
  ⟨Nat.lt_of_le_of_lt hg h.maxGroup_lt, fun hbase => Nat.not_lt.2 hg (h.issued g hbase).1⟩

/-- The context evolves, and the registry of bases stays. -/
theorem evolves (h : ctx.Orderly T) (hevolves : Evolves A ctx ctx')
    (hbases : ctx'.bases = ctx.bases)
    (hcomponents : ∀ i c, ctx'.components[i]? = some c → ctx'.OrderlyAt T' i c) :
    ctx'.Orderly T' := by
  have hconfig := hevolves.extension.config
  have hnext := hevolves.extension.nextUnknown
  refine ⟨h.regular.evolves hbases hevolves, ?_, fun g hg => ?_, ?_, fun i hi => ?_, hcomponents⟩
  · rw [hconfig]
    exact Nat.le_trans h.issuing hnext
  · rw [runsBase_congr hbases] at hg
    rw [hconfig]
    exact (h.issued g hg).imp_right fun hlt => Nat.lt_of_lt_of_le hlt hnext
  · rw [hbases, hconfig]
    exact h.scratch
  · rw [isBase_congr hbases] at hi
    exact Nat.lt_of_lt_of_le (h.known i hi) hevolves.length_le

/-- A component that stays as it is stays orderly. -/
theorem keep (h : ctx.Orderly T) (hevolves : Evolves A ctx ctx') (hbases : ctx'.bases = ctx.bases)
    (hT : ∀ g, T g → T' g) (hc : ctx.components[i]? = some c) : ctx'.OrderlyAt T' i c := by
  obtain ⟨howned, hapart, horderly⟩ := h.components i c hc
  refine ⟨fun g hg => Nat.lt_of_lt_of_le (howned g hg) hevolves.extension.nextUnknown, ?_, ?_⟩
  · rw [isBase_congr hbases, runsBase_congr hbases]
    exact hapart
  · rw [runsBase_congr hbases]
    exact horderly.mono hT

/-- Components stay as they are while groups are issued. -/
theorem same (h : ctx.Orderly T) (hevolves : Evolves A ctx ctx') (hbases : ctx'.bases = ctx.bases)
    (hcomponents : ctx'.components = ctx.components) : ctx'.Orderly T :=
  h.evolves hevolves hbases fun _ _ hc =>
    h.keep hevolves hbases (fun _ => id) (hcomponents ▸ hc)

/-- One component becomes another one, without a group that runs a base. -/
theorem edit (h : ctx.Orderly T) (hT : ∀ g, T g → T' g) (hevolves : Evolves A ctx ctx')
    (hbases : ctx'.bases = ctx.bases) (hcomponents : ctx'.components = ctx.components.set i c')
    (hgroups : ∀ g ∈ c'.recordGroups, g < ctx.nextUnknown ∧ ¬ ctx.RunsBase g)
    (hc' : c'.Orderly ctx.RunsBase T') : ctx'.Orderly T' := by
  refine h.evolves hevolves hbases fun j d hd => ?_
  rw [hcomponents] at hd
  rcases Component.getElem?_set_cases hd with ⟨rfl, rfl⟩ | hd
  · refine ⟨fun g hg => ?_, fun _ g hg => ?_, ?_⟩
    · exact Nat.lt_of_lt_of_le (hgroups g hg).1 hevolves.extension.nextUnknown
    · rw [runsBase_congr hbases]
      exact (hgroups g hg).2
    · rw [runsBase_congr hbases]
      exact hc'
  · exact h.keep hevolves hbases hT hd

/-- The groups of a component that is no base run no base. -/
theorem groups (h : ctx.Orderly T) (hi : ¬ ctx.IsBase i) (hc : ctx.components[i]? = some c)
    (hsame : c'.recordGroups = c.recordGroups) :
    ∀ g ∈ c'.recordGroups, g < ctx.nextUnknown ∧ ¬ ctx.RunsBase g := by
  rw [hsame]
  exact fun g hg => ⟨(h.components i c hc).owned g hg, (h.components i c hc).apart hi g hg⟩

theorem register (h : ctx.Orderly T) {g : Group} (hg : g < ctx.nextUnknown ∧ ¬ ctx.RunsBase g)
    (name : String) (layer : Option Nat) : (ctx.register name g layer).2.Orderly T := by
  have hevolves : Evolves (fun _ => True) ctx (ctx.register name g layer).2 :=
    (Evolves.refl ctx).step (.register name g layer)
  refine h.evolves hevolves rfl fun j d hd => ?_
  rcases getElem?_register_cases hd with hd | ⟨-, -, hgroups, hrecords⟩
  · exact h.keep hevolves rfl (fun _ => id) hd
  · have hown : ∀ g' ∈ d.recordGroups, g' = g := by simp [hgroups]
    refine ⟨fun g' hg' => ?_, fun _ g' hg' => ?_, ⟨by simp [hrecords], by simp [hrecords]⟩⟩
    · cases hown g' hg'
      exact hg.1
    · cases hown g' hg'
      exact hg.2

/-- A record is appended that is no spawn or a part of a burst. -/
theorem performed {time : Float} {a : Action} (h : ctx.Orderly T) (hT : ∀ g, T g → T' g)
    (hi : ¬ ctx.IsBase i) (hrun : perform i time a ctx = (.ok (), ctx'))
    (hrelays : ∀ e, a.effect ctx = .ok e → e.isSpawn → e.Relays ctx.RunsBase T') :
    ctx'.Orderly T' := by
  obtain ⟨c, r, hc, he, -, hcomponents, hbases, -⟩ := components_of_perform hrun
  refine h.edit hT (evolves_of_perform hrun) hbases hcomponents (h.groups hi hc rfl) ?_
  exact ((h.components i c hc).orderly.mono hT).push (hrelays r.effect he)

theorem inscribed {time : Float} {e : Effect} (h : ctx.Orderly T) (hi : ¬ ctx.IsBase i)
    (he : ¬ e.isSpawn) (hrun : inscribe i time e ctx = (.ok (), ctx'))
    (hevolves : Evolves A ctx ctx') : ctx'.Orderly T := by
  obtain ⟨c, r, hc, hr, rfl⟩ := inscribe_eq_ok.1 hrun
  obtain ⟨-, -, -, rfl⟩ := place_eq_ok.1 hr
  refine h.edit (fun _ => id) hevolves rfl (Component.modify_push _ hc) (h.groups hi hc rfl) ?_
  exact (h.components i c hc).orderly.push fun hspawn => absurd hspawn he

/-- The structure of a component changes, but not its records. -/
theorem reshape (h : ctx.Orderly T) (hevolves : Evolves A ctx (ctx.setComponent i c'))
    (hc : ctx.components[i]? = some c) (hrecords : c'.records = c.records)
    (hgroups : ∀ g ∈ c'.recordGroups, g < ctx.nextUnknown ∧ ¬ ctx.RunsBase g) :
    (ctx.setComponent i c').Orderly T :=
  h.edit (fun _ => id) hevolves rfl rfl hgroups
    ((h.components i c hc).orderly.of_records hrecords)

theorem assertSpawnOrder (h : ctx.Orderly T) (hi : ¬ ctx.IsBase i) (required : Bool) :
    (Context.assertSpawnOrder i required ctx).2.Orderly T := by
  have hevolves := Evolves.assertSpawnOrder (A := (· = i)) rfl required ctx (.refl ctx)
  rcases hrun : Context.assertSpawnOrder i required ctx with ⟨e | _, ctx'⟩ <;> rw [hrun] at hevolves
  · rw [assertSpawnOrder_eq_error hrun]
    exact h
  · obtain ⟨c, hc, rfl⟩ := assertSpawnOrder_eq_ok.1 hrun
    exact h.reshape hevolves hc rfl (h.groups hi hc rfl)

theorem startGroupContext {gs : List Group} (h : ctx.Orderly T) (hi : ¬ ctx.IsBase i)
    (hgs : ∀ g ∈ gs, g ≤ ctx.config.maxGroup) :
    (Context.startGroupContext i gs ctx).2.Orderly T := by
  have hevolves := Evolves.startGroupContext (A := (· = i)) rfl gs ctx (.refl ctx)
  rcases hrun : Context.startGroupContext i gs ctx with ⟨e | _, ctx'⟩ <;> rw [hrun] at hevolves
  · rw [startGroupContext_eq_error hrun]
    exact h
  · obtain ⟨c, hc, -, -, -, rfl⟩ := startGroupContext_eq_ok.1 hrun
    refine h.reshape hevolves hc rfl fun g hg => ?_
    rcases List.mem_cons.1 hg with rfl | hg
    · exact h.groups hi hc rfl _ List.mem_cons_self
    · exact h.of_hand (hgs g hg)

theorem endGroupContext (h : ctx.Orderly T) (hi : ¬ ctx.IsBase i) :
    (Context.endGroupContext i ctx).2.Orderly T := by
  have hevolves := Evolves.endGroupContext (A := (· = i)) rfl ctx (.refl ctx)
  rcases hrun : Context.endGroupContext i ctx with ⟨e | _, ctx'⟩ <;> rw [hrun] at hevolves
  · rw [endGroupContext_eq_error hrun]
    exact h
  · obtain ⟨c, hc, -, rfl⟩ := endGroupContext_eq_ok.1 hrun
    refine h.reshape hevolves hc rfl fun g hg => ?_
    cases List.mem_singleton.1 hg
    exact h.groups hi hc rfl _ List.mem_cons_self

theorem groupLastRecord (h : ctx.Orderly T) (hi : ¬ ctx.IsBase i) (gs : List Group) :
    (Context.groupLastRecord i gs ctx).2.Orderly T := by
  have hevolves := Evolves.groupLastRecord (A := (· = i)) rfl gs ctx (.refl ctx)
  rcases groupLastRecord_snd ctx i gs with heq | ⟨c, hc, -, heq⟩ <;> rw [heq] at hevolves ⊢
  · exact h
  · rcases c.groupLast_snd gs with hsame | ⟨init, last, extra, hrecords, -, -, -, hwide⟩
    · rw [hsame] at hevolves ⊢
      exact h.reshape hevolves hc rfl (h.groups hi hc rfl)
    · rw [hwide] at hevolves ⊢
      refine h.edit (fun _ => id) hevolves rfl rfl (h.groups hi hc rfl) ?_
      exact (h.components i c hc).orderly.widen hrecords extra

end Orderly

/-! ## Bases -/

/-- The components from a place on feed the template placeholder and do nothing else. -/
structure Founding (n : Nat) (ctx : Context) : Prop where
  reached : n ≤ ctx.components.length
  owned : ∀ j c, n ≤ j → ctx.components[j]? = some c → ∀ g ∈ c.recordGroups, g < ctx.nextUnknown
  feeds : ∀ j c, n ≤ j → ctx.components[j]? = some c → ∀ r ∈ c.records, ∃ start k,
    r.effect = Base.effect start k

namespace Founding

variable {n : Nat} {ctx ctx' : Context}

theorem note (h : Founding n ctx) (hcomponents : ctx'.components = ctx.components)
    (hnext : ctx.nextUnknown ≤ ctx'.nextUnknown) : Founding n ctx' := by
  refine ⟨hcomponents ▸ h.reached, fun j c hj hc g hg => ?_, hcomponents ▸ h.feeds⟩
  exact Nat.lt_of_lt_of_le (h.owned j c hj (hcomponents ▸ hc) g hg) hnext

/-- A component becomes another one with the same groups. -/
theorem set {i : Nat} {c c' : Component} (h : Founding n ctx) (hc : ctx.components[i]? = some c)
    (hgroups : c'.recordGroups = c.recordGroups)
    (hrecords : ∀ r ∈ c'.records, r ∈ c.records ∨ ∃ start k, r.effect = Base.effect start k) :
    Founding n (ctx.setComponent i c') := by
  refine ⟨?_, fun j d hj hd => ?_, fun j d hj hd => ?_⟩
  · rw [setComponent, List.length_set]
    exact h.reached
  · rcases Component.getElem?_set_cases hd with ⟨rfl, rfl⟩ | hd
    · rw [hgroups]
      exact h.owned i c hj hc
    · exact h.owned j d hj hd
  · rcases Component.getElem?_set_cases hd with ⟨rfl, rfl⟩ | hd
    · exact fun r hr => (hrecords r hr).elim (h.feeds i c hj hc r) id
    · exact h.feeds j d hj hd

theorem assertSpawnOrder (i : Nat) (required : Bool) :
    Keeps (Founding n) (Context.assertSpawnOrder i required) := by
  intro ctx h
  rcases hrun : Context.assertSpawnOrder i required ctx with ⟨e | _, ctx'⟩
  · rw [assertSpawnOrder_eq_error hrun]
    exact h
  · obtain ⟨c, hc, rfl⟩ := assertSpawnOrder_eq_ok.1 hrun
    exact h.set hc rfl fun r hr => Or.inl hr

theorem baseSpawn (i : Nat) (start : Group) (k : Nat) :
    Keeps (Founding n) (perform i 0.0 (Context.baseSpawn start k)) := by
  intro ctx h
  rcases hrun : perform i 0.0 (Context.baseSpawn start k) ctx with ⟨e | _, ctx'⟩
  · obtain ⟨-, rfl⟩ := perform_eq_error.1 hrun
    exact h
  · obtain ⟨c, r, hc, he, -, hcomponents, -, hnext⟩ := components_of_perform hrun
    have hset : Founding n (ctx.setComponent i (c.push r)) := by
      refine h.set hc rfl fun r' hr' => (List.mem_append.1 hr').imp_right fun hr' => ?_
      cases List.mem_singleton.1 hr'
      exact ⟨start, k, effect_of_baseSpawn he⟩
    exact hset.note hcomponents (Nat.le_of_eq hnext.symm)

theorem register (h : Founding n ctx) {g : Group} (hg : g < ctx.nextUnknown) (name : String)
    (layer : Option Nat) : Founding n (ctx.register name g layer).2 := by
  refine ⟨?_, fun j d hj hd => ?_, fun j d hj hd => ?_⟩
  · exact Nat.le_trans h.reached (by simp [Context.register, log])
  · rcases getElem?_register_cases hd with hd | ⟨-, -, hgroups, -⟩
    · exact h.owned j d hj hd
    · rw [hgroups]
      intro g' hg'
      cases List.mem_singleton.1 hg'
      exact hg
  · rcases getElem?_register_cases hd with hd | ⟨-, -, -, hrecords⟩
    · exact h.feeds j d hj hd
    · simp [hrecords]

theorem buildBase (tier : Nat) : Keeps (Founding n) (Context.buildBase tier) := by
  intro ctx h
  have hfill : ∀ i, Keeps (Founding n) (do
      Context.assertSpawnOrder i false
      Build.each (fun k => perform i 0.0 (Context.baseSpawn ctx.config.scratchStart k))
        (List.range (Nat.pow 2 tier))
      pure (⟨Nat.pow 2 tier, i, ctx.nextUnknown⟩ : Base)) := fun i =>
    .bind (assertSpawnOrder i false) fun _ => .bind (.each fun k _ => baseSpawn i _ k) fun _ => .pure _
  -- The group of the base is issued before the component is registered.
  have hissued : Founding n ctx.issueGroup.2 := h.note rfl (Nat.le_succ _)
  exact hfill _ _ (hissued.register (Nat.lt_succ_self _) _ _)

theorem buildTiers : ∀ tiers, Keeps (Founding n) (Context.buildTiers tiers)
  | [] => .pure _
  | tier :: rest => .bind (buildBase tier) fun _ => .bind (buildTiers rest) fun _ => .pure _

theorem requireBases : Keeps (Founding n) Context.requireBases := by
  refine .bind .read fun ctx => ?_
  cases ctx.bases with
  | some b => exact .pure b
  | none =>
      have hbuild : Keeps (Founding n) buildBases :=
        .bind .read fun _ => .bind (buildTiers _) fun _ =>
          .bind (.change fun _ h => h.note rfl (Nat.le_refl _)) fun _ => .pure _
      exact .bind hbuild fun b => .bind (.change fun _ h => h.note rfl (Nat.le_refl _)) fun _ => .pure b

end Founding

/-- A build of bases registers no component that is not a base. -/
theorem exists_base_of_buildTiers {tiers : List Nat} {ctx ctx' : Context} {bases : List Base}
    (h : buildTiers tiers ctx = (.ok bases, ctx')) {j : Nat} (hj : ctx.components.length ≤ j)
    (hlt : j < ctx'.components.length) : ∃ base ∈ bases, base.component = j := by
  induction tiers generalizing ctx bases with
  | nil =>
      cases h
      omega
  | cons tier rest ih =>
      simp only [buildTiers, bind_eq_ok] at h
      obtain ⟨base, ctx₁, hbase, others, ctx₂, hothers, hpure⟩ := h
      obtain ⟨rfl, rfl⟩ := pure_eq_ok.1 hpure
      obtain ⟨rfl, ctx₀, c, hcomponents, -, -, -, -, hloop⟩ := each_of_buildBase hbase
      have hlength : ctx₁.components.length = ctx.components.length + 1 := by
        have hc : ctx₀.components[ctx.components.length]? = some c := by
          rw [hcomponents]
          exact List.getElem?_concat_length
        obtain ⟨rs, warnings, journal, -, rfl⟩ := each_perform_eq_ok hc hloop
        simp [setComponent, hcomponents]
      rcases Nat.eq_or_lt_of_le hj with heq | hgt
      · exact ⟨_, List.mem_cons_self, heq⟩
      · obtain ⟨base, hbase, hcomponent⟩ := ih hothers (by omega)
        exact ⟨base, List.mem_cons_of_mem _ hbase, hcomponent⟩

namespace Orderly

variable {T T' : Group → Prop} {ctx ctx' : Context}

/-- The group of a base is issued when the base is built. -/
theorem le_of_runsBase {b : Bases} (hbases : ctx.bases = none)
    (h : Context.requireBases ctx = (.ok b, ctx')) {g : Group} (hg : ctx'.RunsBase g) :
    ctx.nextUnknown ≤ g := by
  obtain ⟨ctx₁, hbuild, rfl⟩ := buildBases_of_requireBases hbases h
  obtain ⟨-, ctx₂, journal, htiers, rfl⟩ := tiers_of_buildBases hbuild
  obtain ⟨-, -, hall, -⟩ := buildTiers_eq_ok htiers
  obtain ⟨_, hb, base, hbase, rfl⟩ := hg
  cases hb
  exact (hall base hbase).2.2

/-- The components that a build of bases registers are bases. -/
theorem isBase_of_requireBases {b : Bases} (hbases : ctx.bases = none)
    (h : Context.requireBases ctx = (.ok b, ctx')) {j : Nat} (hj : ctx.components.length ≤ j)
    (hlt : j < ctx'.components.length) : ctx'.IsBase j := by
  obtain ⟨ctx₁, hbuild, rfl⟩ := buildBases_of_requireBases hbases h
  obtain ⟨-, ctx₂, journal, htiers, rfl⟩ := tiers_of_buildBases hbuild
  obtain ⟨base, hbase, hcomponent⟩ := exists_base_of_buildTiers htiers hj hlt
  exact ⟨b, rfl, base, hbase, hcomponent⟩

/-- The components are orderly after bases were built on groups that were fresh. -/
theorem founded (h : ctx.Orderly T) (hbases : ctx.bases = none)
    (hevolves : Evolves (fun j => ctx.components.length ≤ j) ctx ctx')
    (hfounding : Founding ctx.components.length ctx')
    (hfresh : ∀ g, ctx'.RunsBase g → ctx.nextUnknown ≤ g)
    (hnew : ∀ j, ctx.components.length ≤ j → j < ctx'.components.length →
      ctx'.IsBase j ∨ ∀ g, ¬ ctx'.RunsBase g) {i : Nat} {c : Component}
    (hc : ctx'.components[i]? = some c) : ctx'.OrderlyAt T i c := by
  have hlt : i < ctx'.components.length := (List.getElem?_eq_some_iff.1 hc).1
  rcases Nat.lt_or_ge i ctx.components.length with hi | hi
  · obtain ⟨c', hc', -, -, hsame⟩ :=
      hevolves.extension.component i _ (List.getElem?_eq_getElem hi)
    cases hc.symm.trans hc'
    rw [hsame (Nat.not_le.2 hi)] at hc ⊢
    have hold := h.components i _ (List.getElem?_eq_getElem hi)
    have hnone : ctx.RunsBase = fun _ => False := by
      funext g
      simp [RunsBase, hbases]
    refine ⟨fun g hg => ?_, fun _ g hg hbase => ?_, (hnone ▸ hold.orderly).found ?_⟩
    · exact Nat.lt_of_lt_of_le (hold.owned g hg) hevolves.extension.nextUnknown
    · exact absurd (hold.owned g hg) (Nat.not_lt.2 (hfresh g hbase))
    · intro r hr g hg hbase
      have hvalid := (h.regular.sound _ (List.getElem_mem hi) r hr).owners g hg
      have hissued : g < ctx.nextUnknown := by
        rcases (valid_iff.1 hvalid).2 with ⟨-, hhand⟩ | ⟨-, hlt⟩
        · exact Nat.lt_of_le_of_lt hhand h.maxGroup_lt
        · exact hlt
      exact Nat.not_lt.2 (hfresh g hbase) hissued
  · refine ⟨hfounding.owned i c hi hc, fun hbase g _ => ?_, .of_feeds (hfounding.feeds i c hi hc)⟩
    exact (hnew i hi hlt).resolve_left hbase g

theorem requireBases : Keeps (Orderly T) Context.requireBases := by
  intro ctx h
  have hevolves := Evolves.requireBases (A := fun j => ctx.components.length ≤ j)
    (fun _ hj => hj) ctx (.refl ctx)
  have hregular := Regular.requireBases ctx h.regular
  cases hbases : ctx.bases with
  | some b =>
      rw [requireBases_of_some hbases]
      exact h
  | none =>
      have hfounding : Founding ctx.components.length (Context.requireBases ctx).2 := by
        refine Founding.requireBases ctx ⟨Nat.le_refl _, fun j c hj hc => ?_, fun j c hj hc => ?_⟩
        all_goals
          rw [List.getElem?_eq_none hj] at hc
          cases hc
      have hconfig := hevolves.extension.config
      have hissuing := Nat.le_trans h.issuing hevolves.extension.nextUnknown
      rcases hrun : Context.requireBases ctx with ⟨e | b, ctx'⟩ <;>
        rw [hrun] at hevolves hregular hfounding hconfig hissuing
      · have hnone : ∀ g, ¬ ctx'.RunsBase g := by
          rintro g ⟨b, hb, -⟩
          rw [requireBases_eq_error hrun] at hb
          cases hb
        refine ⟨hregular, hconfig ▸ hissuing, fun g hg => absurd hg (hnone g), ?_, ?_, fun i c hc => ?_⟩
        · rw [requireBases_eq_error hrun]
          exact fun _ hb => nomatch hb
        · rintro i ⟨b, hb, -⟩
          rw [requireBases_eq_error hrun] at hb
          cases hb
        · exact h.founded hbases hevolves hfounding (fun g hg => absurd hg (hnone g))
            (fun _ _ _ => Or.inr hnone) hc
      · obtain ⟨hb, hintact, hplaces⟩ := (requireBases_eq_ok hrun).resolve_left (by simp [hbases])
        refine ⟨hregular, hconfig ▸ hissuing, fun g hg => ?_, ?_, ?_, fun i c hc => ?_⟩
        · have hfresh := le_of_runsBase hbases hrun hg
          obtain ⟨b', hb', base, hbase, rfl⟩ := hg
          cases hb.symm.trans hb'
          obtain ⟨c, hc, hcaller, -⟩ := hintact.built base hbase
          refine ⟨?_, ?_⟩
          · rw [hconfig]
            exact Nat.lt_of_lt_of_le h.maxGroup_lt hfresh
          · exact hfounding.owned _ c (hplaces base hbase) hc _ (hcaller ▸ List.mem_cons_self)
        · intro b' hb'
          cases hb.symm.trans hb'
          exact hintact.scratchStart
        · rintro i ⟨b', hb', base, hbase, rfl⟩
          cases hb.symm.trans hb'
          exact (hintact.built base hbase).lt_length
        · exact h.founded hbases hevolves hfounding (fun g hg => le_of_runsBase hbases hrun hg)
            (fun j hj hlt => Or.inl (isBase_of_requireBases hbases hrun hj hlt)) hc

/-! ## The check -/

theorem spawn_cases (h : ctx.Orderly T) {r : Record} (hr : r ∈ allRecords ctx.components)
    (hspawn : r.isSpawn) : r.effect.Relays ctx.RunsBase T ∨
      r.effect.Shoots T ∧ ∀ g ∈ r.groups, ¬ ctx.RunsBase g := by
  obtain ⟨c, hc, hr⟩ := mem_allRecords.1 hr
  obtain ⟨i, hi⟩ := List.mem_iff_getElem?.1 hc
  exact (h.components i c hi).orderly.records r hr hspawn

/-- No spawn goes without a remap. -/
theorem remap_ne_none (h : ctx.Orderly T) {r : Record} (hr : r ∈ allRecords ctx.components)
    (hspawn : r.isSpawn) : r.effect.remap? ≠ none := by
  rcases h.spawn_cases hr hspawn with hrelays | ⟨hshoots, -⟩
  · generalize r.effect = e at hrelays
    cases hrelays <;> exact Option.some_ne_none _
  · generalize r.effect = e at hshoots
    cases hshoots
    exact Option.some_ne_none _

/-- A spawn that a base runs goes to a template, or a burst leaves it where it is. -/
theorem landing (h : ctx.Orderly T) {r : Record} (hr : r ∈ allRecords ctx.components)
    (hspawn : r.isSpawn) {g : Group} (hg : ctx.RunsBase g) (hrun : g ∈ r.groups) {m : Remap}
    (htemplate : T (m.resolve Group.template))
    (hfix : ∀ g, ctx.RunsBase g → g ≠ Group.template → m.resolve g = g) :
    ∃ target, r.effect.target? = some target ∧ (T (m.resolve target) ∨ m.resolve target = target) := by
  rcases h.spawn_cases hr hspawn with hrelays | ⟨-, hapart⟩
  · generalize r.effect = e at hrelays
    cases hrelays with
    | feed ordered delay m' => exact ⟨Group.template, rfl, Or.inl htemplate⟩
    | @burst g' m' ordered delay hg' _ _ =>
        refine ⟨g', rfl, ?_⟩
        by_cases hne : g' = Group.template
        · exact Or.inl (hne ▸ htemplate)
        · exact Or.inr (hfix g' hg' hne)
  · exact absurd hg (hapart g hrun)

/-- A remapped spawn redirects nothing to a group that belongs to a spawn. -/
theorem not_bearing (h : ctx.Orderly T) (hplaceholder : ¬ Bearing ctx.components Group.template)
    (htemplates : ∀ g, T g → ¬ Bearing ctx.components g) {r s : Record} {activated : Group}
    {m : Remap} {l : Landing} (hr : r ∈ allRecords ctx.components)
    (htarget : r.effect.target? = some activated) (hremap : r.effect.remap? = some m)
    (hs : s ∈ allRecords ctx.components) (hreaches : Reaches m activated l s)
    (hmoved : s.effect.target? ≠ some l.2) : ¬ Bearing ctx.components l.2 := by
  obtain ⟨hspawn, -, hrun, -, hlanding⟩ := hreaches
  have hlisted : Bearing ctx.components activated := by
    obtain ⟨d, hd, hs⟩ := mem_allRecords.1 hs
    exact ⟨d, hd, s, hs, hspawn, hrun⟩
  have hcases := h.spawn_cases hr (by
    unfold Record.isSpawn
    cases he : r.effect <;> simp [he, Effect.remap?] at hremap
    rfl)
  generalize r.effect = e at hcases htarget hremap
  rcases hcases with hrelays | ⟨hshoots, -⟩
  · cases hrelays with
    | feed ordered delay m' =>
        cases htarget
        exact absurd hlisted hplaceholder
    | burst ordered delay hg ht hfix =>
        cases htarget
        cases hremap
        obtain ⟨target, htarget, hends⟩ := h.landing hs hspawn hg hrun ht hfix
        rw [htarget] at hlanding hmoved
        have heq : m.resolve target = l.2 := Option.some.inj hlanding
        rw [heq] at hends
        rcases hends with ht | hsame
        · exact htemplates _ ht
        · exact absurd (congrArg some hsame.symm) hmoved
  · cases hshoots with
    | mk ordered delay m' ht =>
        cases htarget
        exact absurd hlisted (htemplates _ ht)

/-- Orderly components pass the check, if no spawn belongs to the placeholder or to a
group that runs a template. -/
theorem passes (h : ctx.Orderly T) (hplaceholder : ¬ Bearing ctx.components Group.template)
    (htemplates : ∀ g, T g → ¬ Bearing ctx.components g) : check ctx.components = .ok () := by
  refine Hazard.check_eq_ok.2 (first?_eq_none.2 ⟨fun c hc => ?_, fun c hc r hr => ?_⟩)
  · refine direct?_eq_none.2 fun l hl => ?_
    obtain ⟨r, hr, hplain⟩ := List.countP_pos_iff.1 (Nat.lt_of_lt_of_le Nat.two_pos hl.twice)
    obtain ⟨hspawn, -, hremap, -⟩ := of_decide_eq_true hplain
    exact h.remap_ne_none (mem_allRecords.2 ⟨c, hc, hr⟩) hspawn hremap
  · cases hsome : spawnHazard? ctx.components c r with
    | none => rfl
    | some e =>
        obtain ⟨activated, m, l, htarget, hremap, -, ⟨s, hs, hreaches, hmoved⟩, hbearing⟩ :=
          landing_of_spawnHazard? hsome
        exact absurd hbearing (h.not_bearing hplaceholder htemplates (mem_allRecords.2 ⟨c, hc, hr⟩)
          htarget hremap hs hreaches hmoved)

end Orderly

end Context

end Barrage
