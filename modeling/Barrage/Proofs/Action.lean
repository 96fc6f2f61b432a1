import Barrage.Action
import Barrage.Proofs.Remap.Wire

/-!
# What an action does

A request on a component is either refused, and then it has no effect at all, or
it has exactly its own effect.  This module says so for the operations on one
component: actions, which append one record, and changes of structure, which
append none.

The proofs that follow in other modules do not open the operations again.  They
use the inversions of this module: which checks an accepted action has passed
(`Context.place_eq_ok`, `Context.draft_eq_ok`), and what the context is
afterwards (`Context.perform_eq_ok`, `Context.inscribe_eq_ok`).
-/

namespace Barrage

/-! ## Requested remaps -/

namespace RemapRequest

/-- The text of the requested remap, empty if none is requested. -/
def given : RemapRequest → String
  | .none => ""
  | .text s => s
  | .table r => r.wire

/-- A remap that is left after cleaning has a pair, and each of its pairs changes
something. -/
theorem table_of_clean {q : RemapRequest} {c : Remap.Cleaned} (h : q.clean = .ok (some c)) :
    c.table.pairs ≠ [] ∧ ∀ p ∈ c.table.pairs, p.1 ≠ p.2 := by
  have hcleaned : ∃ r : Remap, r.cleaned.pairs ≠ [] ∧ c.table = r.cleaned := by
    cases q with
    | none => cases h
    | text s =>
        simp only [clean] at h
        split at h
        · cases h
        · obtain ⟨c', hc', heq⟩ := Except.map_eq_ok.1 h
          cases heq
          obtain ⟨r, -, hne, rfl⟩ := Remap.cleanText_eq_ok.1 hc'
          exact ⟨r, hne, rfl⟩
    | table r =>
        simp only [clean] at h
        split at h
        · cases h
        · obtain ⟨c', hc', heq⟩ := Except.map_eq_ok.1 h
          cases heq
          obtain ⟨hne, rfl⟩ := Remap.clean_eq_ok.1 hc'
          exact ⟨r, hne, rfl⟩
  obtain ⟨r, hne, heq⟩ := hcleaned
  rw [heq]
  exact ⟨hne, fun p => Remap.ne_of_mem_cleaned⟩

/-- What is noted about a cleaned request: its text, and whether the text of the
cleaned remap is another one. -/
theorem note_of_clean {q : RemapRequest} {c : Remap.Cleaned} (h : q.clean = .ok (some c)) :
    c.given = q.given ∧ q.given ≠ "" ∧ (c.changed = true ↔ c.table.wire ≠ q.given) := by
  cases q with
  | none => cases h
  | text s =>
      simp only [clean] at h
      split at h
      next => cases h
      next hs =>
        obtain ⟨c', hc', heq⟩ := Except.map_eq_ok.1 h
        cases heq
        obtain ⟨r, -, hne, rfl⟩ := Remap.cleanText_eq_ok.1 hc'
        exact ⟨rfl, hs, bne_iff_ne⟩
  | table r =>
      simp only [clean] at h
      split at h
      next => cases h
      next hr =>
        obtain ⟨c', hc', heq⟩ := Except.map_eq_ok.1 h
        cases heq
        obtain ⟨hne, rfl⟩ := Remap.clean_eq_ok.1 hc'
        refine ⟨rfl, Remap.wire_ne_empty ?_, bne_iff_ne.trans (Remap.wire_cleaned_ne_iff hne).symm⟩
        exact Remap.isEmpty_eq_false.1 (by simpa using hr)

end RemapRequest

namespace Context

/-! ## Checks of groups -/

/-- The group may be used in a record. -/
def Valid (ctx : Context) (g : Group) : Prop := ctx.validateGroup g = .ok ()

theorem validateGroups_eq_ok {ctx : Context} {gs : List Group} :
    ctx.validateGroups gs = .ok () ↔ ∀ g ∈ gs, ctx.Valid g := by
  induction gs with
  | nil => simp [validateGroups]
  | cons g rest ih =>
      rw [validateGroups, Except.seq_eq_ok, ih]
      simp [Valid]

/-- A group is valid if it is not reserved and is in one of the two ranges. -/
theorem valid_iff {ctx : Context} {g : Group} :
    ctx.Valid g ↔ g ∉ ctx.config.reserved ∧
      ((1 ≤ g ∧ g ≤ ctx.config.maxGroup) ∨
        (ctx.config.unknownStart ≤ g ∧ g < ctx.nextUnknown)) := by
  unfold Valid validateGroup Config.isReserved isHandAssigned isIssued
  by_cases h : g ∈ ctx.config.reserved
  · simp [h]
  · by_cases h' : (1 ≤ g ∧ g ≤ ctx.config.maxGroup) ∨
        (ctx.config.unknownStart ≤ g ∧ g < ctx.nextUnknown)
    · simp [h, h']
    · simp [h, h']

theorem component_eq_ok {ctx : Context} {i : Nat} {c : Component} :
    ctx.component i = .ok c ↔ ctx.components[i]? = some c := by
  unfold component
  cases ctx.components[i]? <;> simp

theorem Valid.mono {ctx ctx' : Context} {g : Group} (hconfig : ctx'.config = ctx.config)
    (hnext : ctx.nextUnknown ≤ ctx'.nextUnknown) (h : ctx.Valid g) : ctx'.Valid g := by
  rw [valid_iff] at h ⊢
  rw [hconfig]
  exact ⟨h.1, h.2.imp_right fun hissued => ⟨hissued.1, Nat.lt_of_lt_of_le hissued.2 hnext⟩⟩

end Context

theorem Schedule.nonNegative_eq_ok {what : Quantity} {x : Float} :
    Schedule.nonNegative what x = .ok () ↔ 0.0 ≤ x := by
  unfold nonNegative
  split <;> simp [*]

/-! ## Effects -/

namespace Action

/-- Every group of an accepted effect is its target or was checked.  The target
is checked later, with the record. -/
theorem valid_of_effect {ctx : Context} {a : Action} {e : Effect} (h : a.effect ctx = .ok e) :
    ∀ g ∈ e.groupRefs, g ∈ e.target? ∨ ctx.Valid g := by
  cases a <;> simp only [effect, liftM, monadLift, MonadLift.monadLift, Except.bind_eq_ok,
    Except.guard_eq_ok, Except.pure_eq_ok, Except.mapError_eq_ok] at h
  case spawn =>
    obtain ⟨g, -, _, -, _, -, rfl⟩ := h
    simp [Effect.groupRefs, Effect.target?]
  case toggle =>
    obtain ⟨g, -, rfl⟩ := h
    simp [Effect.groupRefs, Effect.target?]
  case moveTowards _ direction _ _ _ =>
    obtain ⟨_, -, _, hdirection, rfl⟩ := h
    have : ctx.Valid direction := hdirection
    simpa [Effect.groupRefs, Effect.target?] using Or.inr this
  case moveBy =>
    obtain ⟨_, -, rfl⟩ := h
    simp [Effect.groupRefs, Effect.target?]
  case moveTo _ location _ =>
    obtain ⟨_, -, _, hlocation, rfl⟩ := h
    have : ctx.Valid location := hlocation
    simpa [Effect.groupRefs, Effect.target?] using Or.inr this
  case rotate target _ center _ =>
    obtain ⟨_, -, _, hcenter, rfl⟩ := h
    cases center with
    | none => simp [Effect.groupRefs, Effect.target?]
    | some c =>
        have : ctx.Valid c := Context.validateGroups_eq_ok.1 hcenter c (by simp)
        simpa [Effect.groupRefs, Effect.target?] using Or.inr this
  case aim _ direction _ _ =>
    obtain ⟨_, -, -, -, _, hdirection, rfl⟩ := h
    have : ctx.Valid direction := hdirection
    simpa [Effect.groupRefs, Effect.target?] using Or.inr this
  case pulse =>
    obtain ⟨_, -, _, -, _, -, rfl⟩ := h
    simp [Effect.groupRefs, Effect.target?]
  case alpha =>
    obtain ⟨-, _, -, rfl⟩ := h
    simp [Effect.groupRefs, Effect.target?]
  case follow _ leader _ =>
    obtain ⟨_, -, _, hleader, rfl⟩ := h
    have : ctx.Valid leader := hleader
    simpa [Effect.groupRefs, Effect.target?] using Or.inr this
  case stop | collision =>
    subst h
    simp [Effect.groupRefs, Effect.target?]
  case count =>
    obtain ⟨_, -, rfl⟩ := h
    simp [Effect.groupRefs, Effect.target?]
  case pickup =>
    obtain ⟨_, -, -, rfl⟩ := h
    simp [Effect.groupRefs]
  case pickupModify =>
    obtain ⟨_, -, -, -, rfl⟩ := h
    simp [Effect.groupRefs]

/-- An accepted spawn carries the cleaned remap. -/
theorem effect_spawn_eq_ok {ctx : Context} {target : Target} {ordered : Bool} {q : RemapRequest}
    {delay : Float} {e : Effect} :
    (spawn target ordered q delay).effect ctx = .ok e ↔
      ∃ g c?, ctx.resolve target = .ok g ∧ Schedule.nonNegative .spawnDelay delay = .ok () ∧
        q.clean = .ok c? ∧
        .spawn g ordered (if 0.0 < delay then some delay else none) (c?.map (·.table)) = e := by
  simp only [effect, liftM, monadLift, MonadLift.monadLift, Except.bind_eq_ok, Except.pure_eq_ok,
    Except.mapError_eq_ok]
  constructor
  · rintro ⟨g, hg, _, hdelay, c?, hclean, he⟩
    exact ⟨g, c?, hg, hdelay, hclean, he⟩
  · rintro ⟨g, c?, hg, hdelay, hclean, he⟩
    exact ⟨g, hg, (), hdelay, c?, hclean, he⟩

/-- A spawn with a table is accepted if cleaning leaves something of the table, and
carries what is left. -/
theorem effect_spawn_table {ctx : Context} {g : Group} {ordered : Bool} {r : Remap}
    {e : Effect} (hr : r.pairs ≠ []) :
    (spawn (.group g) ordered (.table r) 0.0).effect ctx = .ok e ↔
      r.cleaned.pairs ≠ [] ∧ .spawn g ordered none (some r.cleaned) = e := by
  have hclean : (RemapRequest.table r).clean = some <$> r.clean := by
    rw [RemapRequest.clean, if_neg (by simpa [Remap.isEmpty] using hr)]
  have hdelay : Schedule.nonNegative .spawnDelay 0.0 = .ok () := rfl
  simp only [effect_spawn_eq_ok, hclean, hdelay, Except.map_eq_ok, Remap.clean_eq_ok,
    Context.resolve, if_neg (by decide : ¬ (0.0 : Float) < 0.0)]
  constructor
  · rintro ⟨_, _, hg, -, ⟨_, ⟨hne, rfl⟩, rfl⟩, rfl⟩
    cases hg
    exact ⟨hne, rfl⟩
  · rintro ⟨hne, rfl⟩
    exact ⟨g, _, rfl, trivial, ⟨_, ⟨hne, rfl⟩, rfl⟩, rfl⟩

/-- A spawn of a component is a spawn of the group that runs it. -/
theorem effect_spawn_component {ctx : Context} {i : Nat} {c : Component}
    (hc : ctx.components[i]? = some c) (ordered : Bool) (remap : RemapRequest) (delay : Float) :
    (spawn (.component i) ordered remap delay).effect ctx =
      (spawn (.group c.caller) ordered remap delay).effect ctx := by
  have hresolve : ctx.resolve (.component i) = ctx.resolve (.group c.caller) := by
    simp only [Context.resolve, Context.component_eq_ok.2 hc]
    rfl
  simp only [effect, hresolve]

theorem effect_moveTowards {ctx : Context} {target direction : Group} {distance : Float}
    {tween : Tween} {dynamic : Bool} {e : Effect}
    (h : (moveTowards target direction distance tween dynamic).effect ctx = .ok e) :
    e = .moveTowards target direction distance tween dynamic := by
  simp only [effect, liftM, monadLift, MonadLift.monadLift, Except.bind_eq_ok,
    Except.pure_eq_ok] at h
  obtain ⟨_, -, _, -, rfl⟩ := h
  rfl

/-- A remap occurs on spawns only, and it is what cleaning leaves. -/
theorem remap_of_effect {ctx : Context} {a : Action} {e : Effect} (h : a.effect ctx = .ok e)
    {t : Remap} (ht : e.remap? = some t) :
    e.isSpawn ∧ t.pairs ≠ [] ∧ ∀ p ∈ t.pairs, p.1 ≠ p.2 := by
  cases e with
  | spawn g ordered delay remap =>
      refine ⟨rfl, ?_⟩
      cases a <;> simp only [effect, liftM, monadLift, MonadLift.monadLift, Except.bind_eq_ok,
        Except.guard_eq_ok, Except.pure_eq_ok, Except.mapError_eq_ok, reduceCtorEq, and_false,
        exists_false] at h
      case spawn =>
        obtain ⟨_, -, _, -, c?, hc, heq⟩ := h
        cases heq
        obtain ⟨c, rfl, rfl⟩ := Option.map_eq_some_iff.1 ht
        exact RemapRequest.table_of_clean hc
  | _ => cases ht

end Action

namespace Context

/-! ## Records -/

theorem place_eq_ok {ctx : Context} {c : Component} {time : Float} {e : Effect} {r : Record} :
    ctx.place c time e = .ok r ↔
      (∀ g ∈ e.target?, ctx.Valid g) ∧ Schedule.nonNegative .time time = .ok () ∧
        (∀ g ∈ c.recordGroups, ctx.Valid g) ∧
        r = { x := Schedule.distance time, groups := c.recordGroups, layer := c.layer,
              effect := e } := by
  simp only [place, liftM, monadLift, MonadLift.monadLift, Except.seq_eq_ok,
    Except.mapError_eq_ok, validateGroups_eq_ok, Option.mem_toList]
  constructor
  · rintro ⟨ht, hn, hg, hr⟩
    cases hr
    exact ⟨ht, hn, hg, rfl⟩
  · rintro ⟨ht, hn, hg, rfl⟩
    exact ⟨ht, hn, hg, rfl⟩

theorem draft_eq_ok {ctx : Context} {i : Nat} {time : Float} {a : Action} {r : Record} :
    ctx.draft i time a = .ok r ↔
      ∃ c e, ctx.components[i]? = some c ∧ a.effect ctx = .ok e ∧ ctx.place c time e = .ok r := by
  simp only [draft, liftM, monadLift, MonadLift.monadLift, Except.bind_eq_ok,
    Except.mapError_eq_ok, component_eq_ok]
  constructor
  · rintro ⟨c, hc, e, he⟩
    exact ⟨c, e, hc, he⟩
  · rintro ⟨c, e, hc, he⟩
    exact ⟨c, hc, e, he⟩

theorem effect_of_draft {ctx : Context} {i : Nat} {time : Float} {a : Action} {r : Record}
    (h : ctx.draft i time a = .ok r) : a.effect ctx = .ok r.effect := by
  obtain ⟨c, e, -, he, hplace⟩ := draft_eq_ok.1 h
  obtain ⟨-, -, -, rfl⟩ := place_eq_ok.1 hplace
  exact he

theorem perform_eq_error {ctx ctx' : Context} {i : Nat} {time : Float} {a : Action}
    {e : BuildError} :
    perform i time a ctx = (.error e, ctx') ↔ ctx.draft i time a = .error e ∧ ctx = ctx' := by
  unfold perform
  cases ctx.draft i time a <;> simp

/-- Accepted actions append one record and give their warning. -/
theorem perform_eq_ok {ctx ctx' : Context} {i : Nat} {time : Float} {a : Action} :
    perform i time a ctx = (.ok (), ctx') ↔
      ∃ r, ctx.draft i time a = .ok r ∧
        { ctx with
          components := ctx.components.modify i (·.push r)
          warnings := ctx.warnings ++ a.warning?.toList
          journal := ctx.journal ++ a.warning?.toList.map Event.ofWarning } = ctx' := by
  unfold perform
  cases ctx.draft i time a with
  | error e => simp
  | ok r =>
      simp only [Prod.mk.injEq, true_and, Except.ok.injEq, exists_eq_left']
      cases a.warning? <;> simp [append, warn, log]

/-- The caller can take records for a time. -/
def Takes (ctx : Context) (caller : Nat) (time : Float) : Prop :=
  ∃ c, ctx.components[caller]? = some c ∧ Schedule.nonNegative .time time = .ok () ∧
    ∀ g ∈ c.recordGroups, ctx.Valid g

/-- A component that has taken a record takes others too. -/
theorem takes_of_perform {ctx ctx' : Context} {i : Nat} {time : Float} {a : Action}
    (h : perform i time a ctx = (.ok (), ctx')) : ctx'.Takes i time := by
  obtain ⟨r, hr, rfl⟩ := perform_eq_ok.1 h
  obtain ⟨c, e, hc, -, hplace⟩ := draft_eq_ok.1 hr
  obtain ⟨-, htime, howners, -⟩ := place_eq_ok.1 hplace
  exact ⟨c.push r, by simp [hc], htime, howners⟩

/-- An action with an effect is accepted if the component takes records for the time and
the target of the effect is valid. -/
theorem perform_succeeds_iff {ctx : Context} {i : Nat} {time : Float} {a : Action} {e : Effect}
    (he : a.effect ctx = .ok e) :
    (∃ ctx', perform i time a ctx = (.ok (), ctx')) ↔
      ctx.Takes i time ∧ ∀ g ∈ e.target?, ctx.Valid g := by
  constructor
  · rintro ⟨ctx', h⟩
    obtain ⟨r, hr, -⟩ := perform_eq_ok.1 h
    obtain ⟨c, e', hc, he', hplace⟩ := draft_eq_ok.1 hr
    cases he.symm.trans he'
    obtain ⟨htarget, htime, howners, -⟩ := place_eq_ok.1 hplace
    exact ⟨⟨c, hc, htime, howners⟩, htarget⟩
  · rintro ⟨⟨c, hc, htime, howners⟩, htarget⟩
    have hdraft := draft_eq_ok.2 ⟨c, e, hc, he, place_eq_ok.2 ⟨htarget, htime, howners, rfl⟩⟩
    exact ⟨_, perform_eq_ok.2 ⟨_, hdraft, rfl⟩⟩

/-- A component on the group that is issued next can take records on a group. -/
def Hosts (ctx : Context) (g : Group) : Prop :=
  ctx.issueGroup.2.Valid g ∧ ctx.issueGroup.2.Valid ctx.nextUnknown

theorem inscribe_eq_ok {ctx ctx' : Context} {i : Nat} {time : Float} {e : Effect} :
    inscribe i time e ctx = (.ok (), ctx') ↔
      ∃ c r, ctx.components[i]? = some c ∧ ctx.place c time e = .ok r ∧ ctx.append i r = ctx' := by
  unfold inscribe
  simp only [liftM, monadLift, MonadLift.monadLift, component]
  cases ctx.components[i]? with
  | none => simp
  | some c =>
      simp only [Except.mapError_ok, Except.ok_bind, Option.some.injEq]
      cases hp : ctx.place c time e <;> simp [hp]

theorem inscribe_eq_error {ctx ctx' : Context} {i : Nat} {time : Float} {e : Effect}
    {err : BuildError} (h : inscribe i time e ctx = (.error err, ctx')) : ctx' = ctx := by
  unfold inscribe at h
  split at h
  · exact (congrArg Prod.snd h).symm
  · cases h

/-! ## Structure -/

theorem assertSpawnOrder_eq_ok {ctx ctx' : Context} {i : Nat} {required : Bool} :
    assertSpawnOrder i required ctx = (.ok (), ctx') ↔
      ∃ c, ctx.components[i]? = some c ∧
        ctx.setComponent i { c with spawnOrder := some required } = ctx' := by
  unfold assertSpawnOrder component
  cases ctx.components[i]? <;> simp

theorem assertSpawnOrder_eq_error {ctx ctx' : Context} {i : Nat} {required : Bool}
    {e : BuildError} (h : assertSpawnOrder i required ctx = (.error e, ctx')) : ctx' = ctx := by
  unfold assertSpawnOrder at h
  split at h
  · exact (congrArg Prod.snd h).symm
  · cases h

theorem startGroupContext_eq_ok {ctx ctx' : Context} {i : Nat} {gs : List Group} :
    startGroupContext i gs ctx = (.ok (), ctx') ↔
      ∃ c, ctx.components[i]? = some c ∧ (∀ g ∈ gs, ctx.Valid g) ∧ c.context = none ∧
        Component.checkGroups gs = .ok () ∧
        ctx.setComponent i { c with context := some gs } = ctx' := by
  unfold startGroupContext
  simp only [liftM, monadLift, MonadLift.monadLift, component]
  cases ctx.components[i]? with
  | none => simp
  | some c =>
      simp only [Except.mapError_ok, Except.ok_bind, Option.some.injEq, exists_eq_left',
        ← validateGroups_eq_ok]
      cases ctx.validateGroups gs with
      | error e => simp
      | ok u =>
          simp only [Component.startContext]
          cases hc : c.context with
          | some old => simp [throw, throwThe, MonadExceptOf.throw]
          | none =>
              cases Component.checkGroups gs <;> simp [pure, Except.pure]

theorem startGroupContext_eq_error {ctx ctx' : Context} {i : Nat} {gs : List Group}
    {e : BuildError} (h : startGroupContext i gs ctx = (.error e, ctx')) : ctx' = ctx := by
  unfold startGroupContext at h
  simp only at h
  split at h
  · exact (congrArg Prod.snd h).symm
  · cases h

theorem endGroupContext_eq_ok {ctx ctx' : Context} {i : Nat} :
    endGroupContext i ctx = (.ok (), ctx') ↔
      ∃ c, ctx.components[i]? = some c ∧ c.context.isSome ∧
        ctx.setComponent i { c with context := none } = ctx' := by
  unfold endGroupContext
  simp only [liftM, monadLift, MonadLift.monadLift, component]
  cases ctx.components[i]? with
  | none => simp
  | some c =>
      simp only [Except.mapError_ok, Except.ok_bind, Option.some.injEq, exists_eq_left',
        Component.endContext]
      cases c.context <;> simp

theorem endGroupContext_eq_error {ctx ctx' : Context} {i : Nat} {e : BuildError}
    (h : endGroupContext i ctx = (.error e, ctx')) : ctx' = ctx := by
  unfold endGroupContext at h
  simp only at h
  split at h
  · exact (congrArg Prod.snd h).symm
  · cases h

/-- Groups are added to the last record only after all of them were checked. -/
theorem groupLastRecord_cases (ctx : Context) (i : Nat) (gs : List Group) :
    (¬ ∃ c, ctx.components[i]? = some c ∧ ∀ g ∈ gs, ctx.Valid g) ∧
        (∃ e, groupLastRecord i gs ctx = (.error e, ctx)) ∨
      ∃ c, ctx.components[i]? = some c ∧ (∀ g ∈ gs, ctx.Valid g) ∧
        groupLastRecord i gs ctx =
          ((c.groupLast gs).1.mapError .misuse, ctx.setComponent i (c.groupLast gs).2) := by
  unfold groupLastRecord
  simp only [liftM, monadLift, MonadLift.monadLift, component]
  cases hc : ctx.components[i]? with
  | none =>
      refine Or.inl ⟨?_, _, rfl⟩
      rintro ⟨c, ⟨⟩, -⟩
  | some c =>
      simp only [Except.mapError_ok, Except.ok_bind]
      cases hgs : ctx.validateGroups gs with
      | error e =>
          refine Or.inl ⟨?_, _, rfl⟩
          rintro ⟨c, -, hvalid⟩
          rw [validateGroups_eq_ok.2 hvalid] at hgs
          cases hgs
      | ok u => exact Or.inr ⟨c, rfl, validateGroups_eq_ok.1 hgs, rfl⟩

theorem groupLastRecord_snd (ctx : Context) (i : Nat) (gs : List Group) :
    (groupLastRecord i gs ctx).2 = ctx ∨
      ∃ c, ctx.components[i]? = some c ∧ (∀ g ∈ gs, ctx.Valid g) ∧
        (groupLastRecord i gs ctx).2 = ctx.setComponent i (c.groupLast gs).2 := by
  rcases groupLastRecord_cases ctx i gs with ⟨-, e, hrun⟩ | ⟨c, hc, hvalid, hrun⟩
  · exact Or.inl (congrArg Prod.snd hrun)
  · exact Or.inr ⟨c, hc, hvalid, congrArg Prod.snd hrun⟩

end Context

end Barrage
