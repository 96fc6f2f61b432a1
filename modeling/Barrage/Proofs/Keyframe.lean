import Barrage.Proofs.Call
import Barrage.Proofs.Number.Nonneg

/-!
# What a failed scaling leaves behind

A scaling checks its component, its parameters, its time and its target before it does
anything (`Context.Permits`).  Then it looks for its keyframe, builds one if there is
none, and spawns it.  The steps after the checks repeat the checks of groups, and they
look at groups that the scaling did not look at: the placeholder of keyframes, the group
that is issued for the keyframe, and the groups that own the new record.

So there are two ways to fail late.  The keyframe cannot take its first record, because
the placeholder or the issued group is not valid.  Then a component without records is
left, which is not cached.  Or the component that is scaled can take no record.  Then
the keyframe is complete and cached, and nothing spawns it.  In both cases a component
was registered and a group was issued.  A scaling that fails in any other way changes
nothing (`Context.scale_leaves`).
-/

namespace Barrage

open Build

/-! ## Parameters -/

theorem Tween.validate_eq_ok {t : Tween} :
    t.validate = .ok () ↔ 0.0 ≤ t.duration ∧ 0.10 < t.rate ∧ t.rate ≤ 20.0 := by
  rw [Number.zero_le_iff_not, validate]
  split
  next hbad => exact iff_of_false (fun h => nomatch h) fun h => h.1 hbad
  next hgood =>
    split
    next hrate => exact iff_of_true rfl ⟨hgood, hrate⟩
    next hrate => exact iff_of_false (fun h => nomatch h) fun h => hrate h.2

theorem Scaling.validate_eq_ok {s : Scaling} :
    s.validate = .ok () ↔
      0.0 < s.factor ∧ ¬ (s.factor == 1.0) ∧ 0.0 ≤ s.hold ∧ s.tween.validate = .ok () := by
  simp only [validate, Except.guard_eq_ok, Except.seq_eq_ok, Schedule.nonNegative_eq_ok, not_not]

/-- When a keyframe changes the size, and whether it changes it back. -/
def Scaling.frames (s : Scaling) : List (Float × Bool) :=
  (0.0, false) :: if s.reverse then [(s.tween.duration + s.hold, true)] else []

/-- The record that a component gets for an effect at a time. -/
def Component.entry (c : Component) (time : Float) (e : Effect) : Record :=
  { x := Schedule.distance time, groups := c.recordGroups, layer := c.layer, effect := e }

namespace Context

variable {ctx ctx' : Context} {s : Scaling} {records : List Record} {journal : List Event}

/-! ## Building a keyframe -/

/-- The component of the next keyframe, with some records. -/
def nextKeyframe (ctx : Context) (records : List Record) : Component where
  name := "Scale keyframe " ++ toString (ctx.keyframes.length + 1)
  caller := ctx.nextUnknown
  layer := ctx.config.defaultLayer
  spawnOrder := some true
  records := records

/-- The context with the component of the next keyframe. -/
def staged (ctx : Context) (records : List Record) (journal : List Event) : Context :=
  { ctx with
    nextUnknown := ctx.nextUnknown + 1
    components := ctx.components ++ [ctx.nextKeyframe records]
    journal }

/-- The records of a complete keyframe. -/
def keyframeRecords (ctx : Context) (s : Scaling) : List Record :=
  s.frames.map fun frame => (ctx.nextKeyframe []).entry frame.1 (s.effect frame.2)

theorem getElem?_staged :
    (ctx.staged records journal).components[ctx.components.length]? =
      some (ctx.nextKeyframe records) := List.getElem?_concat_length

/-- Which group a keyframe runs on and acts on decides whether it takes a record. -/
theorem inscribe_staged {time : Float} (htime : 0.0 ≤ time) {divide : Bool}
    (h : ctx.Hosts Group.keyframe) :
    inscribe ctx.components.length time (s.effect divide) (ctx.staged records journal) =
      (.ok (), ctx.staged (records ++ [(ctx.nextKeyframe []).entry time (s.effect divide)])
        journal) := by
  obtain ⟨hplaceholder, hissued⟩ := h
  have hplace : (ctx.staged records journal).place (ctx.nextKeyframe records) time
      (s.effect divide) = .ok ((ctx.nextKeyframe []).entry time (s.effect divide)) := by
    refine place_eq_ok.2 ⟨?_, Schedule.nonNegative_eq_ok.2 htime, ?_, rfl⟩
    · rintro g ⟨⟩
      exact hplaceholder
    · intro g hg
      cases List.mem_singleton.1 hg
      exact hissued
  refine inscribe_eq_ok.2 ⟨_, _, getElem?_staged, hplace, ?_⟩
  rw [append_eq_setComponent _ getElem?_staged]
  simp [setComponent, staged, Component.push, nextKeyframe]

theorem inscribe_staged_error (s : Scaling) (time : Float) (divide : Bool)
    (records : List Record) (journal : List Event) (h : ¬ ctx.Hosts Group.keyframe) :
    ∃ e, inscribe ctx.components.length time (s.effect divide) (ctx.staged records journal) =
      (.error e, ctx.staged records journal) := by
  rcases hrun : inscribe ctx.components.length time (s.effect divide)
    (ctx.staged records journal) with ⟨e | _, ctx'⟩
  · exact ⟨e, by rw [inscribe_eq_error hrun]⟩
  · obtain ⟨c, r, hc, hplace, -⟩ := inscribe_eq_ok.1 hrun
    cases getElem?_staged.symm.trans hc
    obtain ⟨htarget, -, howners, -⟩ := place_eq_ok.1 hplace
    exact absurd ⟨htarget _ rfl, howners _ (List.mem_singleton.2 rfl)⟩ h

theorem assertSpawnOrder_registered (ctx : Context) :
    ∃ journal, assertSpawnOrder ctx.components.length true
      (ctx.issueGroup.2.register (ctx.nextKeyframe []).name ctx.nextUnknown none).2 =
        (.ok (), ctx.staged [] journal) := by
  set ctx₁ := (ctx.issueGroup.2.register (ctx.nextKeyframe []).name ctx.nextUnknown none).2
  refine ⟨ctx₁.journal, assertSpawnOrder_eq_ok.2 ⟨_, List.getElem?_concat_length, ?_⟩⟩
  simp [ctx₁, setComponent, register, issueGroup, staged, nextKeyframe, log]

/-- A keyframe is built in a context in which its component is registered. -/
theorem buildKeyframe_eq (s : Scaling) (ctx : Context) :
    ∃ journal event, buildKeyframe s ctx = (do
      inscribe ctx.components.length 0.0 (s.effect false)
      if s.reverse then
        inscribe ctx.components.length (s.tween.duration + s.hold) (s.effect true)
      Build.change fun ctx' => (ctx'.log event).cached (s.key, ctx.components.length)
      pure ctx.components.length) (ctx.staged [] journal) := by
  obtain ⟨journal, horder⟩ := assertSpawnOrder_registered ctx
  refine ⟨journal, ?event, ?build⟩
  case build =>
    rw [buildKeyframe, bind_of_ok (update_apply _ _), bind_of_ok (read_apply _),
      bind_of_ok (update_apply _ _)]
    exact bind_of_ok horder

/-- What becomes of a request for a keyframe: it is there, or it is built, or it cannot
be built. -/
inductive KeyframeOutcome (ctx : Context) (s : Scaling) : Except BuildError Nat × Context → Prop
  | hit (k : Nat) : ctx.keyframe? s = some k → KeyframeOutcome ctx s (.ok k, ctx)
  | built (journal : List Event) :
      ctx.keyframe? s = none → ctx.Hosts Group.keyframe →
      KeyframeOutcome ctx s (.ok ctx.components.length,
        (ctx.staged (ctx.keyframeRecords s) journal).cached (s.key, ctx.components.length))
  | failed (e : BuildError) (journal : List Event) :
      ctx.keyframe? s = none → ¬ ctx.Hosts Group.keyframe →
      KeyframeOutcome ctx s (.error e, ctx.staged [] journal)

theorem buildKeyframe_of_hosts (hs : s.validate = .ok ()) (h : ctx.Hosts Group.keyframe) :
    ∃ journal, buildKeyframe s ctx = (.ok ctx.components.length,
      (ctx.staged (ctx.keyframeRecords s) journal).cached (s.key, ctx.components.length)) := by
  obtain ⟨-, -, hhold, htween⟩ := Scaling.validate_eq_ok.1 hs
  have hend := Number.add_nonneg (Tween.validate_eq_ok.1 htween).1 hhold
  obtain ⟨journal, event, hbuild⟩ := buildKeyframe_eq s ctx
  refine ⟨journal ++ [event], ?_⟩
  rw [hbuild, bind_of_ok (inscribe_staged (by decide) h)]
  rw [keyframeRecords, Scaling.frames]
  cases s.reverse with
  | false => rfl
  | true => exact bind_of_ok (inscribe_staged hend h)

theorem buildKeyframe_error (h : ¬ ctx.Hosts Group.keyframe) :
    ∃ e journal, buildKeyframe s ctx = (.error e, ctx.staged [] journal) := by
  obtain ⟨journal, event, hbuild⟩ := buildKeyframe_eq s ctx
  obtain ⟨e, hfirst⟩ := inscribe_staged_error s 0.0 false [] journal h
  exact ⟨e, journal, hbuild.trans (bind_eq_error.2 (Or.inl hfirst))⟩

theorem keyframe_outcome (hs : s.validate = .ok ()) (ctx : Context) :
    KeyframeOutcome ctx s (keyframe s ctx) := by
  rw [keyframe, bind_of_ok (read_apply _)]
  cases hcached : ctx.keyframe? s with
  | some k => exact .hit k hcached
  | none =>
      change KeyframeOutcome ctx s (buildKeyframe s ctx)
      by_cases hhosts : ctx.Hosts Group.keyframe
      · obtain ⟨journal, hbuild⟩ := buildKeyframe_of_hosts hs hhosts
        exact hbuild ▸ .built journal hcached hhosts
      · obtain ⟨e, journal, hbuild⟩ := buildKeyframe_error (s := s) hhosts
        exact hbuild ▸ .failed e journal hcached hhosts

/-! ## Scaling -/

variable {i : Nat} {time : Float} {target : Group}

/-- The scaling passes its own checks. -/
structure Permits (ctx : Context) (i : Nat) (time : Float) (target : Group) (s : Scaling) :
    Prop where
  component : ∃ c, ctx.components[i]? = some c
  scaling : s.validate = .ok ()
  time : 0.0 ≤ time
  target : ctx.Valid target

theorem permits_iff :
    (do
      let _ ← ctx.component i
      s.validate
      Schedule.nonNegative .time time
      ctx.validateGroup target : Except BuildError Unit) = .ok () ↔
      ctx.Permits i time target s := by
  simp only [liftM, monadLift, MonadLift.monadLift, Except.bind_eq_ok, Except.mapError_eq_ok,
    component_eq_ok]
  constructor
  · rintro ⟨c, hc, _, hs, _, htime, htarget⟩
    exact ⟨⟨c, hc⟩, hs, Schedule.nonNegative_eq_ok.1 htime, htarget⟩
  · rintro ⟨⟨c, hc⟩, hs, htime, htarget⟩
    exact ⟨c, hc, (), hs, (), Schedule.nonNegative_eq_ok.2 htime, htarget⟩

/-- A scaling that passes its own checks asks for its keyframe and spawns it. -/
theorem scale_of_permits (h : ctx.Permits i time target s) :
    scale i time target s ctx = (keyframe s >>= fun k =>
      perform i time (.spawn (.component k) true (keyframeRemap target) 0.0)) ctx :=
  bind_of_ok (check_eq_ok.2 ⟨permits_iff.2 h, rfl⟩)

theorem scale_of_not_permits (h : ¬ ctx.Permits i time target s) :
    ∃ e, scale i time target s ctx = (.error e, ctx) := by
  rw [← permits_iff] at h
  rw [scale]
  cases hcheck : (do
      let _ ← ctx.component i
      s.validate
      Schedule.nonNegative .time time
      ctx.validateGroup target : Except BuildError Unit) with
  | ok u => exact absurd hcheck h
  | error e => exact ⟨e, bind_eq_error.2 (Or.inl (check_eq_error.2 ⟨hcheck, rfl⟩))⟩

/-- The spawn of a keyframe puts the target in the place of the placeholder. -/
theorem effect_keyframeSpawn {k : Nat} {c : Component} (hc : ctx.components[k]? = some c)
    (target : Group) :
    ∃ remap : Option Remap,
      (Action.spawn (.component k) true (keyframeRemap target) 0.0).effect ctx =
        .ok (.spawn c.caller true none remap) ∧
      (remap.getD .empty).resolve Group.keyframe = target := by
  rw [Action.effect_spawn_component hc, keyframeRemap]
  by_cases htarget : target = Group.keyframe
  · rw [if_pos htarget]
    exact ⟨none, rfl, htarget.symm⟩
  · rw [if_neg htarget]
    have hcleaned : Remap.cleaned ⟨[(Group.keyframe, target)], by simp⟩ =
        ⟨[(Group.keyframe, target)], by simp⟩ := by
      simp [Remap.cleaned, Ne.symm htarget]
    refine ⟨_, (Action.effect_spawn_table (by simp)).2 ⟨by simp [hcleaned], rfl⟩, ?_⟩
    rw [Option.getD_some, Remap.resolve_cleaned]
    exact Remap.resolve_of_mem (List.mem_singleton.2 rfl)

/-- A keyframe that was just built is spawned, unless the component can take no record. -/
theorem exists_invalid_of_unspawned (hpermits : ctx.Permits i time target s)
    (hhosts : ctx.Hosts Group.keyframe) {entry : Scaling × Nat} {e : BuildError}
    (h : perform i time (.spawn (.component ctx.components.length) true (keyframeRemap target) 0.0)
      ((ctx.staged records journal).cached entry) = (.error e, ctx')) :
    ∃ c g, ctx.components[i]? = some c ∧ g ∈ c.recordGroups ∧ ¬ ctx.issueGroup.2.Valid g := by
  obtain ⟨c, hc⟩ := hpermits.component
  have hi : i < ctx.components.length := (List.getElem?_eq_some_iff.1 hc).1
  set ctx₁ := (ctx.staged records journal).cached entry
  by_contra hvalid
  have htakes : ctx₁.Takes i time := by
    refine ⟨c, (List.getElem?_append_left hi).trans hc, Schedule.nonNegative_eq_ok.2 hpermits.time,
      fun g hg => ?_⟩
    by_contra hg'
    exact hvalid ⟨c, g, hc, hg, hg'⟩
  have hkeyframe : ctx₁.components[ctx.components.length]? = some (ctx.nextKeyframe records) :=
    List.getElem?_concat_length
  obtain ⟨remap, heffect, -⟩ := effect_keyframeSpawn hkeyframe target
  have htarget : ∀ g ∈ (Effect.spawn ctx.nextUnknown true none remap).target?, ctx₁.Valid g := by
    rintro g ⟨⟩
    exact hhosts.2
  obtain ⟨ctx₂, hspawn⟩ := (perform_succeeds_iff heffect).2 ⟨htakes, htarget⟩
  cases hspawn.symm.trans h

/-- A failed scaling changes nothing if it fails its own checks or if its keyframe was there.
Otherwise it registers a keyframe and issues its group.  The keyframe is empty and not cached,
because it cannot take records, or it is complete and cached, and the component that is scaled
cannot take records. -/
theorem scale_leaves {e : BuildError} (h : scale i time target s ctx = (.error e, ctx')) :
    (ctx' = ctx ↔ ¬ ctx.Permits i time target s ∨ (ctx.keyframe? s).isSome) ∧
      (ctx' ≠ ctx →
        ctx'.nextUnknown = ctx.nextUnknown + 1 ∧
        ∃ k, ctx'.components = ctx.components ++ [k] ∧ k.caller = ctx.nextUnknown ∧
          k.requiresSpawnOrder ∧
          (k.records = [] ∧ ctx'.keyframes = ctx.keyframes ∧ ¬ ctx.Hosts Group.keyframe ∨
            k.records = ctx.keyframeRecords s ∧
              ctx'.keyframes = ctx.keyframes ++ [(s.key, ctx.components.length)] ∧
              ∃ c g, ctx.components[i]? = some c ∧ g ∈ c.recordGroups ∧
                ¬ ctx.issueGroup.2.Valid g)) := by
  have hnext : ctx'.nextUnknown = ctx.nextUnknown + 1 → ctx' ≠ ctx := by
    rintro hnext rfl
    exact absurd hnext (Nat.ne_of_lt (Nat.lt_succ_self _))
  by_cases hpermits : ctx.Permits i time target s
  · rw [scale_of_permits hpermits] at h
    have houtcome := keyframe_outcome hpermits.scaling ctx
    rcases bind_eq_error.1 h with hkeyframe | ⟨k, ctx₁, hkeyframe, hspawn⟩
    · rw [hkeyframe] at houtcome
      cases houtcome with
      | failed _ journal hnone hhosts =>
          refine ⟨iff_of_false (hnext rfl) (by simp [hpermits, hnone]), fun _ => ⟨rfl, ?_⟩⟩
          exact ⟨_, rfl, rfl, rfl, Or.inl ⟨rfl, rfl, hhosts⟩⟩
    · rw [hkeyframe] at houtcome
      obtain ⟨-, rfl⟩ := perform_eq_error.1 hspawn
      cases houtcome with
      | hit _ hcached =>
          exact ⟨iff_of_true rfl (by simp [hcached]), fun hne => absurd rfl hne⟩
      | built journal hnone hhosts =>
          refine ⟨iff_of_false (hnext rfl) (by simp [hpermits, hnone]), fun _ => ⟨rfl, ?_⟩⟩
          have hinvalid := exists_invalid_of_unspawned hpermits hhosts hspawn
          exact ⟨_, rfl, rfl, rfl, Or.inr ⟨rfl, rfl, hinvalid⟩⟩
  · obtain ⟨e', hscale⟩ := scale_of_not_permits hpermits
    cases hscale.symm.trans h
    exact ⟨iff_of_true rfl (Or.inl hpermits), fun hne => absurd rfl hne⟩

/-- A component on a reserved group. -/
def reservedCaller : Context := Call.runAll [.register "Bad" 3 none] (Context.ofConfig {})

theorem scale_leaves_reservedCaller :
    Reachable reservedCaller ∧
      ∃ ctx', scale 0 0.0 40 { factor := 2.0 } reservedCaller =
          (.error (.trigger (.restrictedGroup 3)), ctx') ∧
        ctx'.nextUnknown = reservedCaller.nextUnknown + 1 ∧ ctx'.components.length = 2 ∧
        ctx'.keyframes.length = 1 := by
  have herror : (scale 0 0.0 40 { factor := 2.0 } reservedCaller).1 =
      .error (.trigger (.restrictedGroup 3)) := by decide +kernel
  have hkeyframes : (scale 0 0.0 40 { factor := 2.0 } reservedCaller).2.keyframes.length = 1 := by
    decide +kernel
  have hchanged : (scale 0 0.0 40 { factor := 2.0 } reservedCaller).2 ≠ reservedCaller := by
    intro hsame
    rw [hsame] at hkeyframes
    cases hkeyframes
  obtain ⟨hnext, k, hcomponents, -⟩ := (scale_leaves (Prod.ext herror rfl)).2 hchanged
  refine ⟨Reachable.runAll .new _, _, Prod.ext herror rfl, hnext, ?_, hkeyframes⟩
  rw [hcomponents, List.length_append]
  rfl

end Context

end Barrage
