import Barrage.Proofs.Keyframe
import Barrage.Proofs.Number.SignedZero

/-!
# Keyframes are shared

The cache of keyframes is keyed by scalings without signed zeros, while a keyframe is
built from the scaling that asked for it first.  This module says that the two stay
together over whole runs (`keyframes_memoized`), as long as no call addresses a keyframe.

* Every key has a component of its own, on a group of its own.  The component presents
  the key: it requires spawn order, and its records are the frames of the key
  (`Component.Presents`).  Numbers are compared by `==`, so a zero may have either sign.
* A successful scaling appends one spawn, of the keyframe that is cached under its key.
* The cache has one entry for each key for which some call built a keyframe.

The first and the last follow from what one call does to the cache
(`Call.keyframes_run`).  It adds nothing, and then it builds no keyframe either, or it is
a scaling whose key is new, and adds the keyframe that it builds.
-/

namespace Barrage

open Build

/-! ## Keys -/

namespace Scaling

variable {s s' : Scaling}

/-- The scalings are equal up to the signs of zeros. -/
structure Alike (s s' : Scaling) : Prop where
  factor : s.factor == s'.factor
  hold : s.hold == s'.hold
  duration : s.tween.duration == s'.tween.duration
  easing : s.tween.easing = s'.tween.easing
  rate : s.tween.rate == s'.tween.rate
  reverse : s.reverse = s'.reverse

theorem nonneg_of_validate (h : s.validate = .ok ()) :
    0.0 ≤ s.factor ∧ 0.0 ≤ s.hold ∧ 0.0 ≤ s.tween.duration ∧ 0.0 ≤ s.tween.rate := by
  obtain ⟨hfactor, -, hhold, htween⟩ := validate_eq_ok.1 h
  obtain ⟨hduration, hlow, hhigh⟩ := Tween.validate_eq_ok.1 htween
  refine ⟨Number.zero_le_of_lt hfactor, hhold, hduration, ?_⟩
  have hnan := (Number.not_isNaN_of_le hhigh).1
  have hpos := (Number.units_nonneg (by decide : 0.0 ≤ 0.10)).2
  rw [Number.lt_iff_units (by decide) hnan] at hlow
  rw [Number.le_iff_units (by decide) hnan, Number.units_zero]
  omega

theorem key_eq_iff (h : s.validate = .ok ()) (h' : s'.validate = .ok ()) :
    s.key = s'.key ↔ s.Alike s' := by
  obtain ⟨hfactor, hhold, hduration, hrate⟩ := nonneg_of_validate h
  obtain ⟨hfactor', hhold', hduration', hrate'⟩ := nonneg_of_validate h'
  simp only [key, foldZero, Scaling.mk.injEq, Tween.mk.injEq,
    Number.add_zero_eq_iff hfactor hfactor', Number.add_zero_eq_iff hhold hhold',
    Number.add_zero_eq_iff hduration hduration', Number.add_zero_eq_iff hrate hrate']
  constructor
  · rintro ⟨hf, hh, ⟨hd, he, hr⟩, hreverse⟩
    exact ⟨hf, hh, hd, he, hr, hreverse⟩
  · rintro ⟨hf, hh, hd, he, hr, hreverse⟩
    exact ⟨hf, hh, ⟨hd, he, hr⟩, hreverse⟩

theorem key_key (h : s.validate = .ok ()) : s.key.key = s.key := by
  obtain ⟨hfactor, hhold, hduration, hrate⟩ := nonneg_of_validate h
  simp only [key, foldZero, Number.add_zero_add_zero hfactor, Number.add_zero_add_zero hhold,
    Number.add_zero_add_zero hduration, Number.add_zero_add_zero hrate]

/-- The record is a frame of the scaling, up to the signs of zeros. -/
def Shows (s : Scaling) (frame : Float × Bool) (r : Record) : Prop :=
  ∃ time factor tween, r.x = Schedule.distance time ∧ time == frame.1 ∧
    r.effect = .scale Group.keyframe factor frame.2 tween ∧ factor == s.factor ∧
    tween.duration == s.tween.duration ∧ tween.easing = s.tween.easing ∧
    tween.rate == s.tween.rate

theorem shows_key (h : s.validate = .ok ()) (c : Component) {time moment : Float}
    (htime : time == moment) (divide : Bool) :
    s.key.Shows (moment, divide) (c.entry time (s.effect divide)) := by
  obtain ⟨hfactor, -, hduration, hrate⟩ := nonneg_of_validate h
  exact ⟨time, s.factor, s.tween, rfl, htime, rfl, Number.beq_add_zero hfactor,
    Number.beq_add_zero hduration, rfl, Number.beq_add_zero hrate⟩

end Scaling

/-- The component is a keyframe of the scaling: it has one record for each frame. -/
structure Component.Presents (c : Component) (s : Scaling) : Prop where
  ordered : c.requiresSpawnOrder
  records : List.Forall₂ s.Shows s.frames c.records

theorem Component.Presents.records_ne_nil {c : Component} {s : Scaling} (h : c.Presents s) :
    c.records ≠ [] := by
  intro hnil
  have hrecords := h.records
  rw [hnil, Scaling.frames] at hrecords
  cases hrecords

/-- A keyframe presents the key of the scaling that it was built from. -/
theorem Context.presents_nextKeyframe (ctx : Context) {s : Scaling} (h : s.validate = .ok ()) :
    (ctx.nextKeyframe (ctx.keyframeRecords s)).Presents s.key := by
  refine ⟨rfl, ?_⟩
  have hfirst := Scaling.shows_key h (ctx.nextKeyframe []) (by decide : (0.0 : Float) == 0.0) false
  obtain ⟨-, hhold, hduration, -⟩ := Scaling.nonneg_of_validate h
  have hend : s.tween.duration + s.hold == s.key.tween.duration + s.key.hold :=
    Number.add_beq_add hduration (Number.add_zero_nonneg hduration) hhold
      (Number.add_zero_nonneg hhold) (Number.beq_add_zero hduration) (Number.beq_add_zero hhold)
  have hsecond := Scaling.shows_key h (ctx.nextKeyframe []) hend true
  rw [Scaling.frames, nextKeyframe, keyframeRecords, Scaling.frames]
  cases hreverse : s.reverse with
  | false =>
      rw [show s.key.reverse = false from hreverse]
      exact .cons hfirst .nil
  | true =>
      rw [show s.key.reverse = true from hreverse]
      exact .cons hfirst (.cons hsecond .nil)

/-! ## What a call does to the cache -/

/-- The component is a keyframe. -/
def Context.IsKeyframe (ctx : Context) (i : Nat) : Prop := i ∈ ctx.keyframes.map Prod.snd

namespace Call

/-- The call is a scaling with the key and registers a keyframe that presents it. -/
def Builds (k : Call) (ctx : Context) (key : Scaling) : Prop :=
  ∃ i time target s c, k = .scale i time target s ∧ s.key = key ∧
    (k.run ctx).components[ctx.components.length]? = some c ∧ c.Presents key

/-- Only scalings add keyframes. -/
theorem keyframes_of_not_scale {k : Call} (ctx : Context)
    (hk : ∀ i time target s, k ≠ .scale i time target s) :
    (k.run ctx).keyframes = ctx.keyframes := by
  let P (ctx' : Context) : Prop := ctx'.keyframes = ctx.keyframes
  have helements : Elements P fun _ => True := .caches fun h _ hsame _ => hsame.trans h
  have hkeep : ∀ b, Keeps P (Context.keepBases b) := fun _ => .change fun _ h => h
  cases k with
  | addToSpell spell component =>
      simp only [run]
      split
      next ctx' hadd =>
        obtain ⟨spells, rfl⟩ := Context.addToSpell_eq_ok hadd
        rfl
      next => rfl
  | initBases => exact helements.initBases hkeep ctx rfl
  | requireBases => exact helements.requireBases hkeep ctx rfl
  | edit i e => exact (e.caches_run i ctx).2.1
  | groupLastRecord i groups =>
      rcases ctx.groupLastRecord_snd i groups with hsame | ⟨c, -, -, hset⟩
      · simp only [run, hsame]
      · simp only [run, hset, Context.setComponent]
  | scale i time target s => exact absurd rfl (hk i time target s)
  | pattern caller pool p => exact (helements.ingredients hkeep trivial).pattern p ⟨ctx, pool⟩ rfl
  | register | issueGroup | addSpell | drainWarnings => rfl

end Call

namespace Context

variable {ctx ctx' : Context} {i : Nat} {time : Float} {target : Group} {s : Scaling}

theorem getElem?_perform_ne {a : Action} {j : Nat} (hj : j ≠ i) :
    (perform i time a ctx).2.components[j]? = ctx.components[j]? := by
  rcases hrun : perform i time a ctx with ⟨e | _, ctx'⟩
  · obtain ⟨-, rfl⟩ := perform_eq_error.1 hrun
    rfl
  · obtain ⟨r, -, rfl⟩ := perform_eq_ok.1 hrun
    exact List.getElem?_modify_ne _ _ (Ne.symm hj)

/-- A scaling leaves the cache as it is and registers at most an empty component, or it
builds a keyframe and caches it. -/
theorem keyframes_of_scale (ctx : Context) (i : Nat) (time : Float) (target : Group)
    (s : Scaling) :
    ((scale i time target s ctx).2.keyframes = ctx.keyframes ∧
      ∀ c, (scale i time target s ctx).2.components[ctx.components.length]? = some c →
        c.records = []) ∨
    (s.validate = .ok () ∧ ctx.keyframe? s = none ∧
      (scale i time target s ctx).2.keyframes =
        ctx.keyframes ++ [(s.key, ctx.components.length)] ∧
      (scale i time target s ctx).2.components[ctx.components.length]? =
        some (ctx.nextKeyframe (ctx.keyframeRecords s)) ∧
      ctx.nextUnknown < (scale i time target s ctx).2.nextUnknown) := by
  by_cases hpermits : ctx.Permits i time target s
  · obtain ⟨c, hc⟩ := hpermits.component
    have hi : ctx.components.length ≠ i := Nat.ne_of_gt (List.getElem?_eq_some_iff.1 hc).1
    have houtcome := keyframe_outcome hpermits.scaling ctx
    rcases hkeyframe : keyframe s ctx with ⟨e | k, ctx₁⟩
    · have hscale : scale i time target s ctx = (.error e, ctx₁) := by
        rw [scale_of_permits hpermits]
        exact bind_eq_error.2 (Or.inl hkeyframe)
      rw [hkeyframe] at houtcome
      cases houtcome with
      | failed _ journal hnone hhosts =>
          rw [hscale]
          refine Or.inl ⟨rfl, fun c hc => ?_⟩
          cases getElem?_staged.symm.trans hc
          rfl
    · rw [scale_of_permits hpermits, bind_of_ok hkeyframe]
      set a : Action := .spawn (.component k) true (keyframeRemap target) 0.0
      have hsame : (perform i time a ctx₁).2.keyframes = ctx₁.keyframes :=
        (Edit.caches_run i (.trigger time a) ctx₁).2.1
      have hnext := (evolves_of_perform (rfl : perform i time a ctx₁ = _)).extension.nextUnknown
      rw [getElem?_perform_ne hi, hsame]
      rw [hkeyframe] at houtcome
      cases houtcome with
      | hit _ hcached =>
          refine Or.inl ⟨rfl, fun c hc => ?_⟩
          cases (List.getElem?_eq_none (Nat.le_refl _)).symm.trans hc
      | built journal hnone hhosts =>
          exact Or.inr ⟨hpermits.scaling, hnone, rfl, List.getElem?_concat_length, hnext⟩
  · obtain ⟨e, hscale⟩ := scale_of_not_permits hpermits
    rw [hscale]
    refine Or.inl ⟨rfl, fun c hc => ?_⟩
    cases (List.getElem?_eq_none (Nat.le_refl _)).symm.trans hc

end Context

/-- A call adds no keyframe and builds none, or it adds one with a new key, which it
builds. -/
theorem Call.keyframes_run (k : Call) (ctx : Context) :
    ((k.run ctx).keyframes = ctx.keyframes ∧ ∀ key, ¬ k.Builds ctx key) ∨
    ∃ s c, s.validate = .ok () ∧ ctx.keyframe? s = none ∧
      (k.run ctx).keyframes = ctx.keyframes ++ [(s.key, ctx.components.length)] ∧
      (k.run ctx).components[ctx.components.length]? = some c ∧ c.Presents s.key ∧
      c.caller = ctx.nextUnknown ∧ ctx.nextUnknown < (k.run ctx).nextUnknown ∧
      ∀ key, k.Builds ctx key ↔ key = s.key := by
  by_cases hk : ∃ i time target s, k = .scale i time target s
  · obtain ⟨i, time, target, s, rfl⟩ := hk
    rcases ctx.keyframes_of_scale i time target s with
      ⟨hsame, hempty⟩ | ⟨hs, hnone, hkeyframes, hc, hnext⟩
    · refine Or.inl ⟨hsame, ?_⟩
      rintro key ⟨_, _, _, _, c, -, -, hc, hpresents⟩
      exact hpresents.records_ne_nil (hempty c hc)
    · have hpresents := ctx.presents_nextKeyframe hs
      refine Or.inr ⟨s, _, hs, hnone, hkeyframes, hc, hpresents, rfl, hnext, fun key => ?_⟩
      constructor
      · rintro ⟨_, _, _, _, _, hcall, hkey, -⟩
        cases hcall
        exact hkey.symm
      · rintro rfl
        exact ⟨i, time, target, s, _, rfl, rfl, hc, hpresents⟩
  · have hnot : ∀ i time target s, k ≠ .scale i time target s :=
      fun i time target s h => hk ⟨i, time, target, s, h⟩
    refine Or.inl ⟨keyframes_of_not_scale ctx hnot, ?_⟩
    rintro key ⟨i, time, target, s, _, hcall, -⟩
    exact hk ⟨i, time, target, s, hcall⟩

/-! ## Runs -/

/-- Every key that is cached has a keyframe of its own. -/
structure Context.Memoized (ctx : Context) : Prop where
  keys : (ctx.keyframes.map Prod.fst).Nodup
  /-- A key has no negative zero.  Its component presents it, on a group that was issued. -/
  keyframe : ∀ key k, (key, k) ∈ ctx.keyframes → key.key = key ∧
    ∃ c, ctx.components[k]? = some c ∧ c.Presents key ∧ c.caller < ctx.nextUnknown
  /-- Different keys have different components on different groups. -/
  distinct : ∀ key k key' k' c c', (key, k) ∈ ctx.keyframes → (key', k') ∈ ctx.keyframes →
    key ≠ key' → ctx.components[k]? = some c → ctx.components[k']? = some c' →
    k ≠ k' ∧ c.caller ≠ c'.caller

namespace Context.Memoized

variable {ctx ctx' : Context}

theorem ofConfig (config : Config) : (Context.ofConfig config).Memoized :=
  ⟨List.nodup_nil, fun _ _ h => (nomatch h), fun _ _ _ _ _ _ h => (nomatch h)⟩

theorem lt_length (h : ctx.Memoized) {k : Nat} (hk : ctx.IsKeyframe k) :
    k < ctx.components.length := by
  obtain ⟨⟨key, k⟩, hmem, rfl⟩ := List.mem_map.1 hk
  obtain ⟨-, c, hc, -⟩ := h.keyframe key k hmem
  exact (List.getElem?_eq_some_iff.1 hc).1

/-- Other components and other groups do not matter. -/
theorem frame (h : ctx.Memoized) (hkeyframes : ctx'.keyframes = ctx.keyframes)
    (hnext : ctx.nextUnknown ≤ ctx'.nextUnknown)
    (hsame : ∀ k, ctx.IsKeyframe k → ctx'.components[k]? = ctx.components[k]?) :
    ctx'.Memoized := by
  have hplace : ∀ {key k}, (key, k) ∈ ctx.keyframes →
      ctx'.components[k]? = ctx.components[k]? :=
    fun hmem => hsame _ (List.mem_map.2 ⟨_, hmem, rfl⟩)
  refine ⟨hkeyframes ▸ h.keys, ?_, ?_⟩
  · intro key k hmem
    rw [hkeyframes] at hmem
    obtain ⟨hkey, c, hc, hpresents, hissued⟩ := h.keyframe key k hmem
    exact ⟨hkey, c, (hplace hmem).trans hc, hpresents, Nat.lt_of_lt_of_le hissued hnext⟩
  · intro key k key' k' c c' hmem hmem' hne hc hc'
    rw [hkeyframes] at hmem hmem'
    rw [hplace hmem] at hc
    rw [hplace hmem'] at hc'
    exact h.distinct key k key' k' c c' hmem hmem' hne hc hc'

/-- A keyframe with a new key on a fresh group may be cached. -/
theorem cached (h : ctx.Memoized) {s : Scaling} {k : Nat} {c : Component}
    (hs : s.validate = .ok ()) (hnew : ctx.keyframe? s = none)
    (hc : ctx.components[k]? = some c) (hpresents : c.Presents s.key)
    (hissued : c.caller < ctx.nextUnknown)
    (hfresh : ∀ key' k' c', (key', k') ∈ ctx.keyframes → ctx.components[k']? = some c' →
      c'.caller < c.caller) : (ctx.cached (s.key, k)).Memoized := by
  have hkey : ∀ key' k', (key', k') ∈ ctx.keyframes → key' ≠ s.key := by
    intro key' k' hmem heq
    have := List.lookup_eq_none_iff.1 hnew (key', k') hmem
    simp [heq] at this
  have hapart : ∀ key' k' c', (key', k') ∈ ctx.keyframes → ctx.components[k']? = some c' →
      k' ≠ k ∧ c'.caller ≠ c.caller := by
    intro key' k' c' hmem hc'
    have hlt := hfresh key' k' c' hmem hc'
    refine ⟨?_, Nat.ne_of_lt hlt⟩
    rintro rfl
    cases hc.symm.trans hc'
    exact Nat.lt_irrefl _ hlt
  refine ⟨?_, ?_, ?_⟩
  · rw [Context.cached, List.map_append, List.nodup_append]
    refine ⟨h.keys, by simp, ?_⟩
    rintro key' hkey' _ hmem rfl
    obtain ⟨⟨key', k'⟩, hmem', rfl⟩ := List.mem_map.1 hkey'
    exact hkey key' k' hmem' (by simpa using hmem)
  · intro key' k' hmem
    rcases List.mem_append.1 hmem with hmem | hmem
    · exact h.keyframe key' k' hmem
    · cases List.mem_singleton.1 hmem
      exact ⟨Scaling.key_key hs, c, hc, hpresents, hissued⟩
  · intro key₁ k₁ key₂ k₂ c₁ c₂ hmem₁ hmem₂ hne hc₁ hc₂
    rcases List.mem_append.1 hmem₁ with hmem₁ | hmem₁ <;>
      rcases List.mem_append.1 hmem₂ with hmem₂ | hmem₂
    · exact h.distinct key₁ k₁ key₂ k₂ c₁ c₂ hmem₁ hmem₂ hne hc₁ hc₂
    · cases List.mem_singleton.1 hmem₂
      cases hc.symm.trans hc₂
      exact hapart key₁ k₁ c₁ hmem₁ hc₁
    · cases List.mem_singleton.1 hmem₁
      cases hc.symm.trans hc₁
      exact (hapart key₂ k₂ c₂ hmem₂ hc₂).imp Ne.symm Ne.symm
    · cases List.mem_singleton.1 hmem₁
      cases List.mem_singleton.1 hmem₂
      exact absurd rfl hne

/-- A call that does not address a keyframe keeps keyframes as they were built. -/
theorem run (h : ctx.Memoized) {k : Call} (hk : ∀ i, k.address = some i → ¬ ctx.IsKeyframe i) :
    (k.run ctx).Memoized := by
  have hextension := (k.evolves ctx).extension
  have hsame : ∀ j, ctx.IsKeyframe j → (k.run ctx).components[j]? = ctx.components[j]? := by
    intro j hj
    have hlt := h.lt_length hj
    have hc := List.getElem?_eq_getElem hlt
    obtain ⟨c', hc', -, -, heq⟩ := hextension.component j _ hc
    rw [hc, hc', heq ?_]
    rintro (haddress | hnew)
    · exact hk j haddress hj
    · exact Nat.not_le.2 hlt hnew
  rcases k.keyframes_run ctx with
    ⟨hkeyframes, -⟩ | ⟨s, c, hs, hnew, hkeyframes, hc, hpresents, hcaller, hnext, -⟩
  · exact h.frame hkeyframes hextension.nextUnknown hsame
  · -- The cache without the new keyframe is as before, and the new keyframe is added to it.
    let ctx₁ : Context := { k.run ctx with keyframes := ctx.keyframes }
    have hframe : ctx₁.Memoized := h.frame rfl hextension.nextUnknown hsame
    have hfresh : ∀ key' k' c', (key', k') ∈ ctx₁.keyframes → ctx₁.components[k']? = some c' →
        c'.caller < c.caller := by
      intro key' k' c' hmem hc'
      obtain ⟨-, d, hd, -, hissued⟩ := h.keyframe key' k' hmem
      have hd' : ctx₁.components[k']? = some d :=
        (hsame k' (List.mem_map.2 ⟨_, hmem, rfl⟩)).trans hd
      cases hd'.symm.trans hc'
      rwa [hcaller]
    have hcached : (ctx₁.cached (s.key, ctx.components.length)).Memoized :=
      hframe.cached hs hnew hc hpresents (hcaller ▸ hnext) hfresh
    exact hcached.frame hkeyframes (Nat.le_refl _) fun _ _ => rfl

end Context.Memoized

/-! ## Successful scalings -/

namespace Context

variable {ctx ctx₁ ctx' : Context} {s : Scaling} {k : Nat}

/-- The keyframe that a scaling gets is cached under its key, and all components are still
there. -/
theorem KeyframeOutcome.found (h : KeyframeOutcome ctx s (.ok k, ctx₁)) :
    ctx₁.keyframe? s = some k ∧
      ∀ (j : Nat) (c : Component), ctx.components[j]? = some c → ctx₁.components[j]? = some c := by
  cases h with
  | hit _ hcached => exact ⟨hcached, fun _ _ hc => hc⟩
  | built journal hnone hhosts =>
      refine ⟨?_, fun j c hc => ?_⟩
      · rw [keyframe?] at hnone
        simp [keyframe?, cached, staged, List.lookup_append, hnone]
      · exact (List.getElem?_append_left (List.getElem?_eq_some_iff.1 hc).1).trans hc

/-- A keyframe that is spawned exists, and the spawn is one record. -/
theorem components_of_keyframeSpawn {i k : Nat} {time : Float} {target : Group}
    (h : perform i time (.spawn (.component k) true (keyframeRemap target) 0.0) ctx =
      (.ok (), ctx')) :
    ∃ c d remap, ctx.components[i]? = some c ∧ ctx.components[k]? = some d ∧
      ctx'.components =
        ctx.components.set i (c.push (c.entry time (.spawn d.caller true none remap))) ∧
      ctx'.keyframes = ctx.keyframes ∧ (remap.getD .empty).resolve Group.keyframe = target := by
  obtain ⟨r, hdraft, rfl⟩ := perform_eq_ok.1 h
  obtain ⟨c, e, hc, he, hplace⟩ := draft_eq_ok.1 hdraft
  obtain ⟨-, -, -, rfl⟩ := place_eq_ok.1 hplace
  obtain ⟨g, -, hg, -⟩ := Action.effect_spawn_eq_ok.1 he
  obtain ⟨d, hd, -⟩ := Except.bind_eq_ok.1 hg
  have hd := component_eq_ok.1 hd
  obtain ⟨remap, heffect, hremap⟩ := effect_keyframeSpawn hd target
  cases he.symm.trans heffect
  exact ⟨c, d, remap, hc, hd, Component.modify_push _ hc, rfl, hremap⟩

/-- A successful scaling appends one record, which spawns the keyframe that is cached under
the key with the target in the place of the placeholder. -/
theorem scale_eq_ok {i : Nat} {time : Float} {target : Group}
    (h : scale i time target s ctx = (.ok (), ctx')) :
    ∃ k d c remap, ctx'.keyframe? s = some k ∧ ctx'.components[k]? = some d ∧
      ctx.components[i]? = some c ∧
      ctx'.components[i]? = some (c.push (c.entry time (.spawn d.caller true none remap))) ∧
      (remap.getD .empty).resolve Group.keyframe = target := by
  by_cases hpermits : ctx.Permits i time target s
  · rw [scale_of_permits hpermits] at h
    obtain ⟨k, ctx₁, hkeyframe, hspawn⟩ := bind_eq_ok.1 h
    obtain ⟨hfound, hkept⟩ := (hkeyframe ▸ keyframe_outcome hpermits.scaling ctx).found
    obtain ⟨c, hc⟩ := hpermits.component
    obtain ⟨c₁, d, remap, hc₁, hd, hset, hkeyframes, hremap⟩ := components_of_keyframeSpawn hspawn
    cases (hkept i c hc).symm.trans hc₁
    obtain ⟨d', hd', hcaller, -⟩ := (evolves_of_perform hspawn).extension.component k d hd
    refine ⟨k, d', c, remap, ?_, hd', hc, ?_, hremap⟩
    · rw [keyframe?, hkeyframes]
      exact hfound
    · rw [hset, hcaller]
      exact List.getElem?_set_self (List.getElem?_eq_some_iff.1 hc₁).1
  · obtain ⟨e, hscale⟩ := scale_of_not_permits hpermits
    cases hscale.symm.trans h

end Context

/-! ## Runs of calls -/

namespace Call

/-- The cached keys are those for which some call built a keyframe. -/
theorem mem_keys_runAll (config : Config) (ks : List Call) (key : Scaling) :
    key ∈ (runAll ks (Context.ofConfig config)).keyframes.map Prod.fst ↔
      Made (fun ctx k => k.Builds ctx key) ks (Context.ofConfig config) := by
  induction ks using List.reverseRecOn with
  | nil => exact iff_of_false (fun h => nomatch h) not_made_nil
  | append_singleton ks k ih =>
      rw [made_concat, runAll_concat, ← ih]
      rcases k.keyframes_run (runAll ks (Context.ofConfig config)) with
        ⟨hsame, hbuilds⟩ | ⟨s, c, -, -, hkeyframes, -, -, -, -, hbuilds⟩
      · rw [hsame]
        exact (or_iff_left (hbuilds key)).symm
      · rw [hkeyframes, hbuilds, List.map_append, List.mem_append]
        exact or_congr_right List.mem_singleton

/-- The call addresses a keyframe. -/
def TouchesKeyframe (ctx : Context) (k : Call) : Prop :=
  ∃ i, k.address = some i ∧ ctx.IsKeyframe i

theorem memoized_runAll (config : Config) (ks : List Call)
    (h : ¬ Made TouchesKeyframe ks (Context.ofConfig config)) :
    (runAll ks (Context.ofConfig config)).Memoized := by
  induction ks using List.reverseRecOn with
  | nil => exact .ofConfig config
  | append_singleton ks k ih =>
      rw [made_concat, not_or] at h
      rw [runAll_concat]
      exact (ih h.1).run fun i haddress hkeyframe => h.2 ⟨i, haddress, hkeyframe⟩

end Call

/-- After calls that address no keyframe the keyframes are memoized: every cached key has a
keyframe of its own that presents it, a further scaling that succeeds spawns the keyframe
that is cached under its key, and there are as many keyframes as keys for which one was
built.  Scalings have the same key if and only if they are equal up to the signs of zeros. -/
theorem keyframes_memoized (config : Config) (ks : List Call)
    (h : ¬ Call.Made Call.TouchesKeyframe ks (Context.ofConfig config)) :
    (Call.runAll ks (Context.ofConfig config)).Memoized ∧
    (∀ i time target s ctx',
      Context.scale i time target s (Call.runAll ks (Context.ofConfig config)) = (.ok (), ctx') →
      ∃ k d c remap, ctx'.keyframe? s = some k ∧ ctx'.components[k]? = some d ∧
        (Call.runAll ks (Context.ofConfig config)).components[i]? = some c ∧
        ctx'.components[i]? = some (c.push (c.entry time (.spawn d.caller true none remap))) ∧
        (remap.getD .empty).resolve Group.keyframe = target) ∧
    (Call.runAll ks (Context.ofConfig config)).keyframes.length =
      {key | Call.Made (fun ctx k => k.Builds ctx key) ks (Context.ofConfig config)}.ncard ∧
    ∀ s s' : Scaling, s.validate = .ok () → s'.validate = .ok () →
      (s.key = s'.key ↔ s.Alike s') := by
  have hmemoized := Call.memoized_runAll config ks h
  refine ⟨hmemoized, fun _ _ _ _ _ => Context.scale_eq_ok, ?_, fun _ _ => Scaling.key_eq_iff⟩
  have hkeys : {key | Call.Made (fun ctx k => k.Builds ctx key) ks (Context.ofConfig config)} =
      ((Call.runAll ks (Context.ofConfig config)).keyframes.map Prod.fst).toFinset := by
    ext key
    simp only [Set.mem_ofPred_eq, ← Call.mem_keys_runAll, List.coe_toFinset]
  rw [hkeys, Set.ncard_coe_finset, List.toFinset_card_of_nodup hmemoized.keys, List.length_map]

/-- Scalings by two factors.  The second differs from the first in the sign of a zero, and
the last has a target that is reserved. -/
def sharedKeyframes : List Call :=
  [.register "Boss" 36 none, .scale 0 1.0 40 { factor := 2.0, reverse := true },
    .scale 0 2.0 41 { factor := 2.0, hold := -0.0, reverse := true },
    .scale 0 3.0 24 { factor := 0.5 }, .scale 0 4.0 3 { factor := 4.0 }]

theorem keyframes_memoized_sharedKeyframes :
    ¬ Call.Made Call.TouchesKeyframe sharedKeyframes (Context.ofConfig {}) ∧
      (Call.runAll sharedKeyframes (Context.ofConfig {})).Memoized ∧
      (Call.runAll sharedKeyframes (Context.ofConfig {})).keyframes.length = 2 ∧
      {key | Call.Made (fun ctx k => k.Builds ctx key) sharedKeyframes
        (Context.ofConfig {})}.ncard = 2 := by
  have hspared : ¬ Call.Made Call.TouchesKeyframe sharedKeyframes (Context.ofConfig {}) := by
    simp only [sharedKeyframes, Call.made_cons, Call.not_made_nil, or_false, not_or]
    refine ⟨?_, ?_, ?_, ?_, ?_⟩ <;> rintro ⟨i, haddress, hkeyframe⟩ <;> cases haddress <;>
      exact absurd hkeyframe (by unfold Context.IsKeyframe; decide +kernel)
  have hlength : (Call.runAll sharedKeyframes (Context.ofConfig {})).keyframes.length = 2 := by
    decide +kernel
  obtain ⟨hmemoized, -, hcount, -⟩ := keyframes_memoized {} sharedKeyframes hspared
  exact ⟨hspared, hmemoized, hlength, hcount.symm.trans hlength⟩

end Barrage
