import Barrage.Proofs.Pattern.Volley

/-!
# What a failed radial wave leaves behind

A radial wave fires its waves one by one, and a wave that fails ends it.  The waves
before remain, with their records in the caller and their bullets drawn.

So a failed radial wave leaves nothing behind exactly when it fails before the first
burst of its first wave is out (`Pattern.opening`).  A wave of an ordinary template is a
radial, and so it is all or nothing: the radial wave leaves the waves before the failed
one, complete, and nothing of the failed one (`radialWave_leaves`).
-/

namespace Barrage

open Build

namespace Pattern

variable {caller template : Nat} {time : Float} {circle : Circle}

/-! ## The first wave -/

/-- Fires a radial up to its first burst.  Gives the pool after the radial and the
other bursts. -/
def openRadial (caller : Nat) (time : Float) (template : Nat) (circle : Circle)
    (radial : Radial) : Build Firing (Pool × List Burst) := do
  let arc ← Build.check fun s => do
    let _ ← s.context.component caller
    radial.toArc
  let volley ← Build.check fun s => do
    let _ ← s.context.component caller
    aimArc s.context s.pool time template circle arc
  Firing.onContext (Context.warn? volley.warning)
  let rest ← Firing.onContext (Context.openFire caller time template volley.assignments)
  pure (volley.pool, rest)

/-- Fires the rest of a radial. -/
def closeRadial (caller : Nat) (time : Float) (opened : Pool × List Burst) :
    Build Firing Unit := do
  Firing.onContext (Build.each (Context.emitBurst caller time) opened.2)
  Firing.setPool opened.1

theorem radial_eq_openRadial {r : Radial} : radial caller time template circle r =
    (openRadial caller time template circle r >>= closeRadial caller time) := by
  simp only [radial, arc, openRadial, closeRadial, bind_assoc, pure_bind,
    Context.fire_eq_openFire, Firing.onContext_bind]

/-- A radial that does not get its first burst out edits new components only, and
its pool stays where it is. -/
theorem openRadial_eq_error {r : Radial} {s s' : Firing} {e : BuildError}
    (h : openRadial caller time template circle r s = (.error e, s')) :
    Evolves (fun j => s.context.components.length ≤ j) s.context s'.context ∧
      s'.pool = s.pool := by
  rcases bind_eq_error.1 h with h | ⟨arc, _, h₁, h⟩
  · obtain ⟨-, rfl⟩ := check_eq_error.1 h
    exact ⟨.refl _, rfl⟩
  obtain ⟨-, rfl⟩ := check_eq_ok.1 h₁
  rcases bind_eq_error.1 h with h | ⟨volley, _, h₂, h⟩
  · obtain ⟨-, rfl⟩ := check_eq_error.1 h
    exact ⟨.refl _, rfl⟩
  obtain ⟨-, rfl⟩ := check_eq_ok.1 h₂
  rcases bind_eq_error.1 h with h | ⟨_, s₁, h₃, h⟩
  · cases (Context.evolves_of_warn? (A := fun _ => True) (Firing.onContext_eq.1 h).1).1
  obtain ⟨hwarn, hpool₁⟩ := Firing.onContext_eq.1 h₃
  obtain ⟨-, hcomponents, -, hwarned⟩ := Context.evolves_of_warn? hwarn
  rcases bind_eq_error.1 h with h | ⟨_, _, -, h⟩
  · obtain ⟨hopen, hpool⟩ := Firing.onContext_eq.1 h
    have hopened := Context.openFire_eq_error hopen
    rw [hcomponents] at hopened
    exact ⟨hwarned.trans hopened, hpool.trans hpool₁⟩
  · cases h

/-- A radial that gets its first burst out has fired some assignments up to it. -/
theorem openRadial_eq_ok {r : Radial} {s s' : Firing} {opened : Pool × List Burst}
    (h : openRadial caller time template circle r s = (.ok opened, s')) (hctx : s.context.Regular) :
    ∃ as ctx c₀ c, as ≠ [] ∧ ctx.Regular ∧ ctx.components = s.context.components ∧
      ctx.components[caller]? = some c₀ ∧ ctx.components[template]? = some c ∧
      Context.openFire caller time template as ctx = (.ok opened.2, s'.context) := by
  simp only [openRadial, bind_eq_ok, check_eq_ok, Firing.onContext_eq] at h
  obtain ⟨arc, _, ⟨-, rfl⟩, volley, _, ⟨haim, rfl⟩, _, s₁, ⟨hwarn, -⟩, rest, s₂, ⟨hopen, -⟩,
    hpure⟩ := h
  obtain ⟨rfl, rfl⟩ := pure_eq_ok.1 hpure
  obtain ⟨-, hcomponents, hbases, hwarned⟩ := Context.evolves_of_warn? (A := fun _ => True) hwarn
  simp only [liftM, monadLift, MonadLift.monadLift, Except.bind_eq_ok, Except.mapError_eq_ok,
    Context.component_eq_ok] at haim
  obtain ⟨c₀, hcaller, haim⟩ := haim
  obtain ⟨has, c, htemplate⟩ := aimArc_eq_ok haim
  exact ⟨volley.assignments, s₁.context, c₀, c, has, hctx.evolves hbases hwarned, hcomponents,
    hcomponents ▸ hcaller, hcomponents ▸ htemplate, hopen⟩

/-- The first burst of a radial is a record of the caller. -/
theorem openRadial_grows {r : Radial} {s s' : Firing} {opened : Pool × List Burst}
    (h : openRadial caller time template circle r s = (.ok opened, s')) (hctx : s.context.Regular) :
    ∃ c₀ c₁, s.context.components[caller]? = some c₀ ∧ s'.context.components[caller]? = some c₁ ∧
      c₀.records.length < c₁.records.length := by
  obtain ⟨as, ctx, c₀, c, has, hregular, hcomponents, hcaller, htemplate, hopen⟩ :=
    openRadial_eq_ok h hctx
  obtain ⟨r, hr⟩ := Context.openFire_grows hopen hregular has htemplate hcaller
  exact ⟨c₀, c₀.push r, hcomponents ▸ hcaller, hr, by simp [Component.push]⟩

/-! ## Waves -/

/-- A wave of a radial wave. -/
def wave (caller : Nat) (time : Float) (template : Nat) (circle : Circle) (w : RadialWave)
    (k : Nat) : Build Firing Unit :=
  radial caller (time + Float.ofNat k * w.interval) template circle w.radial

/-- Fires a radial wave up to the first burst of its first wave. -/
def opening (caller : Nat) (time : Float) (template : Nat) (circle : Circle) (w : RadialWave) :
    Build Firing (Pool × List Burst) := do
  Build.check fun s => do
    let _ ← s.context.component caller
    checkWaves s.context time template w
  openRadial caller (time + Float.ofNat 0 * w.interval) template circle w.radial

variable {w : RadialWave}

/-- A radial wave that passes its checks has a wave. -/
theorem waves_ne_zero {s s' : Firing}
    (h : (Build.check fun s : Firing => do
      let _ ← s.context.component caller
      checkWaves s.context time template w) s = (.ok (), s')) : w.waves ≠ 0 := by
  obtain ⟨_, -, hwaves⟩ := Except.bind_eq_ok.1 (check_eq_ok.1 h).1
  simp only [checkWaves, Except.guard_eq_ok] at hwaves
  exact hwaves.1

theorem radialWave_eq : radialWave caller time template circle w =
    ((Build.check fun s => do
      let _ ← s.context.component caller
      checkWaves s.context time template w) >>= fun _ =>
        Build.each (wave caller time template circle w) (List.range w.waves)) := rfl

/-- A radial wave goes on where its opening ends. -/
theorem radialWave_eq_opening {n : Nat} (hn : w.waves = n + 1) :
    radialWave caller time template circle w =
      (opening caller time template circle w >>= fun opened =>
        closeRadial caller (time + Float.ofNat 0 * w.interval) opened >>= fun _ =>
          Build.each (wave caller time template circle w) ((List.range n).map Nat.succ)) := by
  have hfirst : wave caller time template circle w 0 = _ := radial_eq_openRadial
  simp only [radialWave_eq, opening, hn, List.range_succ_eq_map, each_cons, hfirst, bind_assoc]

/-- A radial wave whose opening fails fails there. -/
theorem radialWave_of_opening_error {s s' : Firing} {e : BuildError}
    (h : opening caller time template circle w s = (.error e, s')) :
    radialWave caller time template circle w s = (.error e, s') := by
  cases hn : w.waves with
  | zero =>
      -- Without waves the first check fails already.
      rcases bind_eq_error.1 h with hcheck | ⟨_, s₁, hcheck, -⟩
      · exact bind_eq_error.2 (Or.inl hcheck)
      · exact absurd hn (waves_ne_zero hcheck)
  | succ n =>
      rw [radialWave_eq_opening hn]
      exact bind_eq_error.2 (Or.inl h)

/-- A radial wave whose opening succeeds only adds to it. -/
theorem evolves_of_opening {s s₁ : Firing} {opened : Pool × List Burst}
    (h : opening caller time template circle w s = (.ok opened, s₁)) :
    Evolves (fun _ => True) s₁.context
      (radialWave caller time template circle w s).2.context := by
  have hingredients : Ingredients (Evolves (fun _ => True) s₁.context) caller :=
    Evolves.ingredients (fun _ _ => trivial) trivial
  have hn : w.waves ≠ 0 := by
    obtain ⟨_, s₂, hcheck, -⟩ := bind_eq_ok.1 h
    exact waves_ne_zero hcheck
  obtain ⟨n, hn⟩ := Nat.exists_eq_succ_of_ne_zero hn
  have hrest : Keeps (fun t => Evolves (fun _ => True) s₁.context t.context)
      (closeRadial caller (time + Float.ofNat 0 * w.interval) opened >>= fun _ =>
        Build.each (wave caller time template circle w) ((List.range n).map Nat.succ)) :=
    .bind (.bind (.onContext (.each fun _ _ => hingredients.perform _ _)) fun _ => .setPool _)
      fun _ => .each fun _ _ => hingredients.radial _ template circle w.radial
  rw [radialWave_eq_opening hn, bind_apply, h]
  exact hrest s₁ (.refl _)

theorem opening_unchanged {s s' : Firing} {e : BuildError}
    (h : opening caller time template circle w s = (.error e, s')) : s.Unchanged s' := by
  rcases bind_eq_error.1 h with h | ⟨_, _, hcheck, h⟩
  · obtain ⟨-, rfl⟩ := check_eq_error.1 h
    exact .of_evolves (.refl _) rfl
  · obtain ⟨-, rfl⟩ := check_eq_ok.1 hcheck
    obtain ⟨hevolves, hpool⟩ := openRadial_eq_error h
    exact .of_evolves hevolves hpool

theorem opening_changed {s s₁ : Firing} {opened : Pool × List Burst}
    (h : opening caller time template circle w s = (.ok opened, s₁)) (hctx : s.context.Regular) :
    ¬ s.Unchanged (radialWave caller time template circle w s).2 := by
  have hevolves := evolves_of_opening h
  obtain ⟨_, _, hcheck, h⟩ := bind_eq_ok.1 h
  obtain ⟨-, rfl⟩ := check_eq_ok.1 hcheck
  obtain ⟨c₀, c₁, hc₀, hc₁, hgrowth⟩ := openRadial_grows h hctx
  exact Firing.Unchanged.not_of_growth hc₀ hc₁ hgrowth hevolves

/-- A radial wave leaves nothing behind exactly if its opening fails. -/
theorem unchanged_iff_opening {s s' : Firing} {result : Except BuildError Unit}
    (hctx : s.context.Regular)
    (h : radialWave caller time template circle w s = (result, s')) :
    s.Unchanged s' ↔ ∃ e s₁, opening caller time template circle w s = (.error e, s₁) := by
  rcases hopening : opening caller time template circle w s with ⟨e | opened, s₁⟩
  · cases h.symm.trans (radialWave_of_opening_error hopening)
    exact ⟨fun _ => ⟨e, s', rfl⟩, fun _ => opening_unchanged hopening⟩
  · have hchanged := opening_changed hopening hctx
    rw [h] at hchanged
    refine ⟨fun hs => absurd hs hchanged, ?_⟩
    rintro ⟨_, _, hfailed⟩
    cases hfailed

/-- The waves that were fired leave a regular context, in which the template runs on
the same group. -/
theorem regular_of_waves {k : Nat} {s s₁ : Firing} {c : Component}
    (h : Build.each (wave caller time template circle w) (List.range k) s = (.ok (), s₁))
    (hctx : s.context.Regular) (hc : s.context.components[template]? = some c) :
    s₁.context.Regular ∧ ∃ c₁, s₁.context.components[template]? = some c₁ ∧
      c₁.caller = c.caller := by
  have hregular : Keeps (fun t => t.context.Regular)
      (Build.each (wave caller time template circle w) (List.range k)) :=
    .each fun _ _ => (Context.Regular.ingredients caller).radial _ template circle w.radial
  have hevolves : Keeps (fun t => Evolves (fun _ => True) s.context t.context)
      (Build.each (wave caller time template circle w) (List.range k)) :=
    .each fun _ _ => (Evolves.ingredients (fun _ _ => trivial) trivial).radial _ template circle
      w.radial
  have hregular₁ := hregular s hctx
  have hevolves₁ := hevolves s (.refl _)
  rw [h] at hregular₁ hevolves₁
  obtain ⟨c₁, hc₁, hcaller, -⟩ := hevolves₁.extension.component template c hc
  exact ⟨hregular₁, c₁, hc₁, hcaller⟩

/-- A radial wave that is past its first wave has a successful opening. -/
theorem opening_of_waves {k : Nat} {s s₁ : Firing}
    (hcheck : (Build.check fun s : Firing => do
      let _ ← s.context.component caller
      checkWaves s.context time template w) s = (.ok (), s))
    (h : Build.each (wave caller time template circle w) (List.range (k + 1)) s = (.ok (), s₁)) :
    ∃ opened s₂, opening caller time template circle w s = (.ok opened, s₂) := by
  rw [List.range_succ_eq_map, each_cons_eq_ok] at h
  obtain ⟨s₂, hfirst, -⟩ := h
  rw [wave, radial_eq_openRadial, bind_eq_ok] at hfirst
  obtain ⟨opened, s₃, hopen, -⟩ := hfirst
  exact ⟨opened, s₃, bind_eq_ok.2 ⟨(), s, hcheck, hopen⟩⟩

end Pattern

/-- A failed radial wave leaves nothing behind exactly if the first burst of its first
wave was not fired.  With an ordinary template it leaves its first `k` waves, and
nothing of the wave that failed. -/
theorem radialWave_leaves {caller template : Nat} {time : Float} {circle : Circle}
    {w : RadialWave} {s s' : Firing} {e : BuildError} (hctx : Reachable s.context)
    (h : Pattern.radialWave caller time template circle w s = (.error e, s')) :
    (s.Unchanged s' ↔
      ∃ e₁ s₁, Pattern.opening caller time template circle w s = (.error e₁, s₁)) ∧
    ∀ c, s.context.components[template]? = some c → c.caller ≠ Group.template →
      ∃ k s₁,
        Build.each (Pattern.wave caller time template circle w) (List.range k) s = (.ok (), s₁) ∧
        s₁.Unchanged s' ∧ (s.Unchanged s' ↔ k = 0) := by
  have hregular : s.context.Regular := Run.regular hctx
  have hiff := Pattern.unchanged_iff_opening hregular h
  refine ⟨hiff, fun c hc hne => ?_⟩
  rw [Pattern.radialWave_eq, bind_eq_error] at h
  rcases h with h | ⟨_, s₀, hcheck, h⟩
  · obtain ⟨-, rfl⟩ := check_eq_error.1 h
    have hsame : s.Unchanged s := .of_evolves (.refl _) rfl
    exact ⟨0, s, rfl, hsame, fun _ => rfl, fun _ => hsame⟩
  obtain ⟨-, rfl⟩ := check_eq_ok.1 hcheck
  obtain ⟨k, -, s₁, hwaves, hfail⟩ := each_range_eq_error h
  obtain ⟨hregular₁, c₁, hc₁, hcaller⟩ := Pattern.regular_of_waves hwaves hregular hc
  have hunchanged : s₁.Unchanged s' :=
    Pattern.unchanged_of_radial_error hfail hregular₁ fun c' hc' => by
      cases hc₁.symm.trans hc'
      exact hcaller ▸ hne
  refine ⟨k, s₁, hwaves, hunchanged, fun hs => ?_, ?_⟩
  · cases k with
    | zero => rfl
    | succ k =>
        obtain ⟨opened, s₂, hopening⟩ := Pattern.opening_of_waves hcheck hwaves
        obtain ⟨_, _, hfailed⟩ := hiff.1 hs
        cases hopening.symm.trans hfailed
  · rintro rfl
    cases hwaves
    exact hunchanged

/-- A caller, a template and a base, and a pool with two bullets.  The second bullet
is reserved. -/
def reservedBullet : Firing where
  context := Call.runAll
    [.register "Caller" 36 none, .register "Template" 37 none, .edit 1 (.spawnOrder true),
      .edit 1 (.trigger 0.0 (.toggle (.group Group.bullet) true)),
      .edit 1 (.trigger 0.0 (.toggle (.group Group.target) true)), .initBases]
    (Context.ofConfig { tiers := 1 })
  pool := { cycler := ⟨18, 19, 18, by decide, by decide⟩ }

/-- Two waves of one bullet each. -/
def twoWaves : RadialWave where
  radial := { bullets := some 1, spacing := none, center := 0.0 }
  waves := 2
  interval := 1.0

theorem radialWave_leaves_reservedBullet :
    ∃ e s', Pattern.radialWave 0 0.0 1 Circle.main twoWaves reservedBullet = (.error e, s') ∧
      ¬ reservedBullet.Unchanged s' ∧
      ∃ k s₁, k ≠ 0 ∧ Build.each (Pattern.wave 0 0.0 1 Circle.main twoWaves) (List.range k)
        reservedBullet = (.ok (), s₁) ∧ s₁.Unchanged s' := by
  have hreachable : Reachable reservedBullet.context :=
    Reachable.runAll (.withConfig (Context.withConfig_eq_ok.2 ⟨by decide, rfl⟩)) _
  have hfails : ¬ (Pattern.radialWave 0 0.0 1 Circle.main twoWaves reservedBullet).1.isOk := by
    decide +kernel
  have hopens : (Pattern.opening 0 0.0 1 Circle.main twoWaves reservedBullet).1.isOk := by
    decide +kernel
  have hcaller : (reservedBullet.context.components[1]?.map Component.caller) = some 37 := by
    decide +kernel
  rcases hrun : Pattern.radialWave 0 0.0 1 Circle.main twoWaves reservedBullet with ⟨e | _, s'⟩
  · obtain ⟨hiff, hwaves⟩ := radialWave_leaves hreachable hrun
    have hchanged : ¬ reservedBullet.Unchanged s' := by
      rw [hiff]
      rintro ⟨_, _, hfailed⟩
      rw [hfailed] at hopens
      cases hopens
    obtain ⟨c, hc, hgroup⟩ := Option.map_eq_some_iff.1 hcaller
    obtain ⟨k, s₁, hdone, hunchanged, hzero⟩ := hwaves c hc (by rw [hgroup]; decide)
    exact ⟨e, s', rfl, hchanged, k, s₁, fun hk => hchanged (hzero.2 hk), hdone, hunchanged⟩
  · rw [hrun] at hfails
    exact absurd rfl hfails

end Barrage
