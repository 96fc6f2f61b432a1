import Barrage.Pattern.Timed
import Barrage.Proofs.Change

/-!
# What patterns are made of

A pattern acts on its context in four ways only.  It performs actions on its
caller, it gives warnings, it writes to the log, and it asks for the bases, which
are built on first use.  A property that survives these survives every pattern,
whether the pattern succeeds or fails in the middle (`Ingredients`).  The building of
bases is the one step that may do much and fail.  Where a property survives it only if
it succeeds, the same holds of patterns (`Attempts`).

In the same way the building of bases and of keyframes is made of a few steps
(`Elements`): a component is registered under a fresh group and then filled.

The first use of this is that patterns, keyframes and the building of bases
follow the elementary changes of a context, and edit no component but the caller
and those that they register themselves.
-/

namespace Barrage

open Build

theorem Firing.onContext_bind {α β : Type} (x : Build Context α) (f : α → Build Context β) :
    onContext (x >>= f) = (onContext x >>= fun a => onContext (f a)) := by
  funext s
  simp only [onContext, bind_apply]
  rcases x s.context with ⟨_ | _, _⟩ <;> rfl

theorem Firing.onContext_eq {α : Type} {x : Build Context α} {s s' : Firing}
    {result : Except BuildError α} :
    onContext x s = (result, s') ↔ x s.context = (result, s'.context) ∧ s'.pool = s.pool := by
  obtain ⟨context, pool⟩ := s'
  rcases hx : x s.context with ⟨result', context'⟩
  simp only [onContext, hx, Prod.mk.injEq, Firing.mk.injEq, and_assoc]
  exact and_congr_right fun _ => and_congr_right fun _ => eq_comm

namespace Build.Keeps

variable {α : Type}

/-- What a step keeps of the context, it keeps as a step of a pattern. -/
theorem onContext {P : Context → Prop} {x : Build Context α} (hx : Keeps P x) :
    Keeps (fun s => P s.context) (Firing.onContext x) := fun s hs => hx s.context hs

theorem setPool {P : Context → Prop} (pool : Pool) :
    Keeps (fun s => P s.context) (Firing.setPool pool) := fun _ hs => hs

theorem ite {σ : Type} {P : σ → Prop} {p : Prop} [Decidable p] {x y : Build σ α}
    (hx : Keeps P x) (hy : Keeps P y) : Keeps P (if p then x else y) := by
  by_cases h : p
  · rwa [if_pos h]
  · rwa [if_neg h]

theorem warn? {P : Context → Prop} (hwarn : ∀ w ctx, P ctx → P (ctx.warn w)) :
    ∀ w, Keeps P (Context.warn? w)
  | none => .pure ()
  | some w => .change (hwarn w)

end Build.Keeps

namespace Build.Leads

variable {α : Type} {P Q : Context → Prop}

theorem onContext {x : Build Context α} (hx : Leads P Q x) :
    Leads (fun s => P s.context) (fun s => Q s.context) (Firing.onContext x) where
  ok hs h := hx.ok hs (Firing.onContext_eq.1 h).1
  error hs h := hx.error hs (Firing.onContext_eq.1 h).1

/-- Planning gives warnings, asks for the bases and writes to the log. -/
theorem prepare (weaken : ∀ ctx, P ctx → Q ctx) (hwarn : ∀ w ctx, P ctx → P (ctx.warn w))
    (hlog : ∀ e ctx, P ctx → P (ctx.log e)) (hbases : Leads P Q Context.requireBases)
    (time : Float) (template : Nat) (as : List Assignment) :
    Leads P Q (Context.prepare time template as) := by
  have hkeeps {β : Type} {x : Build Context β} (hx : Keeps P x) : Leads P Q x :=
    .of_keeps hx weaken
  have hplan : Leads P Q (Context.planBursts template as) := by
    refine .bind (hkeeps (.check _)) fun c => ?_
    have hbursts : Leads P Q (Context.requireBases >>= fun b => Build.check fun _ =>
        b.planAll c.caller as) := .bind hbases fun b => hkeeps (.check _)
    exact .ite (.bind (hkeeps (.change (hwarn _))) fun _ => hbursts) hbursts
  exact .bind (hkeeps (.check _)) fun _ => .bind hplan fun _ =>
    .bind (hkeeps (.change (hlog _))) fun _ => hkeeps (.pure _)

end Build.Leads

theorem Build.Keeps.prepare {P : Context → Prop} (hwarn : ∀ w ctx, P ctx → P (ctx.warn w))
    (hlog : ∀ e ctx, P ctx → P (ctx.log e)) (hbases : Keeps P Context.requireBases) (time : Float)
    (template : Nat) (as : List Assignment) : Keeps P (Context.prepare time template as) :=
  (Leads.prepare (fun _ h => h) hwarn hlog hbases.leads time template as).keeps

/-- Warnings give no error, and change nothing but warnings and the log. -/
theorem Context.evolves_of_warn? {A : Nat → Prop} {w : Option Warning} {ctx ctx' : Context}
    {result : Except BuildError Unit} (h : warn? w ctx = (result, ctx')) :
    result = .ok () ∧ ctx'.components = ctx.components ∧ ctx'.bases = ctx.bases ∧
      Evolves A ctx ctx' := by
  cases w with
  | none =>
      cases h
      exact ⟨rfl, rfl, rfl, .refl ctx⟩
  | some w =>
      cases h
      exact ⟨rfl, rfl, rfl, (Evolves.refl ctx).note rfl rfl rfl⟩

/-! ## Patterns -/

/-- The property `P` survives warnings, and bursts of a template and motions of bullets lead
from it to `Q` where they fail.  These are all that an instant pattern does to its context. -/
structure Arms (P Q : Context → Prop) (caller template : Nat) : Prop where
  weaken : ∀ ctx, P ctx → Q ctx
  warn : ∀ w ctx, P ctx → P (ctx.warn w)
  fire : ∀ time as, Leads P Q (Context.fire caller time template as)
  move : ∀ time direction distance bullet duration,
    Leads P Q (Pattern.moveBullet caller time direction distance bullet duration)

namespace Arms

variable {P Q : Context → Prop} {caller template : Nat}

theorem keeps {α : Type} (h : Arms P Q caller template) {x : Build Firing α}
    (hx : Keeps (fun s => P s.context) x) :
    Leads (fun s => P s.context) (fun s => Q s.context) x :=
  .of_keeps hx fun s => h.weaken s.context

theorem arc (h : Arms P Q caller template) (time : Float) (circle : Circle) (arc : Arc) :
    Leads (fun s => P s.context) (fun s => Q s.context)
      (Pattern.arc caller time template circle arc) :=
  .bind (h.keeps (.check _)) fun volley =>
    .bind (h.keeps (.onContext (.warn? h.warn volley.warning))) fun _ =>
      .bind (.onContext (h.fire time volley.assignments)) fun _ => h.keeps (.setPool _)

theorem radial (h : Arms P Q caller template) (time : Float) (circle : Circle) (radial : Radial) :
    Leads (fun s => P s.context) (fun s => Q s.context)
      (Pattern.radial caller time template circle radial) :=
  .bind (h.keeps (.check _)) fun arc => h.arc time circle arc

theorem line (h : Arms P Q caller template) (time : Float) (emitter direction : Group)
    (line : Line) : Leads (fun s => P s.context) (fun s => Q s.context)
      (Pattern.line caller time template emitter direction line) :=
  .bind (h.keeps (.check _)) fun (volley, _) =>
    .bind (h.keeps (.onContext (.warn? h.warn volley.warning))) fun _ =>
      .bind (.onContext (h.fire time volley.assignments)) fun _ =>
        .bind (.onContext (.each h.weaken fun _ _ => h.move _ _ _ _ _)) fun _ =>
          h.keeps (.setPool _)

theorem radialWave (h : Arms P Q caller template) (time : Float) (circle : Circle)
    (w : RadialWave) : Leads (fun s => P s.context) (fun s => Q s.context)
      (Pattern.radialWave caller time template circle w) :=
  .bind (h.keeps (.check _)) fun _ =>
    .each (fun s : Firing => h.weaken s.context) fun _ _ => h.radial _ circle w.radial

end Arms

/-- The property `P` survives everything that a pattern does to its context, but the building
of bases may fail in a state of `Q`. -/
structure Attempts (P Q : Context → Prop) (caller : Nat) : Prop where
  weaken : ∀ ctx, P ctx → Q ctx
  perform : ∀ time a, Keeps P (Context.perform caller time a)
  warn : ∀ w ctx, P ctx → P (ctx.warn w)
  log : ∀ e ctx, P ctx → P (ctx.log e)
  bases : Leads P Q Context.requireBases

namespace Attempts

variable {P Q : Context → Prop} {caller : Nat}

theorem fire (h : Attempts P Q caller) (time : Float) (template : Nat) (as : List Assignment) :
    Leads P Q (Context.fire caller time template as) :=
  .bind (.prepare h.weaken h.warn h.log h.bases time template as) fun _ =>
    .of_keeps (.each fun _ _ => h.perform time _) h.weaken

theorem arms (h : Attempts P Q caller) (template : Nat) : Arms P Q caller template where
  weaken := h.weaken
  warn := h.warn
  fire time as := h.fire time template as
  move _ _ _ _ _ := .of_keeps (h.perform _ _) h.weaken

/-- A timed line fires no bursts. -/
theorem timedLine (h : Attempts P Q caller) (time : Float) (template : Nat)
    (emitter direction : Group) (line : TimedLine) :
    Leads (fun s => P s.context) (fun s => Q s.context)
      (Pattern.timedLine caller time template emitter direction line) :=
  .of_keeps (.bind (.check _) fun volley =>
    .bind (.onContext (.warn? h.warn volley.warning)) fun _ =>
      .bind (.onContext (.each fun _ _ =>
        .bind (h.perform _ _) fun _ => h.perform _ _)) fun _ => .setPool _)
    fun s => h.weaken s.context

end Attempts

/-- The property survives everything that a pattern does to its context. -/
structure Ingredients (P : Context → Prop) (caller : Nat) : Prop where
  perform : ∀ time a, Keeps P (Context.perform caller time a)
  warn : ∀ w ctx, P ctx → P (ctx.warn w)
  log : ∀ e ctx, P ctx → P (ctx.log e)
  bases : Keeps P Context.requireBases

namespace Ingredients

variable {P : Context → Prop} {caller : Nat}

theorem attempts (h : Ingredients P caller) : Attempts P P caller where
  weaken _ hctx := hctx
  perform := h.perform
  warn := h.warn
  log := h.log
  bases := h.bases.leads

theorem prepare (h : Ingredients P caller) (time : Float) (template : Nat)
    (as : List Assignment) : Keeps P (Context.prepare time template as) :=
  .prepare h.warn h.log h.bases time template as

theorem fire (h : Ingredients P caller) (time : Float) (template : Nat) (as : List Assignment) :
    Keeps P (Context.fire caller time template as) :=
  (h.attempts.fire time template as).keeps

theorem radial (h : Ingredients P caller) (time : Float) (template : Nat) (circle : Circle)
    (radial : Radial) :
    Keeps (fun s => P s.context) (Pattern.radial caller time template circle radial) :=
  ((h.attempts.arms template).radial time circle radial).keeps

end Ingredients

/-! ## Bases and keyframes -/

/-- The context with a further keyframe in its cache. -/
def Context.cached (ctx : Context) (entry : Scaling × Nat) : Context :=
  { ctx with keyframes := ctx.keyframes ++ [entry] }

/-- The property survives everything that the building of bases and keyframes does
to a context.  It allows to edit the components in `A`, and new components are
among them. -/
structure Elements (P : Context → Prop) (A : Nat → Prop) : Prop where
  fresh : ∀ ctx, P ctx → A ctx.components.length
  issueGroup : Keeps P (Build.update Context.issueGroup)
  register : ∀ name caller layer,
    Keeps P (Build.update fun ctx => ctx.register name caller layer)
  assertSpawnOrder : ∀ {i}, A i → ∀ required, Keeps P (Context.assertSpawnOrder i required)
  perform : ∀ {i}, A i → ∀ time a, Keeps P (Context.perform i time a)
  inscribe : ∀ {i}, A i → ∀ time s divide,
    Keeps P (Context.inscribe i time (Scaling.effect s divide))
  /-- Warnings and the log do not matter. -/
  note : ∀ {ctx ctx' : Context}, P ctx → ctx'.config = ctx.config →
    ctx'.components = ctx.components → ctx'.nextUnknown = ctx.nextUnknown →
    ctx'.bases = ctx.bases → ctx'.keyframes = ctx.keyframes → ctx'.spells = ctx.spells → P ctx'

namespace Elements

variable {P : Context → Prop} {A : Nat → Prop}

/-- The rest of a build edits a component that the build registers itself. -/
theorem registerThen {α : Type} (h : Elements P A) (name : String) (caller : Group)
    (layer : Option Nat) {f : Nat → Build Context α} (hf : ∀ i, A i → Keeps P (f i)) :
    Keeps P (Build.update (fun ctx => ctx.register name caller layer) >>= f) := by
  refine .bindResult (h.register name caller layer) ?_ hf
  intro ctx hctx i hi
  cases hi
  exact h.fresh ctx hctx

theorem buildBase (h : Elements P A) (tier : Nat) : Keeps P (Context.buildBase tier) :=
  .bind .read fun _ => .bind h.issueGroup fun _ => h.registerThen _ _ _ fun _ hi =>
    .bind (h.assertSpawnOrder hi false) fun _ =>
      .bind (.each fun _ _ => h.perform hi 0.0 _) fun _ => .pure _

theorem buildTiers (h : Elements P A) : ∀ tiers, Keeps P (Context.buildTiers tiers)
  | [] => .pure _
  | tier :: rest => .bind (h.buildBase tier) fun _ => .bind (h.buildTiers rest) fun _ => .pure _

theorem buildBases (h : Elements P A) : Keeps P Context.buildBases :=
  .bind .read fun _ => .bind (h.buildTiers _) fun _ =>
    .bind (.change fun _ hctx => h.note hctx rfl rfl rfl rfl rfl rfl) fun _ => .pure _

theorem requireBases (h : Elements P A) (hkeep : ∀ b, Keeps P (Context.keepBases b)) :
    Keeps P Context.requireBases := by
  refine .bind .read fun ctx => ?_
  cases ctx.bases with
  | some b => exact .pure b
  | none => exact .bind h.buildBases fun b => .bind (hkeep b) fun _ => .pure b

/-- What the building of bases keeps, patterns keep. -/
theorem ingredients (h : Elements P A) (hkeep : ∀ b, Keeps P (Context.keepBases b)) {caller : Nat}
    (hcaller : A caller) : Ingredients P caller where
  perform := h.perform hcaller
  warn _ _ hctx := h.note hctx rfl rfl rfl rfl rfl rfl
  log _ _ hctx := h.note hctx rfl rfl rfl rfl rfl rfl
  bases := h.requireBases hkeep

theorem initBases (h : Elements P A) (hkeep : ∀ b, Keeps P (Context.keepBases b)) :
    Keeps P Context.initBases :=
  .bind .read fun _ => .ite (.fail _) (.bind h.buildBases hkeep)

/-- A keyframe that is finished is cached. -/
theorem buildKeyframe (h : Elements P A) (hcache : ∀ entry ctx, P ctx → P (ctx.cached entry))
    (s : Scaling) : Keeps P (Context.buildKeyframe s) := by
  refine .bind h.issueGroup fun caller => .bind .read fun ctx => h.registerThen _ _ _ fun i hi => ?_
  refine .bind (h.assertSpawnOrder hi true) fun _ => .bind (h.inscribe hi _ s false) fun _ => ?_
  refine .ite (.bind (h.inscribe hi _ s true) fun _ => ?_) ?_
  all_goals
    refine .bind (.change fun ctx' hctx' => ?_) fun _ => .pure i
    exact hcache (s.key, i) _ (h.note hctx' rfl rfl rfl rfl rfl rfl)

theorem keyframe (h : Elements P A) (hcache : ∀ entry ctx, P ctx → P (ctx.cached entry))
    (s : Scaling) : Keeps P (Context.keyframe s) := by
  refine .bind .read fun ctx => ?_
  cases ctx.keyframe? s with
  | some i => exact .pure i
  | none => exact h.buildKeyframe hcache s

theorem scale (h : Elements P A) (hcache : ∀ entry ctx, P ctx → P (ctx.cached entry)) {i : Nat}
    (hi : A i) (time : Float) (target : Group) (s : Scaling) :
    Keeps P (Context.scale i time target s) :=
  .bind (.check _) fun _ => .bind (h.keyframe hcache s) fun _ => h.perform hi time _

/-- What depends on the bases, the keyframes and the spells of a context alone survives as
long as none are added. -/
theorem caches (hP : ∀ {ctx ctx' : Context}, P ctx → ctx'.bases = ctx.bases →
    ctx'.keyframes = ctx.keyframes → ctx'.spells = ctx.spells → P ctx') :
    Elements P fun _ => True where
  fresh _ _ := trivial
  issueGroup := .update fun _ h => hP h rfl rfl rfl
  register _ _ _ := .update fun _ h => hP h rfl rfl rfl
  assertSpawnOrder {i} _ required ctx h := by
    rcases hrun : Context.assertSpawnOrder i required ctx with ⟨e | _, ctx'⟩
    · rw [Context.assertSpawnOrder_eq_error hrun]
      exact h
    · obtain ⟨c, -, rfl⟩ := Context.assertSpawnOrder_eq_ok.1 hrun
      exact hP h rfl rfl rfl
  perform {i} _ time a ctx h := by
    rcases hrun : Context.perform i time a ctx with ⟨e | _, ctx'⟩
    · obtain ⟨-, rfl⟩ := Context.perform_eq_error.1 hrun
      exact h
    · obtain ⟨r, -, rfl⟩ := Context.perform_eq_ok.1 hrun
      exact hP h rfl rfl rfl
  inscribe {i} _ time s divide ctx h := by
    rcases hrun : Context.inscribe i time (s.effect divide) ctx with ⟨e | _, ctx'⟩
    · rw [Context.inscribe_eq_error hrun]
      exact h
    · obtain ⟨c, r, -, -, rfl⟩ := Context.inscribe_eq_ok.1 hrun
      exact hP h rfl rfl rfl
  note h _ _ _ hbases hkeyframes hspells := hP h hbases hkeyframes hspells

end Elements

namespace Evolves

open Context

variable {A : Nat → Prop} {ctx₀ : Context}

/-- The building of bases and keyframes edits new components only. -/
theorem elements (hA : ∀ j, ctx₀.components.length ≤ j → A j) : Elements (Evolves A ctx₀) A where
  fresh _ h := hA _ h.length_le
  issueGroup := issueGroup
  register := register
  assertSpawnOrder := assertSpawnOrder
  perform := perform
  inscribe hi time s divide :=
    inscribe hi time (by simp [Scaling.effect, Effect.groupRefs, Effect.target?]) rfl
  note h hconfig hcomponents hnext _ _ _ := h.note hconfig hcomponents hnext

theorem cached (entry : Scaling × Nat) (ctx : Context) (h : Evolves A ctx₀ ctx) :
    Evolves A ctx₀ (ctx.cached entry) := h.note rfl rfl rfl

theorem keepBases (b : Bases) : Keeps (Evolves A ctx₀) (Context.keepBases b) :=
  .change fun _ h => h.note rfl rfl rfl

theorem requireBases (hA : ∀ j, ctx₀.components.length ≤ j → A j) :
    Keeps (Evolves A ctx₀) Context.requireBases :=
  (elements hA).requireBases keepBases

theorem initBases (hA : ∀ j, ctx₀.components.length ≤ j → A j) :
    Keeps (Evolves A ctx₀) Context.initBases :=
  (elements hA).initBases keepBases

/-- Everything that a pattern does to its context follows the changes that edit
its caller or a new component. -/
theorem ingredients (hA : ∀ j, ctx₀.components.length ≤ j → A j) {caller : Nat}
    (hcaller : A caller) : Ingredients (Evolves A ctx₀) caller :=
  (elements hA).ingredients keepBases hcaller

end Evolves

end Barrage
