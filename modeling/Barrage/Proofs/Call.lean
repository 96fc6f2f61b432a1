import Barrage.Proofs.Edit
import Barrage.Proofs.Pattern

/-!
# Calls and runs

A *call* is a request to a compiler from outside: it registers a component,
issues a group, edits a component, fires a pattern, and so on.  A call that fails
is a call too, and leaves behind what it did before it failed.  A *run* starts
with a fresh context, of the default configuration or of an accepted one, and
makes calls in any order.

Some results hold of runs that do without certain calls.  `Run ok` are the runs
that make a call only where `ok` permits it, and `Reachable` are all of them.

Every call follows the elementary changes of `Barrage.Proofs.Change`.  It edits
only the component that it addresses and those that it registers itself
(`Call.evolves`).
-/

namespace Barrage

open Build

/-- A request for a pattern. -/
inductive PatternCall where
  | arc (time : Float) (template : Nat) (circle : Circle) (arc : Arc)
  | radial (time : Float) (template : Nat) (circle : Circle) (radial : Radial)
  | line (time : Float) (template : Nat) (emitter direction : Group) (line : Line)
  | radialWave (time : Float) (template : Nat) (circle : Circle) (wave : RadialWave)
  | timedLine (time : Float) (template : Nat) (emitter direction : Group) (line : TimedLine)

/-- Fires a pattern from a component. -/
def PatternCall.run (caller : Nat) : PatternCall → Build Firing Unit
  | .arc time template circle a => Pattern.arc caller time template circle a
  | .radial time template circle r => Pattern.radial caller time template circle r
  | .line time template emitter direction l =>
    Pattern.line caller time template emitter direction l
  | .radialWave time template circle w => Pattern.radialWave caller time template circle w
  | .timedLine time template emitter direction l =>
    Pattern.timedLine caller time template emitter direction l

/-- Where the building of bases leads, each pattern leads. -/
theorem Attempts.pattern {P Q : Context → Prop} {caller : Nat} (h : Attempts P Q caller)
    (p : PatternCall) : Leads (fun s => P s.context) (fun s => Q s.context) (p.run caller) := by
  cases p with
  | arc time template circle arc => exact (h.arms template).arc time circle arc
  | radial time template circle radial => exact (h.arms template).radial time circle radial
  | line time template emitter direction line =>
      exact (h.arms template).line time emitter direction line
  | radialWave time template circle wave => exact (h.arms template).radialWave time circle wave
  | timedLine time template emitter direction line =>
      exact h.timedLine time template emitter direction line

/-- What survives the ingredients of patterns survives each of them. -/
theorem Ingredients.pattern {P : Context → Prop} {caller : Nat} (h : Ingredients P caller)
    (p : PatternCall) : Keeps (fun s => P s.context) (p.run caller) :=
  (h.attempts.pattern p).keeps

/-- A build that looks up an unknown component first does nothing. -/
theorem Firing.check_of_unknown {α β : Type} {i : Nat} {s : Firing}
    (h : s.context.components[i]? = none) (f : Firing → Component → Except BuildError α)
    (g : α → Build Firing β) :
    ((check fun s => do
      let c ← s.context.component i
      f s c) >>= g) s = (.error (.misuse (.unknownComponent i)), s) := by
  simp [bind_apply, check, Context.component, h, liftM, monadLift, MonadLift.monadLift]

/-- A pattern does nothing without its caller. -/
theorem PatternCall.run_of_none {caller : Nat} {s : Firing}
    (h : s.context.components[caller]? = none) (p : PatternCall) : (p.run caller s).2 = s := by
  cases p <;> exact congrArg Prod.snd (Firing.check_of_unknown h _ _)

/-- A request to a compiler. -/
inductive Call where
  | register (name : String) (caller : Group) (layer : Option Nat)
  | issueGroup
  | addSpell (name : String) (caller : Group)
  | addToSpell (spell component : Nat)
  | drainWarnings
  | initBases
  | requireBases
  | edit (i : Nat) (e : Edit)
  | groupLastRecord (i : Nat) (groups : List Group)
  | scale (i : Nat) (time : Float) (target : Group) (scaling : Scaling)
  /-- A pattern, with the pool that it draws from. -/
  | pattern (caller : Nat) (pool : Pool) (p : PatternCall)

namespace Call

/-- The component that a call edits. -/
def address : Call → Option Nat
  | .edit i _ => some i
  | .groupLastRecord i _ => some i
  | .scale i _ _ _ => some i
  | .pattern caller _ _ => some caller
  | _ => none

/-- The context after a call, whether it succeeds or fails. -/
def run : Call → Context → Context
  | .register name caller layer, ctx => (ctx.register name caller layer).2
  | .issueGroup, ctx => ctx.issueGroup.2
  | .addSpell name caller, ctx => (ctx.addSpell name caller).2
  | .addToSpell spell component, ctx =>
    match ctx.addToSpell spell component with
    | .ok ctx' => ctx'
    | .error _ => ctx
  | .drainWarnings, ctx => { ctx with warnings := [] }
  | .initBases, ctx => (Context.initBases ctx).2
  | .requireBases, ctx => (Context.requireBases ctx).2
  | .edit i e, ctx => (e.run i ctx).2
  | .groupLastRecord i groups, ctx => (Context.groupLastRecord i groups ctx).2
  | .scale i time target scaling, ctx => (Context.scale i time target scaling ctx).2
  | .pattern caller pool p, ctx => (p.run caller ⟨ctx, pool⟩).2.context

/-- The context after calls, one after the other. -/
def runAll (ks : List Call) (ctx : Context) : Context := ks.foldl (fun ctx k => k.run ctx) ctx

theorem runAll_append (ks ks' : List Call) (ctx : Context) :
    runAll (ks ++ ks') ctx = runAll ks' (runAll ks ctx) := List.foldl_append

theorem runAll_concat (ks : List Call) (k : Call) (ctx : Context) :
    runAll (ks ++ [k]) ctx = k.run (runAll ks ctx) := runAll_append ks [k] ctx

/-- One of the calls is of a certain kind where it is made. -/
def Made (Q : Context → Call → Prop) (ks : List Call) (ctx : Context) : Prop :=
  ∃ before k after, ks = before ++ k :: after ∧ Q (runAll before ctx) k

theorem not_made_nil {Q : Context → Call → Prop} {ctx : Context} : ¬ Made Q [] ctx := by
  rintro ⟨before, k, after, hks, -⟩
  simp at hks

theorem made_cons {Q : Context → Call → Prop} {k : Call} {ks : List Call} {ctx : Context} :
    Made Q (k :: ks) ctx ↔ Q ctx k ∨ Made Q ks (k.run ctx) := by
  constructor
  · rintro ⟨before, k', after, hks, hQ⟩
    cases before with
    | nil =>
        cases hks
        exact Or.inl hQ
    | cons k'' before =>
        cases hks
        exact Or.inr ⟨before, k', after, rfl, hQ⟩
  · rintro (hQ | ⟨before, k', after, rfl, hQ⟩)
    · exact ⟨[], k, ks, rfl, hQ⟩
    · exact ⟨k :: before, k', after, rfl, hQ⟩

theorem made_concat {Q : Context → Call → Prop} {ks : List Call} {k : Call} {ctx : Context} :
    Made Q (ks ++ [k]) ctx ↔ Made Q ks ctx ∨ Q (runAll ks ctx) k := by
  induction ks generalizing ctx with
  | nil => simp [made_cons, not_made_nil, runAll]
  | cons k' ks ih =>
      rw [List.cons_append, made_cons, made_cons, ih, or_assoc]
      rfl

/-- The components that a call may edit: the one it addresses, and new ones. -/
def Scope (k : Call) (ctx : Context) (j : Nat) : Prop :=
  k.address = some j ∨ ctx.components.length ≤ j

end Call

/-! ## Runs -/

theorem Config.validate_eq_ok {config : Config} :
    config.validate = .ok () ↔ config.fault? = none := by
  unfold validate
  cases config.fault? <;> simp

theorem Context.withConfig_eq_ok {config : Config} {ctx : Context} :
    Context.withConfig config = .ok ctx ↔ config.fault? = none ∧ Context.ofConfig config = ctx := by
  rw [withConfig, Except.seq_eq_ok, Except.pure_eq_ok, Config.validate_eq_ok]

/-- Contexts that are reached by calls, each of which is permitted where it is
made. -/
inductive Run (ok : Context → Call → Prop) : Context → Prop
  | new : Run ok (Context.ofConfig {})
  | withConfig {config : Config} {ctx : Context} :
      Context.withConfig config = .ok ctx → Run ok ctx
  | call {ctx : Context} (k : Call) : Run ok ctx → ok ctx k → Run ok (k.run ctx)

/-- What holds at the start of runs and survives the calls that they make holds in all
contexts that they reach. -/
theorem Run.holds {ok : Context → Call → Prop} {P : Context → Prop}
    (hinit : ∀ config : Config, config.fault? = none → P (Context.ofConfig config))
    (hcall : ∀ {ctx : Context} (k : Call), ok ctx k → P ctx → P (k.run ctx)) {ctx : Context}
    (h : Run ok ctx) : P ctx := by
  induction h with
  | new => exact hinit {} (by decide)
  | withConfig hconfig =>
      obtain ⟨haccepted, rfl⟩ := Context.withConfig_eq_ok.1 hconfig
      exact hinit _ haccepted
  | call k _ hk ih => exact hcall k hk ih

/-- Contexts that are reached by any calls. -/
def Reachable : Context → Prop := Run fun _ _ => True

/-- Calls lead from a reached context to a reached one. -/
theorem Reachable.runAll {ctx : Context} (h : Reachable ctx) (ks : List Call) :
    Reachable (Call.runAll ks ctx) := by
  induction ks generalizing ctx with
  | nil => exact h
  | cons k ks ih => exact ih (Run.call k h trivial)

/-! ## Calls follow changes -/

/-- A component is added to a spell at its end, if the spell does not have it. -/
theorem Context.addToSpell_cases {ctx ctx' : Context} {spell component : Nat}
    (h : ctx.addToSpell spell component = .ok ctx') :
    ctx' = ctx ∨ ∃ s, s ∈ ctx.spells ∧ component < ctx.components.length ∧
      component ∉ s.components ∧
      ctx' = { ctx with
        spells := ctx.spells.set spell { s with components := s.components ++ [component] } } := by
  simp only [addToSpell, Except.bind_eq_ok] at h
  obtain ⟨c, hc, h⟩ := h
  split at h
  · cases h
  next s hs =>
    split at h
    · cases h
      exact Or.inl rfl
    next hnew =>
      cases h
      have hlt : component < ctx.components.length :=
        (List.getElem?_eq_some_iff.1 (component_eq_ok.1 hc)).1
      exact Or.inr ⟨s, List.mem_of_getElem? hs, hlt, hnew, rfl⟩

/-- Adding a component to a spell changes spells only. -/
theorem Context.addToSpell_eq_ok {ctx ctx' : Context} {spell component : Nat}
    (h : ctx.addToSpell spell component = .ok ctx') : ∃ spells, ctx' = { ctx with spells } := by
  rcases addToSpell_cases h with rfl | ⟨s, -, -, -, rfl⟩
  · exact ⟨ctx'.spells, rfl⟩
  · exact ⟨_, rfl⟩

/-- An edit adds no bases, keyframes or spells. -/
theorem Edit.caches_run (i : Nat) (e : Edit) (ctx : Context) :
    (e.run i ctx).2.bases = ctx.bases ∧ (e.run i ctx).2.keyframes = ctx.keyframes ∧
      (e.run i ctx).2.spells = ctx.spells := by
  let P (ctx' : Context) : Prop :=
    ctx'.bases = ctx.bases ∧ ctx'.keyframes = ctx.keyframes ∧ ctx'.spells = ctx.spells
  have h : Elements P fun _ => True := .caches fun h hbases hkeyframes hspells =>
    ⟨hbases.trans h.1, hkeyframes.trans h.2.1, hspells.trans h.2.2⟩
  cases e with
  | trigger time a => exact h.perform trivial time a ctx ⟨rfl, rfl, rfl⟩
  | spawnOrder required => exact h.assertSpawnOrder trivial required ctx ⟨rfl, rfl, rfl⟩
  | openContext groups =>
      rw [run]
      rcases hrun : Context.startGroupContext i groups ctx with ⟨e | _, ctx'⟩
      · rw [Context.startGroupContext_eq_error hrun]
        exact ⟨rfl, rfl, rfl⟩
      · obtain ⟨c, -, -, -, -, rfl⟩ := Context.startGroupContext_eq_ok.1 hrun
        exact ⟨rfl, rfl, rfl⟩
  | closeContext =>
      rw [run]
      rcases hrun : Context.endGroupContext i ctx with ⟨e | _, ctx'⟩
      · rw [Context.endGroupContext_eq_error hrun]
        exact ⟨rfl, rfl, rfl⟩
      · obtain ⟨c, -, -, rfl⟩ := Context.endGroupContext_eq_ok.1 hrun
        exact ⟨rfl, rfl, rfl⟩

namespace Call

theorem edit_evolves (i : Nat) (e : Edit) (ctx : Context) :
    Evolves ((edit i e).Scope ctx) ctx (e.run i ctx).2 := by
  have hi : (edit i e).Scope ctx i := Or.inl rfl
  cases e with
  | trigger time a => exact Evolves.perform hi time a ctx (.refl ctx)
  | spawnOrder required => exact Evolves.assertSpawnOrder hi required ctx (.refl ctx)
  | openContext groups => exact Evolves.startGroupContext hi groups ctx (.refl ctx)
  | closeContext => exact Evolves.endGroupContext hi ctx (.refl ctx)

/-- A call edits the component that it addresses and new ones, by elementary
changes. -/
theorem evolves (k : Call) (ctx : Context) : Evolves (k.Scope ctx) ctx (k.run ctx) := by
  have hnew : ∀ j, ctx.components.length ≤ j → k.Scope ctx j := fun _ => Or.inr
  cases k with
  | register name caller layer => exact (Evolves.refl ctx).step (.register name caller layer)
  | issueGroup => exact (Evolves.refl ctx).step .issue
  | addSpell name caller => exact (Evolves.refl ctx).note rfl rfl rfl
  | addToSpell spell component =>
      simp only [run]
      split
      next ctx' hadd =>
        obtain ⟨spells, rfl⟩ := Context.addToSpell_eq_ok hadd
        exact (Evolves.refl ctx).note rfl rfl rfl
      next => exact .refl ctx
  | drainWarnings => exact (Evolves.refl ctx).note rfl rfl rfl
  | initBases => exact Evolves.initBases hnew ctx (.refl ctx)
  | requireBases => exact Evolves.requireBases hnew ctx (.refl ctx)
  | edit i e => exact edit_evolves i e ctx
  | groupLastRecord i groups => exact Evolves.groupLastRecord (Or.inl rfl) groups ctx (.refl ctx)
  | scale i time target scaling =>
      exact (Evolves.elements hnew).scale Evolves.cached (Or.inl rfl) time target scaling ctx
        (.refl ctx)
  | pattern caller pool p =>
      exact (Evolves.ingredients hnew (Or.inl rfl)).pattern p ⟨ctx, pool⟩ (.refl ctx)

/-- What every change keeps, calls keep. -/
theorem runAll_keeps {P : Context → Prop}
    (hP : ∀ {A : Nat → Prop} {ctx ctx' : Context}, Change A ctx ctx' → P ctx → P ctx')
    (ks : List Call) {ctx : Context} (h : P ctx) : P (runAll ks ctx) := by
  induction ks generalizing ctx with
  | nil => exact h
  | cons k ks ih => exact ih ((k.evolves ctx).keeps hP h)

/-- A component keeps its caller. -/
theorem caller_runAll {ctx : Context} {i : Nat} {c c' : Component}
    (hc : ctx.components[i]? = some c) (ks : List Call)
    (hc' : (runAll ks ctx).components[i]? = some c') : c'.caller = c.caller := by
  obtain ⟨d, hd, hcaller⟩ := runAll_keeps
    (P := fun ctx => ∃ d, ctx.components[i]? = some d ∧ d.caller = c.caller)
    (fun hstep ⟨d, hd, hcaller⟩ => by
      obtain ⟨d', hd', hsame, -⟩ := hstep.extension.component i d hd
      exact ⟨d', hd', hsame.trans hcaller⟩) ks ⟨c, hc, rfl⟩
  cases hd.symm.trans hc'
  exact hcaller

end Call

end Barrage
