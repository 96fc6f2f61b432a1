import Barrage.Proofs.Call
import Barrage.Proofs.Number.Nonneg

/-!
# Records are not before the start

A record stands where the level is at the moment of its trigger, and no trigger takes a
negative time.  So in every run the places of all records along the schedule are not
negative, and none of them is NaN (`Reachable.timely`).  An infinite time is accepted,
and its place is infinite.

The property is one of single records, and groups do not matter to it.  What edits
components keeps it by `Context.Timely.set`.
-/

namespace Barrage

open Build

theorem Schedule.distance_nonneg {time : Float} (h : 0.0 ≤ time) : 0.0 ≤ distance time :=
  Number.mul_nonneg_of_pos (by decide +kernel) (by decide +kernel) h

theorem Context.x_of_place {ctx : Context} {c : Component} {time : Float} {e : Effect} {r : Record}
    (h : ctx.place c time e = .ok r) : 0.0 ≤ r.x := by
  obtain ⟨-, htime, -, rfl⟩ := place_eq_ok.1 h
  exact Schedule.distance_nonneg (Schedule.nonNegative_eq_ok.1 htime)

/-- No record is before the start of the schedule. -/
def Context.Timely (ctx : Context) : Prop :=
  ∀ c ∈ ctx.components, ∀ r ∈ c.records, 0.0 ≤ r.x

namespace Context.Timely

variable {ctx ctx' : Context}

theorem ofConfig (config : Config) : (Context.ofConfig config).Timely := fun _ hc => nomatch hc

theorem note (h : ctx.Timely) (hcomponents : ctx'.components = ctx.components) : ctx'.Timely := by
  intro c hc
  rw [hcomponents] at hc
  exact h c hc

theorem set {i : Nat} {c : Component} (h : ctx.Timely)
    (hcomponents : ctx'.components = ctx.components.set i c)
    (hrecords : ∀ r ∈ c.records, 0.0 ≤ r.x) : ctx'.Timely := by
  intro d hd
  rw [hcomponents] at hd
  rcases List.mem_or_eq_of_mem_set hd with hd | rfl
  · exact h d hd
  · exact hrecords

theorem push {i : Nat} {c : Component} {r : Record} (h : ctx.Timely)
    (hc : ctx.components[i]? = some c) (hr : 0.0 ≤ r.x)
    (hcomponents : ctx'.components = ctx.components.modify i (·.push r)) : ctx'.Timely := by
  rw [Component.modify_push r hc] at hcomponents
  refine h.set hcomponents fun r' hr' => ?_
  rcases List.mem_append.1 hr' with hr' | hr'
  · exact h c (List.mem_of_getElem? hc) r' hr'
  · cases List.mem_singleton.1 hr'
    exact hr

/-! ## Operations -/

theorem perform (i : Nat) (time : Float) (a : Action) :
    Keeps Timely (Context.perform i time a) := by
  intro ctx h
  rcases hrun : Context.perform i time a ctx with ⟨e | _, ctx'⟩
  · obtain ⟨-, rfl⟩ := perform_eq_error.1 hrun
    exact h
  · obtain ⟨r, hr, rfl⟩ := perform_eq_ok.1 hrun
    obtain ⟨c, e, hc, -, hplace⟩ := draft_eq_ok.1 hr
    exact h.push hc (x_of_place hplace) rfl

theorem inscribe (i : Nat) (time : Float) (e : Effect) :
    Keeps Timely (Context.inscribe i time e) := by
  intro ctx h
  rcases hrun : Context.inscribe i time e ctx with ⟨err | _, ctx'⟩
  · rw [inscribe_eq_error hrun]
    exact h
  · obtain ⟨c, r, hc, hr, rfl⟩ := inscribe_eq_ok.1 hrun
    exact h.push hc (x_of_place hr) rfl

theorem assertSpawnOrder (i : Nat) (required : Bool) :
    Keeps Timely (Context.assertSpawnOrder i required) := by
  intro ctx h
  rcases hrun : Context.assertSpawnOrder i required ctx with ⟨e | _, ctx'⟩
  · rw [assertSpawnOrder_eq_error hrun]
    exact h
  · obtain ⟨c, hc, rfl⟩ := assertSpawnOrder_eq_ok.1 hrun
    exact h.set rfl (h c (List.mem_of_getElem? hc))

theorem startGroupContext (i : Nat) (gs : List Group) :
    Keeps Timely (Context.startGroupContext i gs) := by
  intro ctx h
  rcases hrun : Context.startGroupContext i gs ctx with ⟨e | _, ctx'⟩
  · rw [startGroupContext_eq_error hrun]
    exact h
  · obtain ⟨c, hc, -, -, -, rfl⟩ := startGroupContext_eq_ok.1 hrun
    exact h.set rfl (h c (List.mem_of_getElem? hc))

theorem endGroupContext (i : Nat) : Keeps Timely (Context.endGroupContext i) := by
  intro ctx h
  rcases hrun : Context.endGroupContext i ctx with ⟨e | _, ctx'⟩
  · rw [endGroupContext_eq_error hrun]
    exact h
  · obtain ⟨c, hc, -, rfl⟩ := endGroupContext_eq_ok.1 hrun
    exact h.set rfl (h c (List.mem_of_getElem? hc))

theorem groupLastRecord (i : Nat) (gs : List Group) :
    Keeps Timely (Context.groupLastRecord i gs) := by
  intro ctx h
  rcases groupLastRecord_snd ctx i gs with heq | ⟨c, hc, -, heq⟩
  · rw [heq]
    exact h
  · have hold := h c (List.mem_of_getElem? hc)
    rw [heq]
    rcases c.groupLast_snd gs with hsame | ⟨init, last, extra, hrecords, -, -, -, hwide⟩
    · rw [hsame]
      exact h.set rfl hold
    · rw [hwide]
      refine h.set rfl fun r hr => ?_
      rcases List.mem_append.1 hr with hr | hr
      · exact hold r (hrecords ▸ List.mem_append_left _ hr)
      · cases List.mem_singleton.1 hr
        exact hold last (hrecords ▸ List.mem_append_right _ (List.mem_singleton_self _))

theorem register (name : String) (caller : Group) (layer : Option Nat) :
    Keeps Timely (Build.update fun ctx => ctx.register name caller layer) := by
  refine .update fun ctx h c hc => ?_
  rcases List.mem_append.1 hc with hc | hc
  · exact h c hc
  · cases List.mem_singleton.1 hc
    exact fun _ hr => nomatch hr

theorem elements : Elements Timely fun _ => True where
  fresh _ _ := trivial
  issueGroup := .update fun _ h => h
  register := register
  assertSpawnOrder _ required := assertSpawnOrder _ required
  perform _ time a := perform _ time a
  inscribe _ time s divide := inscribe _ time (s.effect divide)
  note h _ hcomponents _ _ _ _ := h.note hcomponents

theorem keepBases (b : Bases) : Keeps Timely (Context.keepBases b) := .change fun _ h => h

theorem ingredients (caller : Nat) : Ingredients Timely caller :=
  elements.ingredients keepBases trivial

/-! ## Runs -/

theorem call (h : ctx.Timely) (k : Call) : (k.run ctx).Timely := by
  cases k with
  | register name caller layer => exact register name caller layer ctx h
  | issueGroup => exact h
  | addSpell name caller => exact h
  | addToSpell spell component =>
      simp only [Call.run]
      split
      next ctx' hadd =>
        obtain ⟨spells, rfl⟩ := addToSpell_eq_ok hadd
        exact h
      next => exact h
  | drainWarnings => exact h
  | initBases => exact elements.initBases keepBases ctx h
  | requireBases => exact elements.requireBases keepBases ctx h
  | edit i e =>
      cases e with
      | trigger time a => exact perform i time a ctx h
      | spawnOrder required => exact assertSpawnOrder i required ctx h
      | openContext groups => exact startGroupContext i groups ctx h
      | closeContext => exact endGroupContext i ctx h
  | groupLastRecord i groups => exact groupLastRecord i groups ctx h
  | scale i time target scaling => exact elements.scale (fun _ _ h => h) trivial time target scaling ctx h
  | pattern caller pool p => exact (ingredients caller).pattern p ⟨ctx, pool⟩ h

end Context.Timely

theorem Reachable.timely {ctx : Context} (h : Reachable ctx) : ctx.Timely :=
  Run.holds (fun config _ => .ofConfig config) (fun k _ htimely => htimely.call k) h

end Barrage
