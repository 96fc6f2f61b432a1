import Barrage.Hazard
import Barrage.Proofs.Build
import Barrage.Proofs.Record

/-!
# The check of hazards decides them

`Direct` and `Indirect` say what the two kinds of hazard are, without reference to
the check.  Records are counted one by one, and no order of search plays a part.

The check counts landings instead.  A landing of a component stands for the plain
spawns that go there (`count_plainLandings`), and a landing through a remap for the
immediate spawns of the activated group that the remap sends there
(`count_landings`).  The latter counts a record as often as the record lists the
group, so it needs that no record lists a group twice.  Without it the check finds
every hazard too, but it may find more (`error_of_indirectAt`).
-/

namespace Barrage.Hazard

/-! ## Hazards -/

/-- The group is listed by a spawn of some component. -/
def Bearing (cs : List Component) (g : Group) : Prop :=
  ∃ c ∈ cs, ∃ r ∈ c.records, r.isSpawn ∧ g ∈ r.groups

/-- The record spawns the group of a landing from its place, at once and as it is. -/
def PlainAt (l : Landing) (r : Record) : Prop :=
  r.isSpawn ∧ r.effect.delay == 0.0 ∧ r.effect.remap? = none ∧ placeBits r = l.1 ∧
    r.effect.target? = some l.2

/-- The record is run by a group, and through a remap it spawns the group of a landing
from its place, at once. -/
def Reaches (remap : Remap) (activated : Group) (l : Landing) (r : Record) : Prop :=
  r.isSpawn ∧ r.effect.delay == 0.0 ∧ activated ∈ r.groups ∧ placeBits r = l.1 ∧
    r.effect.target?.map remap.resolve = some l.2

instance (cs : List Component) (g : Group) : Decidable (Bearing cs g) :=
  inferInstanceAs (Decidable (∃ c ∈ cs, ∃ r ∈ c.records, r.isSpawn ∧ g ∈ r.groups))

instance (l : Landing) (r : Record) : Decidable (PlainAt l r) :=
  inferInstanceAs (Decidable (_ ∧ _))

instance (remap : Remap) (activated : Group) (l : Landing) (r : Record) :
    Decidable (Reaches remap activated l r) :=
  inferInstanceAs (Decidable (_ ∧ _))

/-- A component that requires spawn order has a direct hazard at a landing. -/
structure DirectAt (cs : List Component) (c : Component) (l : Landing) : Prop where
  ordered : c.requiresSpawnOrder
  twice : 2 ≤ c.records.countP (PlainAt l ·)
  bearing : Bearing cs l.2

/-- To activate a group with a remap is an indirect hazard at a landing. -/
structure IndirectAt (cs : List Component) (activated : Group) (remap : Remap) (l : Landing) :
    Prop where
  twice : 2 ≤ (allRecords cs).countP (Reaches remap activated l ·)
  redirected : ∃ r ∈ allRecords cs, Reaches remap activated l r ∧ r.effect.target? ≠ some l.2
  bearing : Bearing cs l.2

/-- Some component has a direct hazard. -/
def Direct (cs : List Component) : Prop := ∃ c ∈ cs, ∃ l, DirectAt cs c l

/-- Some spawn, with the remap that its text shows, is an indirect hazard. -/
def Indirect (cs : List Component) : Prop :=
  ∃ r ∈ allRecords cs, r.isSpawn ∧ ∃ activated remap l,
    r.effect.target? = some activated ∧ r.shownRemap? = some remap ∧
      IndirectAt cs activated remap l

/-! ## Searching -/

theorem least?_eq_none {ls : List Landing} : least? ls = none ↔ ls = [] := by
  cases ls with
  | nil => simp [least?]
  | cons a rest =>
      simp only [least?, reduceCtorEq, iff_false]
      split <;> simp

theorem mem_of_least? {ls : List Landing} {l : Landing} (h : least? ls = some l) : l ∈ ls := by
  induction ls generalizing l with
  | nil => cases h
  | cons a rest ih =>
      simp only [least?] at h
      split at h
      · cases h
        exact List.mem_cons_self
      next b hb =>
        cases h
        split
        · exact List.mem_cons_self
        · exact List.mem_cons_of_mem a (ih hb)

theorem mem_allRecords {cs : List Component} {r : Record} :
    r ∈ allRecords cs ↔ ∃ c ∈ cs, r ∈ c.records := List.mem_flatMap

theorem contains_spawnBearing {cs : List Component} {g : Group} :
    (spawnBearing cs).contains g ↔ Bearing cs g := by
  simp only [spawnBearing, List.contains_iff_mem, List.mem_flatMap, List.mem_filter,
    mem_allRecords, Bearing]
  constructor
  · rintro ⟨r, ⟨⟨c, hc, hr⟩, hspawn⟩, hg⟩
    exact ⟨c, hc, r, hr, hspawn, hg⟩
  · rintro ⟨c, hc, r, hr, hspawn, hg⟩
    exact ⟨r, ⟨⟨c, hc, hr⟩, hspawn⟩, hg⟩

/-! ## Direct hazards -/

theorem count_plainLandings (c : Component) (l : Landing) :
    (plainLandings c).count l = c.records.countP (PlainAt l ·) := by
  rw [plainLandings, List.count_filterMap, List.countP_filter]
  refine List.countP_congr fun r _ => ?_
  obtain ⟨x, g⟩ := l
  cases htarget : r.effect.target? with
  | none => simp [PlainAt, htarget]
  | some t =>
      simp [PlainAt, Record.isPlainSpawn, Record.isImmediateSpawn, htarget]
      tauto

theorem direct?_eq_some {cs : List Component} {c : Component} {e : HazardError}
    (h : direct? (spawnBearing cs) c = some e) :
    ∃ l, DirectAt cs c l ∧ e = .direct c.name l.2 (Float.ofBits l.1.toUInt64)
      (c.records.countP (PlainAt l ·)) := by
  simp only [direct?, Option.ite_none_right_eq_some, Option.map_eq_some_iff] at h
  obtain ⟨hordered, l, hleast, rfl⟩ := h
  have hbad := mem_of_least? hleast
  simp only [List.mem_filter, Bool.and_eq_true, decide_eq_true_eq, contains_spawnBearing,
    count_plainLandings] at hbad
  obtain ⟨-, htwice, hbearing⟩ := hbad
  exact ⟨l, ⟨hordered, htwice, hbearing⟩, by rw [count_plainLandings]⟩

theorem direct?_eq_none {cs : List Component} {c : Component} :
    direct? (spawnBearing cs) c = none ↔ ∀ l, ¬ DirectAt cs c l := by
  constructor
  · intro h l hl
    have hcount : 2 ≤ (plainLandings c).count l := by
      rw [count_plainLandings]
      exact hl.twice
    have hmem : l ∈ plainLandings c := List.count_pos_iff.1 (by omega)
    simp only [direct?, if_pos hl.ordered, Option.map_eq_none_iff, least?_eq_none,
      List.filter_eq_nil_iff, Bool.and_eq_true, decide_eq_true_eq, contains_spawnBearing] at h
    exact h l hmem ⟨hcount, hl.bearing⟩
  · intro h
    cases he : direct? (spawnBearing cs) c with
    | none => rfl
    | some e =>
        obtain ⟨l, hl, -⟩ := direct?_eq_some he
        exact absurd hl (h l)

/-! ## Indirect hazards -/

/-- Where the spawns of an activated group go through a remap. -/
def marked (cs : List Component) (activated : Group) (remap : Remap) : List (Landing × Bool) :=
  remappedLandings remap (candidates ((allRecords cs).filter Record.isImmediateSpawn) activated)

theorem le_countP_candidates (p : Record → Bool) (rs : List Record) (g : Group) :
    rs.countP (fun r => decide (g ∈ r.groups) && p r) ≤ (candidates rs g).countP p := by
  induction rs with
  | nil => simp [candidates]
  | cons r rs ih =>
      simp only [candidates, List.flatMap_cons, List.countP_append, List.countP_replicate,
        List.countP_cons, Bool.and_eq_true, decide_eq_true_eq] at ih ⊢
      by_cases hg : g ∈ r.groups
      · have hcount : 0 < r.groups.count g := List.count_pos_iff.2 hg
        cases p r <;> simp only [hg, Bool.false_eq_true, true_and, if_true, if_false] <;> omega
      · simp only [hg, false_and, if_false]
        omega

theorem countP_candidates (p : Record → Bool) {rs : List Record} (g : Group)
    (h : ∀ r ∈ rs, r.groups.Nodup) :
    (candidates rs g).countP p = rs.countP (fun r => decide (g ∈ r.groups) && p r) := by
  induction rs with
  | nil => simp [candidates]
  | cons r rs ih =>
      have hr := h r List.mem_cons_self
      have ih := ih fun s hs => h s (List.mem_cons_of_mem r hs)
      simp only [candidates, List.flatMap_cons, List.countP_append, List.countP_replicate,
        List.countP_cons, Bool.and_eq_true, decide_eq_true_eq, hr.count] at ih ⊢
      by_cases hg : g ∈ r.groups
      · cases p r <;> simp only [hg, Bool.false_eq_true, true_and, if_true, if_false] <;> omega
      · simp only [hg, false_and, if_false, ite_self]
        omega

section Through

variable {cs : List Component} {activated : Group} {remap : Remap} {l : Landing}

/-- A landing through a remap, as a condition on the record that lands there. -/
theorem reaches_iff {r : Record} : Reaches remap activated l r ↔
    r.isImmediateSpawn ∧ activated ∈ r.groups ∧
      (r.effect.target?.map fun g => (placeBits r, remap.resolve g)) = some l := by
  obtain ⟨x, g⟩ := l
  cases htarget : r.effect.target? with
  | none => simp [Reaches, htarget]
  | some t =>
      simp [Reaches, Record.isImmediateSpawn, htarget]
      tauto

theorem count_marked : ((marked cs activated remap).map Prod.fst).count l =
    (candidates ((allRecords cs).filter Record.isImmediateSpawn) activated).countP fun r =>
      (r.effect.target?.map fun g => (placeBits r, remap.resolve g)) == some l := by
  rw [marked, remappedLandings, List.map_filterMap, List.count_filterMap]
  refine List.countP_congr fun r _ => ?_
  simp [Function.comp_def]

theorem countP_reaches : (allRecords cs).countP (Reaches remap activated l ·) =
    ((allRecords cs).filter Record.isImmediateSpawn).countP fun r =>
      decide (activated ∈ r.groups) &&
        (r.effect.target?.map fun g => (placeBits r, remap.resolve g)) == some l := by
  rw [List.countP_filter]
  refine List.countP_congr fun r _ => ?_
  simp only [decide_eq_true_eq, reaches_iff, Bool.and_eq_true, beq_iff_eq]
  tauto

theorem le_count_landings : (allRecords cs).countP (Reaches remap activated l ·) ≤
    ((marked cs activated remap).map Prod.fst).count l := by
  rw [count_marked, countP_reaches]
  exact le_countP_candidates _ _ _

theorem count_landings (h : ∀ r ∈ allRecords cs, r.groups.Nodup) :
    ((marked cs activated remap).map Prod.fst).count l =
      (allRecords cs).countP (Reaches remap activated l ·) := by
  rw [count_marked, countP_reaches]
  exact countP_candidates _ _ fun r hr => h r (List.mem_of_mem_filter hr)

theorem mem_candidates {rs : List Record} {g : Group} {r : Record} :
    r ∈ candidates rs g ↔ r ∈ rs ∧ g ∈ r.groups := by
  simp only [candidates, List.mem_flatMap, List.mem_replicate]
  constructor
  · rintro ⟨_, hr, hcount, rfl⟩
    exact ⟨hr, List.count_pos_iff.1 (Nat.pos_of_ne_zero hcount)⟩
  · rintro ⟨hr, hg⟩
    exact ⟨r, hr, Nat.pos_iff_ne_zero.1 (List.count_pos_iff.2 hg), rfl⟩

theorem redirected_iff : (marked cs activated remap).contains (l, true) ↔
    ∃ r ∈ allRecords cs, Reaches remap activated l r ∧ r.effect.target? ≠ some l.2 := by
  simp only [marked, remappedLandings, List.contains_iff_mem, List.mem_filterMap, mem_candidates,
    List.mem_filter, Option.map_eq_some_iff]
  constructor
  · rintro ⟨r, ⟨⟨hr, himmediate⟩, hg⟩, t, ht, heq⟩
    obtain ⟨rfl, hmark⟩ := Prod.mk.inj heq
    refine ⟨r, hr, reaches_iff.2 ⟨himmediate, hg, by simp [ht]⟩, ?_⟩
    rw [ht]
    intro htarget
    exact bne_iff_ne.1 hmark (Option.some.inj htarget).symm
  · rintro ⟨r, hr, hreaches, htarget⟩
    obtain ⟨himmediate, hg, hlanding⟩ := reaches_iff.1 hreaches
    obtain ⟨t, ht, rfl⟩ := Option.map_eq_some_iff.1 hlanding
    refine ⟨r, ⟨⟨hr, himmediate⟩, hg⟩, t, ht, Prod.ext rfl (bne_iff_ne.2 fun heq => htarget ?_)⟩
    rw [ht, heq]

end Through

section Spawns

variable {cs : List Component} {c : Component} {r : Record}

/-- A remap that redirects something is not empty. -/
theorem IndirectAt.pairs_ne_nil {activated : Group} {remap : Remap} {l : Landing}
    (h : IndirectAt cs activated remap l) : remap.pairs ≠ [] := by
  intro hnil
  obtain ⟨r, -, ⟨-, -, -, -, htarget⟩, hne⟩ := h.redirected
  obtain ⟨t, ht, heq⟩ := Option.map_eq_some_iff.1 htarget
  rw [Remap.resolve_of_not_source (by simp [hnil])] at heq
  exact hne (heq ▸ ht)

/-- The text of a remap may be replaced by the remap itself. -/
theorem indirect_iff (hfit : ∀ r ∈ allRecords cs, ∀ t ∈ r.effect.remap?, t.Fits) :
    Indirect cs ↔ ∃ r ∈ allRecords cs, ∃ activated remap l, r.effect.target? = some activated ∧
      r.effect.remap? = some remap ∧ IndirectAt cs activated remap l := by
  constructor
  · rintro ⟨r, hr, -, activated, remap, l, htarget, hremap, hl⟩
    obtain ⟨hremap, -⟩ := (Record.shownRemap?_eq_some (hfit r hr)).1 hremap
    exact ⟨r, hr, activated, remap, l, htarget, hremap, hl⟩
  · rintro ⟨r, hr, activated, remap, l, htarget, hremap, hl⟩
    have hspawn : r.isSpawn := by
      unfold Record.isSpawn
      cases he : r.effect <;> simp [he, Effect.remap?] at hremap
      rfl
    exact ⟨r, hr, hspawn, activated, remap, l, htarget,
      (Record.shownRemap?_eq_some (hfit r hr)).2 ⟨hremap, hl.pairs_ne_nil⟩, hl⟩

/-- The indirect hazard of a spawn in the components. -/
def spawnHazard? (cs : List Component) (c : Component) (r : Record) : Option HazardError :=
  indirect? (spawnBearing cs) ((allRecords cs).filter Record.isImmediateSpawn) c r

theorem spawnHazard?_eq_none (h : spawnHazard? cs c r = none) {activated : Group} {remap : Remap}
    (htarget : r.effect.target? = some activated) (hremap : r.effect.remap? = some remap)
    (l : Landing) : ¬ IndirectAt cs activated remap l := by
  intro hl
  have hcount : 2 ≤ ((marked cs activated remap).map Prod.fst).count l :=
    Nat.le_trans hl.twice le_count_landings
  have hmem : l ∈ (marked cs activated remap).map Prod.fst := List.count_pos_iff.1 (by omega)
  simp only [spawnHazard?, indirect?, htarget, hremap, Option.map_eq_none_iff, least?_eq_none,
    List.filter_eq_nil_iff, Bool.and_eq_true, decide_eq_true_eq, contains_spawnBearing] at h
  exact h l hmem ⟨⟨hcount, redirected_iff.2 hl.redirected⟩, hl.bearing⟩

/-- What the check has found at a landing, where it counts landings and not records. -/
theorem landing_of_spawnHazard? {e : HazardError} (h : spawnHazard? cs c r = some e) :
    ∃ activated remap l, r.effect.target? = some activated ∧ r.effect.remap? = some remap ∧
      2 ≤ ((marked cs activated remap).map Prod.fst).count l ∧
      (∃ s ∈ allRecords cs, Reaches remap activated l s ∧ s.effect.target? ≠ some l.2) ∧
      Bearing cs l.2 := by
  unfold spawnHazard? indirect? at h
  split at h
  next activated remap htarget hremap =>
    obtain ⟨l, hleast, -⟩ := Option.map_eq_some_iff.1 h
    have hbad := mem_of_least? hleast
    simp only [List.mem_filter, Bool.and_eq_true, decide_eq_true_eq, contains_spawnBearing] at hbad
    obtain ⟨-, ⟨hcount, hredirected⟩, hbearing⟩ := hbad
    exact ⟨activated, remap, l, htarget, hremap, hcount, redirected_iff.1 hredirected, hbearing⟩
  next => cases h

theorem spawnHazard?_eq_some {e : HazardError} (hgroups : ∀ r ∈ allRecords cs, r.groups.Nodup)
    (h : spawnHazard? cs c r = some e) :
    ∃ activated remap l, r.effect.target? = some activated ∧ r.effect.remap? = some remap ∧
      IndirectAt cs activated remap l := by
  obtain ⟨activated, remap, l, htarget, hremap, hcount, hredirected, hbearing⟩ :=
    landing_of_spawnHazard? h
  rw [count_landings hgroups] at hcount
  exact ⟨activated, remap, l, htarget, hremap, hcount, hredirected, hbearing⟩

end Spawns

/-! ## The check -/

theorem first?_eq_none {cs : List Component} : first? cs = none ↔
    (∀ c ∈ cs, direct? (spawnBearing cs) c = none) ∧
      ∀ c ∈ cs, ∀ r ∈ c.records, spawnHazard? cs c r = none := by
  simp only [first?, spawnHazard?]
  constructor
  · intro h
    split at h
    · cases h
    next hdirect =>
      exact ⟨List.findSome?_eq_none_iff.1 hdirect, fun c hc =>
        List.findSome?_eq_none_iff.1 (List.findSome?_eq_none_iff.1 h c hc)⟩
  · rintro ⟨hdirect, hindirect⟩
    rw [List.findSome?_eq_none_iff.2 hdirect]
    exact List.findSome?_eq_none_iff.2 fun c hc =>
      List.findSome?_eq_none_iff.2 (hindirect c hc)

theorem check_eq_ok {cs : List Component} : check cs = .ok () ↔ first? cs = none := by
  unfold check
  cases first? cs <;> simp

/-- An indirect hazard is found, even if records list groups twice. -/
theorem error_of_indirectAt {cs : List Component} {r : Record} {activated : Group} {remap : Remap}
    {l : Landing} (hr : r ∈ allRecords cs) (htarget : r.effect.target? = some activated)
    (hremap : r.effect.remap? = some remap) (h : IndirectAt cs activated remap l) :
    ∃ e, check cs = .error e := by
  obtain ⟨c, hc, hr⟩ := mem_allRecords.1 hr
  cases hcheck : check cs with
  | error e => exact ⟨e, rfl⟩
  | ok _ =>
      obtain ⟨-, hindirect⟩ := first?_eq_none.1 (check_eq_ok.1 hcheck)
      exact absurd h (spawnHazard?_eq_none (hindirect c hc r hr) htarget hremap l)

/-- A direct hazard is reported for the first component that has one. -/
theorem check_of_direct {cs : List Component} (h : Direct cs) :
    ∃ before c after l, cs = before ++ c :: after ∧ (∀ d ∈ before, ∀ l, ¬ DirectAt cs d l) ∧
      DirectAt cs c l ∧
      check cs = .error (.direct c.name l.2 (Float.ofBits l.1.toUInt64)
        (c.records.countP (PlainAt l ·))) := by
  obtain ⟨c, hc, l, hl⟩ := h
  cases hfirst : cs.findSome? (direct? (spawnBearing cs)) with
  | none => exact absurd hl (direct?_eq_none.1 (List.findSome?_eq_none_iff.1 hfirst c hc) l)
  | some e =>
      obtain ⟨before, c, after, hcs, he, hbefore⟩ := List.findSome?_eq_some_iff.1 hfirst
      obtain ⟨l, hl, rfl⟩ := direct?_eq_some he
      refine ⟨before, c, after, l, hcs, fun d hd => direct?_eq_none.1 (hbefore d hd), hl, ?_⟩
      simp only [check, first?, hfirst]

/-- The check passes components exactly if they have neither kind of hazard, where no
record lists a group twice and no group of a remap has more than 32 bits.  If they have
a direct hazard, the error is that of the first component that has one, with the number
of the spawns that meet there. -/
theorem check_decides {cs : List Component} (hgroups : ∀ r ∈ allRecords cs, r.groups.Nodup)
    (hfit : ∀ r ∈ allRecords cs, ∀ t ∈ r.effect.remap?, t.Fits) :
    (check cs = .ok () ↔ ¬ Direct cs ∧ ¬ Indirect cs) ∧
      (Direct cs → ∃ before c after l, cs = before ++ c :: after ∧
        (∀ d ∈ before, ∀ l, ¬ DirectAt cs d l) ∧ DirectAt cs c l ∧
        check cs = .error (.direct c.name l.2 (Float.ofBits l.1.toUInt64)
          (c.records.countP (PlainAt l ·)))) := by
  refine ⟨?_, check_of_direct⟩
  rw [indirect_iff hfit]
  constructor
  · intro hcheck
    obtain ⟨hdirect, -⟩ := first?_eq_none.1 (check_eq_ok.1 hcheck)
    refine ⟨?_, ?_⟩
    · rintro ⟨c, hc, l, hl⟩
      exact direct?_eq_none.1 (hdirect c hc) l hl
    · rintro ⟨r, hr, activated, remap, l, htarget, hremap, hl⟩
      obtain ⟨e, he⟩ := error_of_indirectAt hr htarget hremap hl
      simp [hcheck] at he
  · rintro ⟨hdirect, hindirect⟩
    refine check_eq_ok.2 (first?_eq_none.2 ⟨fun c hc => ?_, fun c hc r hr => ?_⟩)
    · exact direct?_eq_none.2 fun l hl => hdirect ⟨c, hc, l, hl⟩
    · cases hsome : spawnHazard? cs c r with
      | none => rfl
      | some e =>
          obtain ⟨activated, remap, l, hl⟩ := spawnHazard?_eq_some hgroups hsome
          exact absurd ⟨r, mem_allRecords.2 ⟨c, hc, hr⟩, activated, remap, l, hl⟩ hindirect

/-- Groups 10 and 20 are spawned together, and a remap sends both to a group with a
spawn.  Further on, that group is spawned twice as it is. -/
def crossfire : List Component :=
  let spawn (x : Float) (caller target : Group) (remap : Option Remap) : Record :=
    { x, groups := [caller], layer := 0, effect := .spawn target false none remap }
  [{ name := "Spawner", caller := 40, layer := 0, records := [spawn 0.0 40 41 none] },
    { name := "Inner", caller := 50, layer := 0,
      records := [spawn 0.0 50 10 none, spawn 0.0 50 20 none] },
    { name := "Outer", caller := 36, layer := 0, spawnOrder := some true,
      records := [spawn 0.0 36 50 (some ⟨[(10, 40), (20, 40)], by decide⟩),
        spawn 1.0 36 40 none, spawn 1.0 36 40 none] }]

theorem check_decides_crossfire :
    (∀ r ∈ allRecords crossfire, r.groups.Nodup) ∧
      (∀ r ∈ allRecords crossfire, ∀ t ∈ r.effect.remap?, t.Fits) ∧ Direct crossfire ∧
      check crossfire = .error (.direct "Outer" 40 1.0 2) ∧
      ∃ before c after l, crossfire = before ++ c :: after ∧
        (∀ d ∈ before, ∀ l, ¬ DirectAt crossfire d l) ∧ DirectAt crossfire c l ∧
        check crossfire = .error (.direct c.name l.2 (Float.ofBits l.1.toUInt64)
          (c.records.countP (PlainAt l ·))) := by
  have hgroups : ∀ r ∈ allRecords crossfire, r.groups.Nodup := by decide +kernel
  have hfit : ∀ r ∈ allRecords crossfire, ∀ t ∈ r.effect.remap?, t.Fits := by
    unfold Remap.Fits
    decide +kernel
  have hcheck : check crossfire = .error (.direct "Outer" 40 1.0 2) := by decide +kernel
  have hdirect : Direct crossfire := by
    refine ⟨crossfire.getLast (by decide), List.getLast_mem _, ((1.0 : Float).toBits.toNat, 40),
      by decide +kernel, by decide +kernel, ?_⟩
    exact ⟨crossfire.head (by decide), List.head_mem _, _, List.mem_singleton.2 rfl,
      by decide +kernel⟩
  exact ⟨hgroups, hfit, hdirect, hcheck, (check_decides hgroups hfit).2 hdirect⟩
end Barrage.Hazard
