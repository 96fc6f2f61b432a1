import Mathlib
import Barrage.Export.Tally
import Barrage.Proofs.Spell

/-!
# What a tally counts

A counter adds numbers under names.  It lists a name where the name first occurred, has
the sum of its numbers there, and loses nothing (`Counter.names_ofList`,
`Counter.get_ofList`, `Counter.sum_ofList`).

A component belongs to no spell, to one, or to several.  The tally counts the records of
a spell's components that are not shared, under the name of the spell.  A spell of a run
lists each of its components once (`Context.Enrolled`), and so a component is counted as
often as there are spells that have it, if it is not shared at all
(`Context.sum_ownCount`).  That is once for a component of one spell.  The records of
shared components are counted aside, and those of components without a spell under no
spell.  So the records are divided into three parts.
-/

namespace Barrage

/-! ## Counters -/

namespace Counter

/-- The names, in the order of the entries. -/
def names (c : Counter) : List String := c.entries.map Prod.fst

/-- The sum of all entries. -/
def sum (c : Counter) : Nat := (c.entries.map Prod.snd).sum

theorem names_addTo (name : String) (n : Nat) (entries : List (String × Nat)) :
    (addTo name n entries).map Prod.fst =
      if name ∈ entries.map Prod.fst then entries.map Prod.fst
      else entries.map Prod.fst ++ [name] := by
  induction entries with
  | nil => rfl
  | cons entry rest ih =>
      obtain ⟨key, m⟩ := entry
      by_cases hkey : key = name
      · simp [addTo, hkey]
      · simp only [addTo, if_neg hkey, List.map_cons, ih, List.mem_cons, Ne.symm hkey, false_or]
        split <;> rfl

theorem sum_addTo (name : String) (n : Nat) (entries : List (String × Nat)) :
    ((addTo name n entries).map Prod.snd).sum = (entries.map Prod.snd).sum + n := by
  induction entries with
  | nil => simp [addTo]
  | cons entry rest ih =>
      obtain ⟨key, m⟩ := entry
      by_cases hkey : key = name
      · simp only [addTo, if_pos hkey, List.map_cons, List.sum_cons]
        omega
      · simp only [addTo, if_neg hkey, List.map_cons, List.sum_cons, ih]
        omega

theorem lookup_cons_eq (name key : String) (m : Nat) (rest : List (String × Nat)) :
    ((key, m) :: rest).lookup name = if key = name then some m else rest.lookup name := by
  by_cases hkey : key = name
  · simp [hkey]
  · simp [List.lookup, hkey, beq_eq_false_iff_ne.2 (Ne.symm hkey)]

theorem lookup_addTo (name name' : String) (n : Nat) (entries : List (String × Nat)) :
    ((addTo name n entries).lookup name').getD 0 =
      (entries.lookup name').getD 0 + if name = name' then n else 0 := by
  induction entries with
  | nil =>
      rw [addTo, lookup_cons_eq]
      split <;> simp
  | cons entry rest ih =>
      obtain ⟨key, m⟩ := entry
      rw [addTo]
      split
      next hkey =>
        subst hkey
        rw [lookup_cons_eq, lookup_cons_eq]
        split <;> simp
      next hkey =>
        rw [lookup_cons_eq, lookup_cons_eq]
        split
        next hname => simp [← hname, Ne.symm hkey]
        next => exact ih

theorem ofList_concat (xs : List (String × Nat)) (x : String × Nat) :
    ofList (xs ++ [x]) = (ofList xs).add x.1 x.2 := List.foldl_append

/-- A counter has each name once. -/
theorem nodup_names_ofList (xs : List (String × Nat)) : (ofList xs).names.Nodup := by
  induction xs using List.reverseRecOn with
  | nil => exact List.nodup_nil
  | append_singleton xs x ih =>
      rw [ofList_concat]
      show ((addTo x.1 x.2 (ofList xs).entries).map Prod.fst).Nodup
      rw [names_addTo]
      split
      next => exact ih
      next hnew =>
        rw [← List.concat_eq_append]
        exact ih.concat hnew

theorem eraseDups_concat (names : List String) (name : String) :
    (names ++ [name]).eraseDups =
      if name ∈ names then names.eraseDups else names.eraseDups ++ [name] := by
  rw [List.eraseDups_append]
  show names.eraseDups ++ ([name].filter fun a => !names.elem a).eraseDups = _
  by_cases hold : name ∈ names <;> simp [hold, List.eraseDups_cons]

/-- Names are listed in the order of their first occurrence. -/
theorem names_ofList (xs : List (String × Nat)) :
    (ofList xs).names = (xs.map Prod.fst).eraseDups := by
  induction xs using List.reverseRecOn with
  | nil => rfl
  | append_singleton xs x ih =>
      have hmem : x.1 ∈ (ofList xs).names ↔ x.1 ∈ xs.map Prod.fst := by
        rw [ih, List.mem_eraseDups]
      rw [ofList_concat, List.map_append, List.map_singleton, eraseDups_concat, ← ih]
      exact (names_addTo x.1 x.2 (ofList xs).entries).trans (if_congr hmem rfl rfl)

theorem sum_ofList (xs : List (String × Nat)) : (ofList xs).sum = (xs.map Prod.snd).sum := by
  induction xs using List.reverseRecOn with
  | nil => rfl
  | append_singleton xs x ih =>
      rw [ofList_concat, List.map_append, List.sum_append, ← ih]
      exact sum_addTo x.1 x.2 (ofList xs).entries

theorem get_ofList (xs : List (String × Nat)) (name : String) :
    (ofList xs).get name = ((xs.filter fun x => x.1 = name).map Prod.snd).sum := by
  induction xs using List.reverseRecOn with
  | nil => rfl
  | append_singleton xs x ih =>
      rw [ofList_concat, List.filter_append, List.map_append, List.sum_append, ← ih]
      show ((addTo x.1 x.2 (ofList xs).entries).lookup name).getD 0 = _
      rw [lookup_addTo]
      by_cases hname : x.1 = name <;> simp [hname, get]

end Counter

/-! ## Records by component -/

namespace Context

/-- The spells that a component belongs to. -/
def spellsOf (ctx : Context) (i : Nat) : List Spell :=
  ctx.spells.filter fun s => s.components.contains i

theorem isShared_iff {ctx : Context} {i : Nat} : ctx.isShared i ↔ 2 ≤ (ctx.spellsOf i).length := by
  simp [isShared, spellCount, spellsOf, Nat.succ_le_iff]

/-- The number of records of the components whose spells have the property. -/
def recordsWhere (ctx : Context) (p : List Spell → Prop) [DecidablePred p] : Nat :=
  ∑ i ∈ Finset.range ctx.components.length with p (ctx.spellsOf i), ctx.recordCount i

theorem length_records (ctx : Context) :
    (ctx.components.flatMap Component.records).length =
      ∑ i ∈ Finset.range ctx.components.length, ctx.recordCount i := by
  have hcounts : (List.range ctx.components.length).map ctx.recordCount =
      ctx.components.map fun c => c.records.length := by
    refine List.ext_getElem (by simp) fun i hi _ => ?_
    rw [List.length_map, List.length_range] at hi
    simp [recordCount, recordsOf, hi]
  rw [List.length_flatMap, ← hcounts, ← List.toFinset_range]
  exact (List.sum_toFinset ctx.recordCount List.nodup_range).symm

theorem sharedCount_eq (ctx : Context) :
    ctx.sharedCount = ctx.recordsWhere fun spells => 2 ≤ spells.length := by
  rw [sharedCount, List.length_flatMap]
  show (((List.range _).filter ctx.isShared).map ctx.recordCount).sum = _
  rw [← List.sum_toFinset ctx.recordCount (List.nodup_range.filter _), List.toFinset_filter,
    List.toFinset_range]
  exact Finset.sum_congr (Finset.filter_congr fun i _ => isShared_iff) fun _ _ => rfl

/-- What a spell counts as its own. -/
theorem ownCount_eq {ctx : Context} {s : Spell} (hnodup : s.components.Nodup)
    (hbound : ∀ i ∈ s.components, i < ctx.components.length) :
    ctx.ownCount s = ∑ i ∈ Finset.range ctx.components.length with ¬ ctx.isShared i,
      if s.components.contains i then ctx.recordCount i else 0 := by
  rw [ownCount, List.length_flatMap]
  show ((s.components.filter fun i => ¬ ctx.isShared i).map ctx.recordCount).sum = _
  rw [← List.sum_toFinset ctx.recordCount (hnodup.filter _), ← Finset.sum_filter]
  refine Finset.sum_congr (Finset.ext fun i => ?_) fun _ _ => rfl
  simp only [List.mem_toFinset, List.mem_filter, Finset.mem_filter, Finset.mem_range,
    decide_eq_true_eq, List.contains_iff_mem]
  exact ⟨fun ⟨hi, howned⟩ => ⟨⟨hbound i hi, howned⟩, hi⟩, fun ⟨⟨_, howned⟩, hi⟩ => ⟨hi, howned⟩⟩

/-! ## Records by spell -/

/-- Some spells count a component that is not shared as often as they have it. -/
theorem sum_ownCount {ctx : Context} (h : ctx.Enrolled) {spells : List Spell}
    (hspells : spells ⊆ ctx.spells) :
    (spells.map ctx.ownCount).sum =
      ∑ i ∈ Finset.range ctx.components.length with ¬ ctx.isShared i,
        (spells.countP fun s => s.components.contains i) * ctx.recordCount i := by
  -- Whether a component is shared is up to all spells of the context, and so the same
  -- components are summed for every part of them.
  induction spells with
  | nil => simp
  | cons s spells ih =>
      obtain ⟨hnodup, hbound⟩ := h s (hspells List.mem_cons_self)
      have hrest := ih fun s' hs' => hspells (List.mem_cons_of_mem s hs')
      rw [List.map_cons, List.sum_cons, hrest, ownCount_eq hnodup hbound, ← Finset.sum_add_distrib]
      refine Finset.sum_congr rfl fun i _ => ?_
      rw [List.countP_cons]
      split <;> ring

/-- The spells of a name have a component that is not shared once, if it belongs to one
spell and that has the name, and otherwise not at all. -/
theorem countP_named {ctx : Context} {i : Nat} (h : ¬ ctx.isShared i) (name : String) :
    (ctx.spells.filter fun s => s.name = name).countP (fun s => s.components.contains i) =
      if (ctx.spellsOf i).map Spell.name = [name] then 1 else 0 := by
  have hswap : (ctx.spells.filter fun s => s.name = name).countP
      (fun s => s.components.contains i) = (ctx.spellsOf i).countP fun s => s.name = name := by
    rw [spellsOf, List.countP_filter, List.countP_filter]
    exact List.countP_congr fun s _ => by rw [Bool.and_comm]
  -- A component that is not shared has at most one spell.
  rw [isShared_iff] at h
  rw [hswap]
  rcases hspells : ctx.spellsOf i with _ | ⟨s, _ | ⟨s', rest⟩⟩
  · rfl
  · simp [List.countP_cons]
  · simp [hspells] at h

/-- Each name of a spell has the records of the components that belong to one spell, if
that spell has the name. -/
theorem get_spells {ctx : Context} (h : ctx.Enrolled) (budget : Nat) (name : String) :
    (ctx.tally budget).spells.get name =
      ctx.recordsWhere fun spells => spells.map Spell.name = [name] := by
  have hnamed : (ctx.tally budget).spells.get name =
      ((ctx.spells.filter fun s => s.name = name).map ctx.ownCount).sum := by
    show (Counter.ofList _).get name = _
    rw [Counter.get_ofList, List.filter_map, List.map_map]
    rfl
  rw [hnamed, sum_ownCount h List.filter_sublist.subset, recordsWhere, Finset.sum_filter,
    Finset.sum_filter]
  refine Finset.sum_congr rfl fun i _ => ?_
  by_cases hshared : ctx.isShared i
  · have hseveral : (ctx.spellsOf i).map Spell.name ≠ [name] := by
      intro hone
      have hlength := congrArg List.length hone
      rw [List.length_map] at hlength
      exact absurd (isShared_iff.1 hshared) (by simp [hlength])
    rw [if_neg (not_not_intro hshared), if_neg hseveral]
  · rw [if_pos hshared, countP_named hshared]
    split <;> simp

/-- The spells together have the records of the components that belong to one spell. -/
theorem sum_spells {ctx : Context} (h : ctx.Enrolled) (budget : Nat) :
    (ctx.tally budget).spells.sum = ctx.recordsWhere fun spells => spells.length = 1 := by
  have hall : (ctx.tally budget).spells.sum = (ctx.spells.map ctx.ownCount).sum := by
    show (Counter.ofList _).sum = _
    rw [Counter.sum_ofList, List.map_map]
    rfl
  rw [hall, sum_ownCount h (List.Subset.refl _), recordsWhere, Finset.sum_filter,
    Finset.sum_filter]
  refine Finset.sum_congr rfl fun i _ => ?_
  rw [List.countP_eq_length_filter, ← spellsOf]
  simp only [isShared_iff]
  rcases ctx.spellsOf i with _ | ⟨s, _ | ⟨s', rest⟩⟩ <;> simp

/-- A component belongs to one spell, to several, or to none. -/
theorem length_records_eq (ctx : Context) :
    (ctx.components.flatMap Component.records).length =
      ctx.recordsWhere (fun spells => spells.length = 1) +
        ctx.recordsWhere (fun spells => 2 ≤ spells.length) +
        ctx.recordsWhere (fun spells => spells = []) := by
  rw [length_records, recordsWhere, recordsWhere, recordsWhere, Finset.sum_filter,
    Finset.sum_filter, Finset.sum_filter, ← Finset.sum_add_distrib, ← Finset.sum_add_distrib]
  refine Finset.sum_congr rfl fun i _ => ?_
  rcases ctx.spellsOf i with _ | ⟨s, _ | ⟨s', rest⟩⟩ <;> simp

end Context

/-! ## The parts of a tally -/

/-- The tally divides the records of the context. -/
structure Tally.Divides (t : Tally) (ctx : Context) : Prop where
  /-- Every record is counted for a component. -/
  components_sum : t.total = t.components.sum
  /-- Every record is counted for a spell, or as shared, or belongs to no spell. -/
  spells_sum : t.total = t.spells.sum + t.shared + ctx.recordsWhere fun spells => spells = []
  /-- A component of one spell is counted under the name of that spell. -/
  single : ∀ name, t.spells.get name =
    ctx.recordsWhere fun spells => spells.map Spell.name = [name]
  /-- A component of several spells is counted as shared. -/
  several : t.shared = ctx.recordsWhere fun spells => 2 ≤ spells.length
  component_names : t.components.names.Nodup ∧
    t.components.names = (ctx.components.map Component.name).eraseDups
  spell_names : t.spells.names.Nodup ∧ t.spells.names = (ctx.spells.map Spell.name).eraseDups

/-- The tally of a context that a run reaches divides its records. -/
theorem Context.tally_divides {ctx : Context} (hctx : Reachable ctx) (budget : Nat) :
    (ctx.tally budget).Divides ctx := by
  have henrolled := hctx.enrolled
  refine ⟨?_, ?_, get_spells henrolled budget, ctx.sharedCount_eq, ⟨?_, ?_⟩, ⟨?_, ?_⟩⟩
  · show (ctx.components.flatMap Component.records).length = (Counter.ofList _).sum
    rw [Counter.sum_ofList, List.map_map, List.length_flatMap]
    rfl
  · show (ctx.components.flatMap Component.records).length = _ + ctx.sharedCount + _
    rw [sum_spells henrolled, sharedCount_eq, length_records_eq]
  · exact Counter.nodup_names_ofList _
  · show (Counter.ofList _).names = _
    rw [Counter.names_ofList, List.map_map]
    rfl
  · exact Counter.nodup_names_ofList _
  · show (Counter.ofList _).names = _
    rw [Counter.names_ofList, List.map_map]
    rfl

/-- Two spells of one name with a common component, and a component of no spell.  Two of
the components have one name too. -/
def twinSpells : Context :=
  Call.runAll
    [.register "Part" 40 none, .register "Common" 41 none, .register "Part" 42 none,
      .register "Free" 43 none,
      .edit 0 (.trigger 0.0 (.toggle (.group 50) true)),
      .edit 0 (.trigger 1.0 (.toggle (.group 50) false)),
      .edit 1 (.trigger 0.0 (.toggle (.group 51) true)),
      .edit 2 (.trigger 0.0 (.toggle (.group 52) true)),
      .edit 3 (.trigger 0.0 (.toggle (.group 53) true)),
      .addSpell "Twin" 60, .addSpell "Other" 61, .addSpell "Twin" 62,
      .addToSpell 0 0, .addToSpell 0 1, .addToSpell 0 1, .addToSpell 2 1, .addToSpell 2 2]
    (Context.ofConfig {})

theorem Context.tally_divides_twins :
    twinSpells.tally 10 =
      { total := 5, budget := 10, components := ⟨[("Part", 3), ("Common", 1), ("Free", 1)]⟩,
        spells := ⟨[("Twin", 3), ("Other", 0)]⟩, shared := 1 } ∧
      (twinSpells.tally 10).Divides twinSpells :=
  ⟨by decide +kernel, tally_divides (Reachable.runAll .new _) 10⟩

end Barrage
