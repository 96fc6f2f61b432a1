import Mathlib.Data.List.Forall2
import Barrage.Proofs.Build
import Barrage.Remap.Wire

/-!
# Remap texts are faithful

A remap that is written and read again is the same remap, as long as it has a
pair and its groups have at most 32 bits (`Remap.parse_wire`).  The argument
follows the layers of the text.  A part of a text is read if it spells a group
(`Remap.Spells`), and the digits of a group do.  A text splits where it was joined
because no digit is a dot, and pairs are inserted one by one into a table that does
not have their sources yet.

The text also determines a remap without any bound on its groups
(`Remap.wire_inj`).  Cleaning a remap does not change where a group ends up
(`Remap.resolve_cleaned`).
-/

namespace Barrage.Remap

/-! ## Pairs -/

@[ext] theorem ext {r s : Remap} (h : r.pairs = s.pairs) : r = s := by
  cases r
  cases s
  simp only at h
  subst h
  rfl

/-- The groups of a remap have at most 32 bits. -/
def Fits (r : Remap) : Prop := ∀ g ∈ flatten r.pairs, g ≤ Group.greatest

theorem isEmpty_eq_false {r : Remap} : r.isEmpty = false ↔ r.pairs ≠ [] := by
  simp [isEmpty]

theorem insert_eq_ok {r r' : Remap} {source target : Group} :
    r.insert source target = .ok r' ↔ r'.pairs = r.pairs ++ [(source, target)] := by
  unfold insert
  split
  next hmem =>
    constructor
    · intro h
      cases h
    · intro h
      have hd := r'.distinct
      rw [h, List.map_append, List.nodup_append] at hd
      exact absurd rfl (hd.2.2 source hmem source (by simp))
  next =>
    constructor
    · intro h
      cases h
      rfl
    · intro h
      exact congrArg Except.ok (ext h.symm)

/-- Pairs can be added to a table exactly when the table with all of them
exists. -/
theorem insertAll_eq_ok {ps : List (Group × Group)} {r r' : Remap} :
    insertAll ps r = .ok r' ↔ r'.pairs = r.pairs ++ ps := by
  induction ps generalizing r with
  | nil =>
      simp only [insertAll, List.append_nil, Except.ok.injEq]
      exact ⟨fun h => h ▸ rfl, fun h => ext h.symm⟩
  | cons p rest ih =>
      obtain ⟨source, target⟩ := p
      simp only [insertAll]
      cases hi : r.insert source target with
      | ok r₁ =>
          simp only
          rw [ih, insert_eq_ok.1 hi, List.append_assoc, List.singleton_append]
      | error e =>
          simp only [reduceCtorEq, false_iff]
          intro h
          -- The table up to this pair is a part of `r'`, so it has no repeated source.
          have hd : ((r.pairs ++ [(source, target)]).map Prod.fst).Nodup := by
            have hd' := r'.distinct
            rw [h, ← List.singleton_append, ← List.append_assoc, List.map_append] at hd'
            exact (List.nodup_append.1 hd').1
          have hok : r.insert source target = .ok ⟨_, hd⟩ := insert_eq_ok.2 rfl
          rw [hi] at hok
          cases hok

/-! ## Resolution -/

theorem get?_of_mem {r : Remap} {s t : Group} (h : (s, t) ∈ r.pairs) : r.get? s = some t := by
  obtain ⟨l₁, l₂, hl⟩ := List.append_of_mem h
  refine List.lookup_eq_some_iff.2 ⟨l₁, l₂, hl, ?_⟩
  intro p hp
  have hd := r.distinct
  rw [hl, List.map_append, List.nodup_append] at hd
  exact bne_iff_ne.2 fun heq => hd.2.2 p.1 (List.mem_map_of_mem hp) s (by simp) heq.symm

theorem resolve_of_mem {r : Remap} {s t : Group} (h : (s, t) ∈ r.pairs) : r.resolve s = t := by
  simp [resolve, get?_of_mem h]

theorem resolve_of_not_source {r : Remap} {g : Group} (h : ∀ p ∈ r.pairs, p.1 ≠ g) :
    r.resolve g = g := by
  have hget : r.get? g = none :=
    List.lookup_eq_none_iff.2 fun p hp => bne_iff_ne.2 fun e => h p hp e.symm
  simp [resolve, hget]

/-- A pair that changes nothing can be dropped. -/
theorem resolve_cleaned (r : Remap) (g : Group) : r.cleaned.resolve g = r.resolve g := by
  by_cases h : ∃ t, (g, t) ∈ r.pairs
  · obtain ⟨t, ht⟩ := h
    rw [resolve_of_mem ht]
    by_cases hgt : g = t
    · subst hgt
      refine resolve_of_not_source fun p hp hpg => ?_
      simp only [cleaned, List.mem_filter, bne_iff_ne] at hp
      have htarget := get?_of_mem (r := r) (s := p.1) (t := p.2) hp.1
      rw [hpg, get?_of_mem ht, Option.some.injEq] at htarget
      exact hp.2 (hpg.trans htarget)
    · exact resolve_of_mem (by simpa [cleaned, ht] using hgt)
  · rw [resolve_of_not_source, resolve_of_not_source]
    · exact fun p hp e => h ⟨p.2, e ▸ hp⟩
    · exact fun p hp e => h ⟨p.2, e ▸ (List.mem_filter.1 hp).1⟩

theorem ne_of_mem_cleaned {r : Remap} {p : Group × Group} (h : p ∈ r.cleaned.pairs) :
    p.1 ≠ p.2 := by
  simpa using (List.mem_filter.1 h).2

/-- A part of a remap that fits fits too. -/
theorem Fits.cleaned {r : Remap} (h : r.Fits) : r.cleaned.Fits := by
  intro g hg
  simp only [flatten, List.mem_flatMap] at hg
  obtain ⟨p, hp, hg⟩ := hg
  exact h g (List.mem_flatMap.2 ⟨p, (List.mem_filter.1 hp).1, hg⟩)

/-! ## Spellings -/

/-- The digits of a group: at least one, and with a value of at most 32 bits. -/
structure Denotes (digits : List Char) (g : Group) : Prop where
  nonempty : digits ≠ []
  isDigit : ∀ c ∈ digits, c.isDigit
  value : Nat.ofDigitChars 10 digits 0 = g
  le_greatest : g ≤ Group.greatest

/-- The spellings of a group: its digits, possibly after a plus sign. -/
inductive Spells : List Char → Group → Prop
  | plain {digits : List Char} {g : Group} : Denotes digits g → Spells digits g
  | signed {digits : List Char} {g : Group} : Denotes digits g → Spells ('+' :: digits) g

theorem Spells.le_greatest {token : List Char} {g : Group} (h : Spells token g) :
    g ≤ Group.greatest := by
  cases h with
  | plain h => exact h.le_greatest
  | signed h => exact h.le_greatest

theorem readDigits_eq_some {digits : List Char} {g : Group} :
    readDigits digits = some g ↔ Denotes digits g := by
  have hvalue : digitsValue digits = Nat.ofDigitChars 10 digits 0 := Nat.ofDigitChars_eq_foldl.symm
  rw [readDigits, hvalue, Option.ite_none_right_eq_some, List.all_eq_true]
  constructor
  · rintro ⟨⟨hne, hdigits, hle⟩, hg⟩
    cases hg
    exact ⟨hne, hdigits, rfl, hle⟩
  · rintro ⟨hne, hdigits, rfl, hle⟩
    exact ⟨⟨hne, hdigits, hle⟩, rfl⟩

theorem readGroup_eq_some {token : List Char} {g : Group} :
    readGroup token = some g ↔ Spells token g := by
  unfold readGroup
  split
  next digits =>
    rw [readDigits_eq_some]
    refine ⟨.signed, fun h => ?_⟩
    cases h with
    | plain h =>
        -- A plus sign is no digit.
        have := h.isDigit '+' List.mem_cons_self
        contradiction
    | signed h => exact h
  next hsign =>
    rw [readDigits_eq_some]
    refine ⟨.plain, fun h => ?_⟩
    cases h with
    | plain h => exact h
    | signed => exact absurd rfl (hsign _)

/-- A part of a text is read if it spells a group. -/
theorem readToken_eq_ok {token : List Char} {g : Group} :
    readToken token = .ok g ↔ Spells token g := by
  rw [readToken, ← readGroup_eq_some]
  cases readGroup token <;> simp

theorem toDigits_inj {m n : Nat} (h : Nat.toDigits 10 m = Nat.toDigits 10 n) : m = n := by
  rw [← Nat.ofDigitChars_ten_toDigits (n := m), h, Nat.ofDigitChars_ten_toDigits]

theorem isDigit_toDigits {n : Nat} {c : Char} (h : c ∈ Nat.toDigits 10 n) : c.isDigit :=
  Nat.isDigit_of_mem_toDigits (by decide) (by decide) h

theorem dot_not_mem_toDigits (n : Nat) : '.' ∉ Nat.toDigits 10 n := fun h => by
  have := isDigit_toDigits h
  contradiction

theorem spells_toDigits {g : Group} (h : g ≤ Group.greatest) : Spells (Nat.toDigits 10 g) g :=
  .plain ⟨Nat.toDigits_ne_nil, fun _ => isDigit_toDigits, Nat.ofDigitChars_ten_toDigits, h⟩

/-! ## Splitting and joining -/

theorem splitDots_eq_splitOn (cs : List Char) : splitDots cs = cs.splitOn '.' := by
  induction cs with
  | nil => rfl
  | cons c cs ih =>
      rw [splitDots, List.splitOn_cons_eq_if_modifyHead, ih]
      by_cases hc : c = '.'
      · simp [hc]
      · cases hparts : cs.splitOn '.' with
        | nil => exact absurd hparts (List.splitOn_ne_nil _ _)
        | cons part parts => simp [hc]

theorem joinDots_eq_intercalate (parts : List (List Char)) :
    joinDots parts = ['.'].intercalate parts := by
  induction parts with
  | nil => rfl
  | cons part rest ih =>
      cases rest with
      | nil => simp [joinDots]
      | cons next rest => simp [joinDots, ih, List.intercalate_cons_cons]

/-- A text splits where it was joined. -/
theorem splitDots_joinDots {parts : List (List Char)} (hne : parts ≠ [])
    (h : ∀ part ∈ parts, '.' ∉ part) : splitDots (joinDots parts) = parts := by
  rw [splitDots_eq_splitOn, joinDots_eq_intercalate, List.splitOn_intercalate '.' h hne]

/-! ## Reading what was written -/

theorem flatten_ne_nil {ps : List (Group × Group)} (h : ps ≠ []) : flatten ps ≠ [] := by
  cases ps with
  | nil => exact absurd rfl h
  | cons p rest => simp [flatten]

theorem length_flatten (ps : List (Group × Group)) : (flatten ps).length = 2 * ps.length := by
  induction ps with
  | nil => rfl
  | cons p rest ih =>
      simp only [flatten, List.flatMap_cons, List.length_append, List.length_cons,
        List.length_nil] at ih ⊢
      omega

theorem flatten_inj {ps qs : List (Group × Group)} (h : flatten ps = flatten qs) : ps = qs := by
  induction ps generalizing qs with
  | nil =>
      cases qs with
      | nil => rfl
      | cons q qs => simp [flatten] at h
  | cons p ps ih =>
      cases qs with
      | nil => simp [flatten] at h
      | cons q qs =>
          simp only [flatten, List.flatMap_cons, List.cons_append, List.nil_append,
            List.cons.injEq] at h
          obtain ⟨h₁, h₂, hrest⟩ := h
          rw [ih hrest, Prod.ext h₁ h₂]

theorem splitDots_wireChars {r : Remap} (h : r.pairs ≠ []) :
    splitDots r.wireChars = (flatten r.pairs).map (Nat.toDigits 10) := by
  refine splitDots_joinDots (by simpa using flatten_ne_nil h) ?_
  intro part hpart
  obtain ⟨g, -, rfl⟩ := List.mem_map.1 hpart
  exact dot_not_mem_toDigits g

/-- Reading the spellings of pairs is inserting the pairs. -/
theorem readPairs_of_spells {ps : List (Group × Group)} {parts : List (List Char)}
    (h : List.Forall₂ Spells parts (flatten ps)) (r : Remap) :
    readPairs parts r = insertAll ps r := by
  induction ps generalizing parts r with
  | nil =>
      cases h
      rfl
  | cons p rest ih =>
      obtain ⟨source, target⟩ := p
      cases h with
      | cons hsource h =>
          cases h with
          | cons htarget hrest =>
              rw [readPairs, readToken_eq_ok.2 hsource, readToken_eq_ok.2 htarget, insertAll,
                Except.ok_bind, Except.ok_bind]
              cases r.insert source target with
              | error e => rfl
              | ok r₁ => exact ih hrest r₁

theorem wireChars_ne_nil {r : Remap} (h : r.pairs ≠ []) : r.wireChars ≠ [] := by
  intro hnil
  have hsplit := splitDots_wireChars h
  rw [hnil] at hsplit
  have hlen := congrArg List.length hsplit
  simp only [splitDots, List.length_map, length_flatten, List.length_singleton] at hlen
  omega

theorem wire_ne_empty {r : Remap} (h : r.pairs ≠ []) : r.wire ≠ "" := by
  intro hw
  exact wireChars_ne_nil h (by simpa [wire] using congrArg String.toList hw)

/-- A remap that is written and read again is the same remap. -/
theorem parse_wire {r : Remap} (hne : r.pairs ≠ []) (hfit : r.Fits) : parse r.wire = .ok r := by
  have hlen : ((flatten r.pairs).map (Nat.toDigits 10)).length % 2 = 0 := by
    rw [List.length_map, length_flatten]
    omega
  have hspells : List.Forall₂ Spells ((flatten r.pairs).map (Nat.toDigits 10)) (flatten r.pairs) :=
    List.forall₂_map_left_iff.2 (List.forall₂_same.2 fun g hg => spells_toDigits (hfit g hg))
  have hinsert : insertAll r.pairs empty = .ok r := insertAll_eq_ok.2 rfl
  simp only [parse, wire, String.toList_ofList, splitDots_wireChars hne]
  rw [if_neg (wireChars_ne_nil hne), if_neg (by omega), readPairs_of_spells hspells, hinsert]

/-- Remaps with the same text are the same. -/
theorem wire_inj {r s : Remap} (hr : r.pairs ≠ []) (hs : s.pairs ≠ []) (h : r.wire = s.wire) :
    r = s := by
  have hchars : r.wireChars = s.wireChars := by
    simpa [wire] using congrArg String.toList h
  have hparts := splitDots_wireChars hr
  rw [hchars, splitDots_wireChars hs] at hparts
  exact ext (flatten_inj ((List.map_inj_right fun _ _ => toDigits_inj).1 hparts)).symm

/-! ## Cleaning -/

theorem cleanText_eq_ok {text : String} {c : Cleaned} :
    cleanText text = .ok c ↔ ∃ r, parse text = .ok r ∧ r.cleaned.pairs ≠ [] ∧
      ⟨r.cleaned, text, r.cleaned.wire != text⟩ = c := by
  rw [cleanText, Except.bind_eq_ok]
  refine exists_congr fun r => and_congr_right fun _ => ?_
  by_cases h : r.cleaned.pairs = [] <;> simp [h, isEmpty]

theorem clean_eq_ok {r : Remap} {c : Cleaned} :
    r.clean = .ok c ↔
      r.cleaned.pairs ≠ [] ∧ ⟨r.cleaned, r.wire, r.cleaned.pairs != r.pairs⟩ = c := by
  by_cases h : r.cleaned.pairs = [] <;> simp [clean, h, isEmpty]

/-- Cleaning changes the text of a remap exactly when it drops a pair. -/
theorem wire_cleaned_ne_iff {r : Remap} (h : r.cleaned.pairs ≠ []) :
    r.cleaned.wire ≠ r.wire ↔ r.cleaned.pairs ≠ r.pairs := by
  have hr : r.pairs ≠ [] := fun hnil => h (by simp [cleaned, hnil])
  exact not_congr ⟨fun hw => congrArg pairs (wire_inj h hr hw), fun hp => congrArg wire (ext hp)⟩

end Barrage.Remap
