import Barrage.Proofs.Remap.Wire

/-!
# The grammar of remap texts

The *tokens* of a text are its parts between dots.  A text is read exactly when it is not
empty and its tokens spell the groups of a table, source before target
(`Remap.parse_eq_ok`).  Everything else follows from this equivalence.

*Acceptance.*  The tokens must be even in number and spell groups, and the groups at even
positions must be distinct, because they become the sources.

*Round trips.*  A table that comes from insertions or from a text has groups of at most 32
bits (`Remap.Obtained.fits`), so its own text gives it back.  A text is the text of its table
if each token is the shortest spelling of its group (`Remap.wire_eq_iff`), which means that it
has no sign and no leading zero (`Remap.Spells.toDigits_eq_iff`).

*Cleaning.*  A cleaned table has no pair to drop, so cleaning its text changes nothing
(`Remap.cleanText_wire`).  Cleaning says that it changed a text if it dropped a pair or if it
respelled a group.
-/

namespace Barrage.Remap

/-- The parts of a text between its dots. -/
def tokens (text : String) : List (List Char) := text.toList.splitOn '.'

/-- A token in shortest form: no sign, and no zero before another digit. -/
def Canonical (token : List Char) : Prop :=
  token.head? ≠ some '+' ∧ (token.head? = some '0' → token = ['0'])

/-- The elements at even positions. -/
def evens {α : Type} : List α → List α
  | [] => []
  | [a] => [a]
  | a :: _ :: rest => a :: evens rest

/-! ## Shortest spellings -/

theorem digit_lt_ten {c : Char} (h : c.isDigit) : c.toNat - '0'.toNat < 10 := by
  have hhigh := (Char.isDigit_iff_toNat.1 h).2
  have hnine : '9'.toNat = '0'.toNat + 9 := rfl
  omega

theorem digitChar_of_isDigit {c : Char} (h : c.isDigit) : (c.toNat - '0'.toNat).digitChar = c := by
  refine Char.toNat_inj.1 ?_
  rw [Nat.toNat_digitChar_of_lt_ten (digit_lt_ten h)]
  exact Nat.add_sub_cancel' (Char.isDigit_iff_toNat.1 h).1

/-- Digits after a positive number are written after it. -/
theorem toDigits_ofDigitChars {n : Nat} (hn : 0 < n) {digits : List Char}
    (h : ∀ c ∈ digits, c.isDigit) :
    Nat.toDigits 10 (Nat.ofDigitChars 10 digits n) = Nat.toDigits 10 n ++ digits := by
  induction digits generalizing n with
  | nil => simp
  | cons c rest ih =>
      have hc : c.isDigit := h c List.mem_cons_self
      have hrest : ∀ c' ∈ rest, c'.isDigit := fun c' hc' => h c' (List.mem_cons_of_mem c hc')
      have hnext : Nat.toDigits 10 (10 * n + (c.toNat - '0'.toNat)) = Nat.toDigits 10 n ++ [c] := by
        rw [← Nat.toDigits_append_toDigits (by decide) hn (digit_lt_ten hc),
          Nat.toDigits_of_lt_base (digit_lt_ten hc), digitChar_of_isDigit hc]
      rw [Nat.ofDigitChars_cons, ih (by omega) hrest, hnext, List.append_assoc,
        List.singleton_append]

/-- Only zero is written with a zero in front. -/
theorem eq_zero_of_head?_toDigits {n : Nat} (h : (Nat.toDigits 10 n).head? = some '0') :
    n = 0 := by
  induction n using Nat.strongRecOn with
  | ind n ih =>
      rw [Nat.toDigits_eq_if (by decide)] at h
      split at h
      next hlt => simpa using h
      next hge =>
        rw [List.head?_append_of_ne_nil _ Nat.toDigits_ne_nil] at h
        have := ih (n / 10) (by omega) h
        omega

theorem canonical_toDigits (n : Nat) : Canonical (Nat.toDigits 10 n) := by
  refine ⟨fun hplus => ?_, fun hzero => ?_⟩
  · have := isDigit_toDigits (List.mem_of_mem_head? hplus)
    contradiction
  · rw [eq_zero_of_head?_toDigits hzero, Nat.toDigits_zero]

/-- A spelling is the one that is written if it is the shortest. -/
theorem Spells.toDigits_eq_iff {token : List Char} {g : Group} (h : Spells token g) :
    Nat.toDigits 10 g = token ↔ Canonical token := by
  constructor
  · rintro rfl
    exact canonical_toDigits g
  · rintro ⟨hsign, hzero⟩
    cases h with
    | signed => exact absurd rfl hsign
    | plain h =>
        obtain ⟨hne, hdigits, rfl, -⟩ := h
        obtain ⟨c, rest, rfl⟩ := List.exists_cons_of_ne_nil hne
        by_cases hc : c = '0'
        · cases hzero (congrArg some hc)
          rfl
        · -- The first digit is positive, so the others are written after it.
          have hdigit : c.isDigit := hdigits c List.mem_cons_self
          have hpos : 0 < c.toNat - '0'.toNat := by
            refine Nat.pos_of_ne_zero fun hvalue => hc ?_
            rw [← digitChar_of_isDigit hdigit, hvalue]
            rfl
          rw [Nat.ofDigitChars_cons, Nat.mul_zero, Nat.zero_add,
            toDigits_ofDigitChars hpos fun c' hc' => hdigits c' (List.mem_cons_of_mem c hc'),
            Nat.toDigits_of_lt_base (digit_lt_ten hdigit), digitChar_of_isDigit hdigit,
            List.singleton_append]

/-! ## Acceptance -/

theorem readPairs_eq_ok {parts : List (List Char)} {r r' : Remap} (heven : parts.length % 2 = 0) :
    readPairs parts r = .ok r' ↔
      ∃ ps, List.Forall₂ Spells parts (flatten ps) ∧ r'.pairs = r.pairs ++ ps := by
  constructor
  · intro h
    fun_induction readPairs parts r with
    | case1 source target rest r ih =>
        simp only [Except.bind_eq_ok, readToken_eq_ok] at h
        obtain ⟨s, hs, t, ht, r₁, hinsert, hrest⟩ := h
        have hrestEven : rest.length % 2 = 0 := by
          simp only [List.length_cons] at heven
          omega
        obtain ⟨ps, hspells, hpairs⟩ := ih r₁ hrestEven hrest
        refine ⟨(s, t) :: ps, .cons hs (.cons ht hspells), ?_⟩
        rw [hpairs, insert_eq_ok.1 hinsert, List.append_assoc, List.singleton_append]
    | case2 parts r hparts =>
        cases h
        match parts, heven, hparts with
        | [], _, _ => exact ⟨[], .nil, (List.append_nil _).symm⟩
        | source :: target :: rest, _, hparts => exact absurd rfl (hparts source target rest)
  · rintro ⟨ps, hspells, hpairs⟩
    rw [readPairs_of_spells hspells]
    exact insertAll_eq_ok.2 hpairs

/-- A text is read as a table exactly if its tokens spell the groups of the table. -/
theorem parse_eq_ok {text : String} {r : Remap} :
    parse text = .ok r ↔
      text ≠ "" ∧ List.Forall₂ Spells (tokens text) (flatten r.pairs) := by
  have hempty : text.toList = [] ↔ text = "" := String.toList_eq_nil_iff
  simp only [parse, splitDots_eq_splitOn, hempty]
  by_cases htext : text = ""
  · simp [htext]
  · rw [if_neg htext]
    split
    next hodd =>
      constructor
      · intro h
        cases h
      · rintro ⟨-, hspells⟩
        have hlen := hspells.length_eq
        rw [length_flatten, tokens] at hlen
        omega
    next heven =>
      rw [readPairs_eq_ok (by omega)]
      constructor
      · rintro ⟨ps, hspells, hpairs⟩
        rw [show r.pairs = ps from hpairs]
        exact ⟨htext, hspells⟩
      · rintro ⟨-, hspells⟩
        exact ⟨r.pairs, hspells, rfl⟩

theorem evens_flatten (ps : List (Group × Group)) : evens (flatten ps) = ps.map Prod.fst := by
  induction ps with
  | nil => rfl
  | cons p rest ih => exact congrArg (p.1 :: ·) ih

theorem exists_flatten_eq {gs : List Group} (h : gs.length % 2 = 0) : ∃ ps, flatten ps = gs := by
  fun_induction evens gs with
  | case1 => exact ⟨[], rfl⟩
  | case2 => cases h
  | case3 source target rest ih =>
      obtain ⟨ps, hps⟩ := ih (by simp only [List.length_cons] at h; omega)
      exact ⟨(source, target) :: ps, congrArg (source :: target :: ·) hps⟩

/-- Which texts are read. -/
theorem parse_succeeds_iff {text : String} :
    (∃ r, parse text = .ok r) ↔
      text ≠ "" ∧ (tokens text).length % 2 = 0 ∧
        ∃ gs, List.Forall₂ Spells (tokens text) gs ∧ (evens gs).Nodup := by
  constructor
  · rintro ⟨r, h⟩
    obtain ⟨htext, hspells⟩ := parse_eq_ok.1 h
    refine ⟨htext, ?_, flatten r.pairs, hspells, ?_⟩
    · rw [hspells.length_eq, length_flatten]
      omega
    · rw [evens_flatten]
      exact r.distinct
  · rintro ⟨htext, heven, gs, hspells, hnodup⟩
    obtain ⟨ps, rfl⟩ := exists_flatten_eq (hspells.length_eq ▸ heven)
    rw [evens_flatten] at hnodup
    exact ⟨⟨ps, hnodup⟩, parse_eq_ok.2 ⟨htext, hspells⟩⟩

/-! ## Round trips -/

/-- Inserts a pair into the table at hand.  A table that refuses the pair stays. -/
def insertM (source target : Group) : Build Remap Unit := fun r =>
  match r.insert source target with
  | .error e => (.error (.remap e), r)
  | .ok r' => (.ok (), r')

/-- A pair is refused if its source is taken, and otherwise stands at the end. -/
theorem insertM_cases (source target : Group) (r : Remap) :
    match insertM source target r with
    | (.error _, r') => source ∈ r.sources ∧ r' = r
    | (.ok (), r') => source ∉ r.sources ∧ r'.pairs = r.pairs ++ [(source, target)] := by
  unfold insertM insert
  by_cases h : source ∈ r.pairs.map Prod.fst
  · rw [dif_pos h]
    exact ⟨h, rfl⟩
  · rw [dif_neg h]
    exact ⟨h, rfl⟩

/-- Tables that come from texts and from insertions of pairs of groups of at most 32 bits.
The insertions may fail. -/
inductive Obtained : Remap → Prop
  | empty : Obtained .empty
  | parse {text : String} {r : Remap} : Remap.parse text = .ok r → Obtained r
  | insert {source target : Group} {r : Remap} :
      Obtained r → source ≤ Group.greatest → target ≤ Group.greatest →
      Obtained (insertM source target r).2

theorem fits_of_parse {text : String} {r : Remap} (h : parse text = .ok r) : r.Fits := by
  have hbounded := (parse_eq_ok.1 h).2.flip.imp fun _ _ hs => And.intro hs.le_greatest hs
  exact ((List.forall₂_and_left _ _).1 hbounded).1

theorem fits_insertM {source target : Group} {r : Remap} (h : r.Fits)
    (hsource : source ≤ Group.greatest) (htarget : target ≤ Group.greatest) :
    (insertM source target r).2.Fits := by
  have hcases := insertM_cases source target r
  rcases hrun : insertM source target r with ⟨_ | _, r'⟩ <;> rw [hrun] at hcases
  · rw [hcases.2]
    exact h
  · intro g hg
    rw [hcases.2, flatten, List.flatMap_append, List.mem_append] at hg
    rcases hg with hg | hg
    · exact h g hg
    · rcases List.mem_pair.1 hg with rfl | rfl
      · exact hsource
      · exact htarget

theorem Obtained.fits {r : Remap} (h : Obtained r) : r.Fits := by
  induction h with
  | empty =>
      intro g hg
      cases hg
  | parse h => exact fits_of_parse h
  | insert _ hsource htarget ih => exact fits_insertM ih hsource htarget

theorem pairs_ne_nil_of_parse {text : String} {r : Remap} (h : parse text = .ok r) :
    r.pairs ≠ [] := by
  intro hnil
  have hspells := (parse_eq_ok.1 h).2
  rw [hnil] at hspells
  exact List.splitOn_ne_nil _ _ (List.forall₂_nil_right_iff.1 hspells)

/-- A text is the text of its table if its tokens are in shortest form. -/
theorem wire_eq_iff {text : String} {r : Remap} (h : parse text = .ok r) :
    r.wire = text ↔ ∀ token ∈ tokens text, Canonical token := by
  have hsplit := splitDots_wireChars (pairs_ne_nil_of_parse h)
  obtain ⟨-, hspells⟩ := parse_eq_ok.1 h
  constructor
  · rintro rfl token htoken
    rw [tokens, wire, String.toList_ofList, ← splitDots_eq_splitOn, hsplit] at htoken
    obtain ⟨g, -, rfl⟩ := List.mem_map.1 htoken
    exact canonical_toDigits g
  · intro hcanonical
    have hwritten : tokens text = (flatten r.pairs).map (Nat.toDigits 10) := by
      have hall := (List.forall₂_and_left _ _).2 ⟨hcanonical, hspells⟩
      have heq := hall.imp fun token g hs => (hs.2.toDigits_eq_iff.2 hs.1).symm
      rwa [← List.forall₂_eq_eq_eq, List.forall₂_map_right_iff]
    rw [wire, wireChars, ← hwritten, joinDots_eq_intercalate, tokens, List.intercalate_splitOn,
      String.ofList_toList]

/-- Writing and reading are inverse to each other up to the spelling of groups, and the reader
accepts just the texts of the grammar. -/
theorem wire_grammar :
    (∀ r, Obtained r → r.sources.Nodup ∧ (r.pairs ≠ [] → parse r.wire = .ok r)) ∧
      (∀ text, (∃ r, parse text = .ok r) ↔
        text ≠ "" ∧ (tokens text).length % 2 = 0 ∧
          ∃ gs, List.Forall₂ Spells (tokens text) gs ∧ (evens gs).Nodup) ∧
      (∀ text r, parse text = .ok r →
        List.Forall₂ Spells (tokens text) (flatten r.pairs) ∧
          (r.wire = text ↔ ∀ token ∈ tokens text, Canonical token)) ∧
      (∀ source target r,
        match insertM source target r with
        | (.error _, r') => source ∈ r.sources ∧ r' = r
        | (.ok (), r') => source ∉ r.sources ∧ r'.pairs = r.pairs ++ [(source, target)]) := by
  refine ⟨?_, fun text => parse_succeeds_iff, ?_, insertM_cases⟩
  · intro r hr
    exact ⟨r.distinct, fun hne => parse_wire hne hr.fits⟩
  · intro text r h
    exact ⟨(parse_eq_ok.1 h).2, wire_eq_iff h⟩

theorem wire_grammar_respelled :
    ∃ r, parse "+10.0501.20.20" = .ok r ∧ r.pairs = [(10, 501), (20, 20)] ∧
      r.wire = "10.501.20.20" ∧ parse r.wire = .ok r ∧
      ¬ ∀ token ∈ tokens "+10.0501.20.20", Canonical token := by
  have hparse : parse "+10.0501.20.20" = .ok ⟨[(10, 501), (20, 20)], by decide⟩ := by rfl
  have hwire : wire ⟨[(10, 501), (20, 20)], by decide⟩ = "10.501.20.20" := by decide +kernel
  obtain ⟨hobtained, -, hread, -⟩ := wire_grammar
  refine ⟨_, hparse, rfl, hwire, (hobtained _ (.parse hparse)).2 (by simp), ?_⟩
  rw [← (hread _ _ hparse).2, hwire]
  decide

/-! ## Cleaning -/

theorem cleaned_eq_self_iff {r : Remap} : r.cleaned = r ↔ ∀ p ∈ r.pairs, p.1 ≠ p.2 := by
  rw [Remap.ext_iff, cleaned, List.filter_eq_self]
  simp

theorem cleaned_ne_nil_iff {r : Remap} :
    r.cleaned.pairs ≠ [] ↔ ∃ p ∈ r.pairs, p.1 ≠ p.2 := by
  simp [cleaned]

/-- Cleaning the text of a cleaned table changes nothing. -/
theorem cleanText_wire {r : Remap} (hne : r.cleaned.pairs ≠ []) (hfit : r.Fits) :
    cleanText r.cleaned.wire = .ok ⟨r.cleaned, r.cleaned.wire, false⟩ := by
  have hclean : r.cleaned.cleaned = r.cleaned :=
    cleaned_eq_self_iff.2 fun _ => ne_of_mem_cleaned
  refine cleanText_eq_ok.2 ⟨r.cleaned, parse_wire hne hfit.cleaned, ?_, ?_⟩
  · rwa [hclean]
  · rw [hclean, bne_self_eq_false]

/-- The text of the cleaned table is the text that was read exactly if nothing is dropped and
nothing is respelled. -/
theorem wire_cleaned_eq_iff {text : String} {r : Remap} (h : parse text = .ok r)
    (hne : r.cleaned.pairs ≠ []) :
    r.cleaned.wire = text ↔
      (∀ p ∈ r.pairs, p.1 ≠ p.2) ∧ ∀ token ∈ tokens text, Canonical token := by
  rw [← wire_eq_iff h, ← cleaned_eq_self_iff]
  constructor
  · intro hwire
    have hread := parse_wire hne (fits_of_parse h).cleaned
    rw [hwire, h] at hread
    have hclean : r.cleaned = r := (Except.ok.inj hread).symm
    rw [hclean] at hwire
    exact ⟨hclean, hwire⟩
  · rintro ⟨hclean, hwire⟩
    rw [hclean, hwire]

/-- A text is cleaned exactly if it can be read and one of its pairs changes something.  The
cleaned table has just the pairs that do, in order, and resolves every group as before.  Cleaning
its text changes nothing.  Cleaning changes a text exactly if it drops a pair or respells a
group. -/
theorem cleanText_normalizes (text : String) :
    ((∃ c, cleanText text = .ok c) ↔
        ∃ r, parse text = .ok r ∧ ∃ p ∈ r.pairs, p.1 ≠ p.2) ∧
      ∀ c, cleanText text = .ok c → ∃ r, parse text = .ok r ∧
        c.table.pairs.Sublist r.pairs ∧
        (∀ p, p ∈ c.table.pairs ↔ p ∈ r.pairs ∧ p.1 ≠ p.2) ∧
        (∀ g, c.table.resolve g = r.resolve g) ∧
        parse c.table.wire = .ok c.table ∧
        cleanText c.table.wire = .ok ⟨c.table, c.table.wire, false⟩ ∧
        (c.changed = false ↔
          (∀ p ∈ r.pairs, p.1 ≠ p.2) ∧ ∀ token ∈ tokens text, Canonical token) := by
  constructor
  · simp only [cleanText_eq_ok, ← cleaned_ne_nil_iff]
    constructor
    · rintro ⟨c, r, h, hne, -⟩
      exact ⟨r, h, hne⟩
    · rintro ⟨r, h, hne⟩
      exact ⟨_, r, h, hne, rfl⟩
  · intro c hc
    obtain ⟨r, h, hne, rfl⟩ := cleanText_eq_ok.1 hc
    have hfit := fits_of_parse h
    refine ⟨r, h, List.filter_sublist, fun p => ?_, resolve_cleaned r,
      parse_wire hne hfit.cleaned, cleanText_wire hne hfit, ?_⟩
    · simp [cleaned]
    · rw [← wire_cleaned_eq_iff h hne, bne_eq_false_iff_eq]

theorem cleanText_normalizes_respelled :
    ∃ c, cleanText "10.10.020.501" = .ok c ∧ c.table.wire = "20.501" ∧ c.changed ∧
      c.table.resolve 10 = 10 ∧ cleanText "20.501" = .ok ⟨c.table, "20.501", false⟩ := by
  have hclean : cleanText "10.10.020.501" =
      .ok ⟨⟨[(20, 501)], by decide⟩, "10.10.020.501", true⟩ := by rfl
  have hwire : wire ⟨[(20, 501)], by decide⟩ = "20.501" := by decide +kernel
  obtain ⟨-, -, -, -, -, -, hagain, -⟩ := (cleanText_normalizes _).2 _ hclean
  refine ⟨_, hclean, hwire, rfl, by decide, ?_⟩
  rw [← hwire]
  exact hagain

end Barrage.Remap
