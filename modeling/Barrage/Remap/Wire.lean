import Barrage.Remap.Basic

/-!
# The text of a remap

A remap is written as its groups joined by dots, source before target:
`10.501.20.5200`.

The reader accepts more spellings of a group than the writer produces.  A group
is one or more decimal digits after an optional plus sign, and leading zeros
are fine, as long as the value fits in 32 bits.  So writing and reading give
the table back, and reading and writing give the text back only when each group
was spelled in its shortest form.

*Cleaning* a text reads it, drops the pairs that change nothing and writes the
rest.
-/

namespace Barrage.Remap

/-! ## Writing -/

/-- The groups of the table, source before target. -/
def flatten (pairs : List (Group × Group)) : List Group :=
  pairs.flatMap fun p => [p.1, p.2]

/-- Parts joined by dots. -/
def joinDots : List (List Char) → List Char
  | [] => []
  | [part] => part
  | part :: rest => part ++ '.' :: joinDots rest

/-- The characters of a remap text. -/
def wireChars (r : Remap) : List Char :=
  joinDots ((flatten r.pairs).map (Nat.toDigits 10))

/-- The text of a remap. -/
def wire (r : Remap) : String := String.ofList r.wireChars

/-! ## Reading -/

/-- The parts between dots.  There is one more part than there are dots. -/
def splitDots : List Char → List (List Char)
  | [] => [[]]
  | c :: rest =>
    if c = '.' then
      [] :: splitDots rest
    else
      match splitDots rest with
      | [] => [[c]]
      | part :: parts => (c :: part) :: parts

/-- The value of decimal digits. -/
def digitsValue (cs : List Char) : Nat :=
  cs.foldl (fun n c => 10 * n + (c.toNat - '0'.toNat)) 0

/-- Reads digits: at least one, nothing else, and a value of at most 32 bits. -/
def readDigits (cs : List Char) : Option Group :=
  if cs ≠ [] ∧ cs.all Char.isDigit ∧ digitsValue cs ≤ Group.greatest then
    some (digitsValue cs)
  else
    none

/-- Reads a group: digits after an optional plus sign. -/
def readGroup : List Char → Option Group
  | '+' :: cs => readDigits cs
  | cs => readDigits cs

/-- Reads one part of a text. -/
def readToken (cs : List Char) : Except RemapError Group :=
  match readGroup cs with
  | some g => .ok g
  | none => .error (.invalidToken (String.ofList cs))

/-- Reads parts two by two and adds each pair to the table. -/
def readPairs : List (List Char) → Remap → Except RemapError Remap
  | source :: target :: rest, r => do
    let source ← readToken source
    let target ← readToken target
    let r ← r.insert source target
    readPairs rest r
  | _, r => .ok r

/-- Reads a remap text.  Pairs that change nothing are kept. -/
def parse (text : String) : Except RemapError Remap :=
  let cs := text.toList
  let parts := splitDots cs
  if cs = [] then
    .error .empty
  else if parts.length % 2 = 1 then
    .error (.oddParts text)
  else
    readPairs parts empty

/-! ## Cleaning -/

/-- A cleaned remap. -/
structure Cleaned where
  /-- The pairs that change something. -/
  table : Remap
  /-- The text that was cleaned. -/
  given : String
  /-- Is the text of the table another than the given one? -/
  changed : Bool

/-- Drops the pairs of a table that change nothing.  Something must be left. -/
def clean (r : Remap) : Except RemapError Cleaned :=
  if r.cleaned.isEmpty then
    .error (.emptyAfterCleaning r.wire)
  else
    .ok ⟨r.cleaned, r.wire, r.cleaned.pairs != r.pairs⟩

/-- Reads a text and drops the pairs that change nothing.  Something must be
left. -/
def cleanText (text : String) : Except RemapError Cleaned := do
  let table := (← parse text).cleaned
  if table.isEmpty then
    .error (.emptyAfterCleaning text)
  else
    .ok ⟨table, text, table.wire != text⟩

end Barrage.Remap
