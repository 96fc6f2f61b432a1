import Barrage.Json.Basic

/-!
# Reading JSON

A text is read in two passes, each a fold with a small state.  The first pass
goes over the characters and cuts them into tokens.  The second goes over the
tokens and keeps the containers that are still open on a stack.  Either pass
ends in `none` at the first token or character that fits nowhere.
-/

namespace Barrage.Json

/-- A lexical unit. -/
inductive Token where
  | openArray
  | closeArray
  | openObject
  | closeObject
  | comma
  | colon
  /-- A value that is one token: a word, a number or a string. -/
  | atom (value : Json)

/-! ## Numbers and words -/

/-- The digits at the front, and what follows. -/
def spanDigits (cs : List Char) : List Char × List Char :=
  (cs.takeWhile Char.isDigit, cs.dropWhile Char.isDigit)

/-- The value of decimal digits. -/
def decimalValue (cs : List Char) : Nat :=
  cs.foldl (fun n c => 10 * n + (c.toNat - '0'.toNat)) 0

/-- Reads the exponent of a number, the empty one as zero. -/
def readExponent : List Char → Option Int
  | [] => some 0
  | c :: cs =>
    if c = 'e' ∨ c = 'E' then
      let (negative, digits) :=
        match cs with
        | '-' :: ds => (true, ds)
        | '+' :: ds => (false, ds)
        | ds => (false, ds)
      if digits ≠ [] ∧ digits.all Char.isDigit then
        some (if negative then -(decimalValue digits : Int) else (decimalValue digits : Int))
      else
        none
    else
      none

/-- The float `± digits · 10 ^ exponent`, correctly rounded.  An exponent further
out than the digits reach is as good as one at the limit: the result is zero or
infinite either way. -/
def scaled (negative : Bool) (digits : Nat) (exponent : Int) : Float :=
  let limit := digits.log2 + 400
  let x := Float.ofScientific digits (exponent < 0) (min exponent.natAbs limit)
  if negative then -x else x

/-- Reads what follows the sign of a number.  Without point and exponent it is an
integer, except that minus zero is a float. -/
def readUnsigned (negative : Bool) (cs : List Char) : Option Json :=
  let (whole, rest) := spanDigits cs
  if whole = [] ∨ (whole.length ≠ 1 ∧ whole.head? = some '0') then
    none
  else
    match rest with
    | [] =>
      let n := decimalValue whole
      if negative then
        some (if n = 0 then .float (scaled true 0 0) else .int (-(n : Int)))
      else
        some (.int n)
    | '.' :: more =>
      let (fraction, tail) := spanDigits more
      if fraction = [] then
        none
      else
        (readExponent tail).map fun e =>
          .float (scaled negative (decimalValue (whole ++ fraction)) (e - fraction.length))
    | _ => (readExponent rest).map fun e => .float (scaled negative (decimalValue whole) e)

/-- Reads a number. -/
def readNumber : List Char → Option Json
  | '-' :: cs => readUnsigned true cs
  | cs => readUnsigned false cs

/-- Reads a word. -/
def readWord (cs : List Char) : Option Json :=
  if cs = "true".toList then some (.bool true)
  else if cs = "false".toList then some (.bool false)
  else if cs = "null".toList then some .null
  else none

/-! ## Strings -/

/-- The characters of code units.  A high surrogate needs a low one after it. -/
def pairUnits : List Nat → Option (List Char)
  | [] => some []
  | u :: rest =>
    if 0xD800 ≤ u ∧ u < 0xDC00 then
      match rest with
      | v :: more =>
        if 0xDC00 ≤ v ∧ v < 0xE000 then
          (pairUnits more).map
            (Char.ofNat (0x10000 + (u - 0xD800) * 0x400 + (v - 0xDC00)) :: ·)
        else
          none
      | [] => none
    else if 0xDC00 ≤ u ∧ u < 0xE000 then
      none
    else
      (pairUnits rest).map (Char.ofNat u :: ·)

/-- The content of a string, from its code units in reverse. -/
def textOfUnits (reversed : List Nat) : Text :=
  match pairUnits reversed.reverse with
  | some cs => .plain (String.ofList cs)
  | none => .unpaired

/-- The code unit of a one-letter escape. -/
def escapeUnit (c : Char) : Option Nat :=
  match c with
  | '"' => some 0x22
  | '\\' => some 0x5C
  | '/' => some 0x2F
  | 'b' => some 0x08
  | 'f' => some 0x0C
  | 'n' => some 0x0A
  | 'r' => some 0x0D
  | 't' => some 0x09
  | _ => none

/-- The value of a hexadecimal digit. -/
def hexValue (c : Char) : Option Nat :=
  if '0' ≤ c ∧ c ≤ '9' then some (c.toNat - '0'.toNat)
  else if 'a' ≤ c ∧ c ≤ 'f' then some (c.toNat - 'a'.toNat + 10)
  else if 'A' ≤ c ∧ c ≤ 'F' then some (c.toNat - 'A'.toNat + 10)
  else none

/-! ## Tokens -/

/-- What the next character belongs to. -/
inductive Mode where
  /-- Nothing yet. -/
  | idle
  /-- A word, in reverse. -/
  | word (chars : List Char)
  /-- A number, in reverse. -/
  | number (chars : List Char)
  /-- A string, its code units in reverse. -/
  | quoted (units : List Nat)
  /-- A string after a backslash. -/
  | escaped (units : List Nat)
  /-- A string in a numeric escape: how many digits are missing, and the value of
  those before them. -/
  | hex (units : List Nat) (missing value : Nat)

/-- Tokens so far, in reverse, and the open one. -/
structure Scan where
  tokens : List Token := []
  mode : Mode := .idle

namespace Scan

/-- Ends an open word or number.  A string cannot end here. -/
def settle (s : Scan) : Option Scan :=
  match s.mode with
  | .idle => some s
  | .word cs => (readWord cs.reverse).map fun v => ⟨.atom v :: s.tokens, .idle⟩
  | .number cs => (readNumber cs.reverse).map fun v => ⟨.atom v :: s.tokens, .idle⟩
  | .quoted _ | .escaped _ | .hex .. => none

/-- Starts a token. -/
def start (s : Scan) (c : Char) : Option Scan :=
  let punctuation (t : Token) : Option Scan := some ⟨t :: s.tokens, .idle⟩
  match c with
  | ' ' | '\n' | '\t' | '\r' => some s
  | '[' => punctuation .openArray
  | ']' => punctuation .closeArray
  | '\x7b' => punctuation .openObject
  | '\x7d' => punctuation .closeObject
  | ',' => punctuation .comma
  | ':' => punctuation .colon
  | '"' => some { s with mode := .quoted [] }
  | _ =>
    if c = '-' ∨ c.isDigit then
      some { s with mode := .number [c] }
    else if c.isAlpha then
      some { s with mode := .word [c] }
    else
      none

/-- Takes one character. -/
def step (s : Scan) (c : Char) : Option Scan :=
  match s.mode with
  | .idle => s.start c
  | .word cs =>
    if c.isAlpha then some { s with mode := .word (c :: cs) } else s.settle.bind (·.start c)
  | .number cs =>
    if c.isDigit ∨ c = '.' ∨ c = '-' ∨ c = '+' ∨ c = 'e' ∨ c = 'E' then
      some { s with mode := .number (c :: cs) }
    else
      s.settle.bind (·.start c)
  | .quoted units =>
    if c = '"' then
      some ⟨.atom (.string (textOfUnits units)) :: s.tokens, .idle⟩
    else if c = '\\' then
      some { s with mode := .escaped units }
    else if c.toNat < 0x20 then
      none
    else
      some { s with mode := .quoted (c.toNat :: units) }
  | .escaped units =>
    if c = 'u' then
      some { s with mode := .hex units 4 0 }
    else
      (escapeUnit c).map fun u => { s with mode := .quoted (u :: units) }
  | .hex units missing value =>
    (hexValue c).map fun d =>
      let value := 16 * value + d
      if missing ≤ 1 then
        { s with mode := .quoted (value :: units) }
      else
        { s with mode := .hex units (missing - 1) value }

end Scan

/-- The tokens of a text. -/
def tokenize (text : String) : Option (List Token) := do
  let scan ← text.toList.foldlM Scan.step {}
  let scan ← scan.settle
  pure scan.tokens.reverse

/-! ## Values -/

/-- A container that is still open, its content in reverse. -/
inductive Frame where
  | array (items : List Json)
  | object (fields : List (Text × Json)) (key : Text)

/-- What may come next. -/
inductive Expect where
  /-- A value. -/
  | value
  /-- A value, or the end of an array that has just begun. -/
  | firstItem
  /-- The key of a field. -/
  | key (fields : List (Text × Json))
  /-- The key of a field, or the end of an object that has just begun. -/
  | firstKey
  /-- The colon after a key. -/
  | colon (fields : List (Text × Json)) (key : Text)
  /-- A comma, or the end of an array. -/
  | moreItems (items : List Json)
  /-- A comma, or the end of an object. -/
  | moreFields (fields : List (Text × Json))
  /-- Nothing: the text is a value. -/
  | nothing (value : Json)

/-- The open containers around the place that is read, innermost first. -/
structure Parse where
  stack : List Frame := []
  expect : Expect := .value

namespace Parse

/-- Puts a finished value in its place. -/
def complete (stack : List Frame) (v : Json) : Parse :=
  match stack with
  | [] => ⟨[], .nothing v⟩
  | .array items :: rest => ⟨rest, .moreItems (v :: items)⟩
  | .object fields key :: rest => ⟨rest, .moreFields ((key, v) :: fields)⟩

/-- Begins a value. -/
def begin (stack : List Frame) : Token → Option Parse
  | .atom v => some (complete stack v)
  | .openArray => some ⟨stack, .firstItem⟩
  | .openObject => some ⟨stack, .firstKey⟩
  | _ => none

/-- Takes one token. -/
def step (p : Parse) (t : Token) : Option Parse :=
  match p.expect, t with
  | .value, t => begin p.stack t
  | .firstItem, .closeArray => some (complete p.stack (.array []))
  | .firstItem, t => begin (.array [] :: p.stack) t
  | .firstKey, .closeObject => some (complete p.stack (.object []))
  | .firstKey, .atom (.string key) => some ⟨p.stack, .colon [] key⟩
  | .key fields, .atom (.string key) => some ⟨p.stack, .colon fields key⟩
  | .colon fields key, .colon => some ⟨.object fields key :: p.stack, .value⟩
  | .moreItems items, .comma => some ⟨.array items :: p.stack, .value⟩
  | .moreItems items, .closeArray => some (complete p.stack (.array items.reverse))
  | .moreFields fields, .comma => some ⟨p.stack, .key fields⟩
  | .moreFields fields, .closeObject => some (complete p.stack (.object fields.reverse))
  | _, _ => none

end Parse

/-- Reads a JSON text. -/
def parse (text : String) : Option Json := do
  let tokens ← tokenize text
  let p ← tokens.foldlM Parse.step {}
  match p.expect with
  | .nothing v => some v
  | _ => none

end Barrage.Json
