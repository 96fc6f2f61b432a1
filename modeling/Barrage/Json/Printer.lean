import Barrage.Json.Basic
import Barrage.Number.Layout

/-!
# Writing JSON

`compact` writes a value on one line without blanks.  `pretty` puts each item
and each field on a line of its own, indented by two blanks per level.  Floats
are written in the document layout, and those that are no real numbers as
`null`.
-/

namespace Barrage.Json

open Number (Layout)

/-- Two hexadecimal digits. -/
def hexByte (n : Nat) : String :=
  String.ofList [Nat.digitChar (n / 16 % 16), Nat.digitChar (n % 16)]

/-- A character inside quotes. -/
def escape (c : Char) : String :=
  match c with
  | '"' => "\\\""
  | '\\' => "\\\\"
  | '\n' => "\\n"
  | '\r' => "\\r"
  | '\t' => "\\t"
  | _ =>
    if c.toNat = 0x08 then "\\b"
    else if c.toNat = 0x0C then "\\f"
    else if c.toNat < 0x20 then "\\u00" ++ hexByte c.toNat
    else c.toString

/-- A text in quotes. -/
def quote (s : String) : String :=
  (s.toList.foldl (fun out c => out ++ escape c) "\"") ++ "\""

/-- The content of a string in quotes. -/
def quoteText : Text → String
  | .plain s => quote s
  | .unpaired => quote ""

/-- A float as a JSON number, or `null`. -/
def floatText (x : Float) : String :=
  if x.isFinite then Layout.document.render x else "null"

/-- A value that is no container.  A container is written as if it were empty. -/
def atomText : Json → String
  | .null => "null"
  | .bool b => if b then "true" else "false"
  | .int n => toString n
  | .float x => floatText x
  | .string t => quoteText t
  | .array _ => "[]"
  | .object _ => "\x7b\x7d"

/-! ## One line -/

mutual

/-- Appends a value. -/
def writeCompact (out : String) : Json → String
  | .array items => writeItems (out ++ "[") "" items ++ "]"
  | .object fields => writeFields (out ++ "\x7b") "" fields ++ "\x7d"
  | v => out ++ atomText v

/-- Appends items, each after a separator. -/
def writeItems (out sep : String) : List Json → String
  | [] => out
  | v :: rest => writeItems (writeCompact (out ++ sep) v) "," rest

/-- Appends fields, each after a separator. -/
def writeFields (out sep : String) : List (Text × Json) → String
  | [] => out
  | (key, v) :: rest =>
    writeFields (writeCompact (out ++ sep ++ quoteText key ++ ":") v) "," rest

end

/-- A value on one line. -/
def compact (v : Json) : String := writeCompact "" v

/-! ## Indented -/

/-- A new line at a level. -/
def newline (level : Nat) : String := "\n" ++ String.ofList (List.replicate (2 * level) ' ')

mutual

/-- Appends a value at a level. -/
def writePretty (out : String) (level : Nat) : Json → String
  | .array [] => out ++ "[]"
  | .array (v :: rest) =>
    writePrettyItems (out ++ "[") (level + 1) "" (v :: rest) ++ newline level ++ "]"
  | .object [] => out ++ "\x7b\x7d"
  | .object (f :: rest) =>
    writePrettyFields (out ++ "\x7b") (level + 1) "" (f :: rest) ++ newline level ++ "\x7d"
  | v => out ++ atomText v

/-- Appends items at a level, each after a separator. -/
def writePrettyItems (out : String) (level : Nat) (sep : String) : List Json → String
  | [] => out
  | v :: rest =>
    writePrettyItems (writePretty (out ++ sep ++ newline level) level v) level "," rest

/-- Appends fields at a level, each after a separator. -/
def writePrettyFields (out : String) (level : Nat) (sep : String) :
    List (Text × Json) → String
  | [] => out
  | (key, v) :: rest =>
    writePrettyFields
      (writePretty (out ++ sep ++ newline level ++ quoteText key ++ ": ") level v) level "," rest

end

/-- A value over several lines. -/
def pretty (v : Json) : String := writePretty "" 0 v

end Barrage.Json
