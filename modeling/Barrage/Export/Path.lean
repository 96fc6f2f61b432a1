/-!
# Paths

A path is a text of names between slashes.  Empty names and dots in the middle
mean nothing, two dots lead to the folder above.

A document is first written under another name in the folder of its path: the
last name of the path with `.tmp` after it.
-/

namespace Barrage.Path

/-- The names between slashes. -/
def names (path : String) : List String := split path.toList
where
  /-- The texts between slashes. -/
  split : List Char → List String
    | [] => [""]
    | c :: rest =>
      if c = '/' then
        "" :: split rest
      else
        match split rest with
        | [] => [c.toString]
        | part :: parts => (c.toString ++ part) :: parts

/-- Does a name after a slash mean nothing? -/
def isIdle (name : String) : Bool := name = "" ∨ name = "."

/-- Names without the idle ones at the end. -/
def trimEnd (names : List String) : List String := (names.reverse.dropWhile isIdle).reverse

/-- Names joined by slashes. -/
def join (names : List String) : String := "/".intercalate names

/-- The folder of a path and its last name.  A path that ends in a folder above
or in nothing has no last name. -/
def split? (path : String) : Option (String × String) :=
  match names path with
  | [] => none
  | first :: rest =>
    match (trimEnd rest).getLast? with
    | some ".." => none
    | some last =>
      let above := first :: trimEnd (trimEnd rest).dropLast
      some (if above = [""] then "/" else join above, last)
    | none => if isIdle first ∨ first = ".." then none else some ("", first)

/-- A name put after a folder. -/
def append (folder name : String) : String :=
  if folder = "" ∨ folder.toList.getLast? = some '/' then folder ++ name else folder ++ "/" ++ name

/-- The path under which a document is first written. -/
def temporary (path : String) : String :=
  match split? path with
  | some (folder, name) => append folder (name ++ ".tmp")
  | none => append path ".tmp"

end Barrage.Path
