import Barrage.Export.Error
import Barrage.Export.Path

/-!
# Disks

What an export needs of a disk is four operations.  A *directory* is a disk that
is a plain value: a list of folders and files by their paths.
-/

namespace Barrage

/-- Operations on files. -/
structure Disk (m : Type → Type) where
  /-- The text of a file. -/
  read : String → m (Except DiskError String)
  /-- Gives a file a text. -/
  write : String → String → m (Except DiskError Unit)
  /-- Gives a file another path, in the place of a file that is there. -/
  rename : String → String → m (Except DiskError Unit)
  /-- Removes a file. -/
  remove : String → m (Except DiskError Unit)

/-- What a path leads to. -/
inductive Entry where
  | folder
  | file (text : String)
deriving Repr, DecidableEq

/-- Folders and files by the names that lead to them.  The top folder needs no
entry. -/
structure Directory where
  entries : List (List String × Entry) := []
deriving Repr, DecidableEq

namespace Directory

/-- What a place holds. -/
def entry? (d : Directory) (place : List String) : Option Entry :=
  if place = [] then some .folder else d.entries.lookup place

/-- Empties a place. -/
def erase (d : Directory) (place : List String) : Directory :=
  ⟨d.entries.filter fun e => e.1 ≠ place⟩

/-- Puts a file in a place. -/
def put (d : Directory) (place : List String) (text : String) : Directory :=
  ⟨(place, .file text) :: (d.erase place).entries⟩

/-- The paths of all files, in order. -/
def files (d : Directory) : List String :=
  (d.entries.filterMap fun e =>
    match e.2 with
    | .file _ => some (Path.join e.1)
    | .folder => none).mergeSort

/-- A folder one name further.  Above the top there is only the top. -/
def enter (d : Directory) (place : List String) (name : String) :
    Except DiskError (List String) :=
  if Path.isIdle name then
    .ok place
  else if name = ".." then
    .ok place.dropLast
  else if 255 < name.utf8ByteSize then
    .error .nameTooLong
  else
    match d.entry? (place ++ [name]) with
    | some .folder => .ok (place ++ [name])
    | some (.file _) => .error .notDirectory
    | none => .error .notFound

/-- Where a path leads. -/
structure Spot where
  /-- The folder. -/
  folder : List String
  /-- The last name, or `none` when the path ends in a folder by its form. -/
  name : Option String
  /-- Does a slash follow the last name? -/
  slash : Bool

/-- Follows a path up to its last name. -/
def follow (d : Directory) (path : String) : Except DiskError Spot := do
  if path.toList.contains (Char.ofNat 0) then
    throw .invalidName
  if path = "" then
    throw .notFound
  if 4095 < path.utf8ByteSize then
    throw .nameTooLong
  let names := Path.names path
  let bare := (names.reverse.dropWhile (· = "")).reverse
  let slash := bare.length < names.length
  let folder ← bare.dropLast.foldlM d.enter []
  match bare.getLast? with
  | none => pure ⟨folder, none, slash⟩
  | some "." => pure ⟨folder, none, slash⟩
  | some ".." => pure ⟨folder, none, slash⟩
  | some name =>
    if 255 < name.utf8ByteSize then
      throw .nameTooLong
    pure ⟨folder, some name, slash⟩

/-- The text of a file. -/
def readFile (d : Directory) (path : String) : Except DiskError String := do
  let spot ← d.follow path
  match spot.name with
  | none => throw .isDirectory
  | some name =>
    match d.entry? (spot.folder ++ [name]) with
    | none => throw .notFound
    | some .folder => throw .isDirectory
    | some (.file text) => if spot.slash then throw .notDirectory else pure text

/-- Gives a file a text. -/
def writeFile (d : Directory) (path text : String) : Except DiskError Directory := do
  let spot ← d.follow path
  match spot.name with
  | none => throw .isDirectory
  | some name =>
    match d.entry? (spot.folder ++ [name]), spot.slash with
    | some .folder, _ => throw .isDirectory
    | some (.file _), true => throw .notDirectory
    | none, true => throw .isDirectory
    | _, false => pure (d.put (spot.folder ++ [name]) text)

/-- Gives a file another path. -/
def renameFile (d : Directory) (source target : String) : Except DiskError Directory := do
  let source ← d.follow source
  let target ← d.follow target
  match source.name, target.name with
  | some old, some new =>
    match d.entry? (source.folder ++ [old]) with
    | some (.file text) =>
      if source.slash ∨ target.slash then
        throw .notDirectory
      match d.entry? (target.folder ++ [new]) with
      | some .folder => throw .isDirectory
      | _ => pure ((d.erase (source.folder ++ [old])).put (target.folder ++ [new]) text)
    | some .folder => throw .isDirectory
    | none => throw .notFound
  | _, _ => throw .busy

/-- Removes a file. -/
def removeFile (d : Directory) (path : String) : Except DiskError Directory := do
  let spot ← d.follow path
  match spot.name with
  | none => throw .isDirectory
  | some name =>
    match d.entry? (spot.folder ++ [name]) with
    | some (.file _) => if spot.slash then throw .notDirectory else pure (d.erase (spot.folder ++ [name]))
    | some .folder => throw .isDirectory
    | none => throw .notFound

/-- A change that leaves the directory alone when it fails. -/
def attempt (f : Directory → Except DiskError Directory) :
    StateM Directory (Except DiskError Unit) := fun d =>
  match f d with
  | .ok d => (.ok (), d)
  | .error e => (.error e, d)

/-- A directory as a disk. -/
def disk : Disk (StateM Directory) where
  read path := fun d => (d.readFile path, d)
  write path text := attempt fun d => d.writeFile path text
  rename source target := attempt fun d => d.renameFile source target
  remove path := attempt fun d => d.removeFile path

end Directory

end Barrage
