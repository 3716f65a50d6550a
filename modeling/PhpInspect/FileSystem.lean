import PhpInspect.Path

/-! # File systems

The files that a run may look at, as a value. Only trees of files and directories are meant: there are no links, and
whatever is there can be read.
-/

namespace PhpInspect

inductive FileEntry where
  | file (bytes : ByteArray)
  | directory

inductive FileFault where
  | missing
  | notDirectory
  | isDirectory
  | nameTooLong
  /-- A path that holds a NUL. -/
  | holdsNul
  | notText
deriving Repr, DecidableEq

namespace FileFault

def message : FileFault → String
  | .missing => "No such file or directory (os error 2)"
  | .notDirectory => "Not a directory (os error 20)"
  | .isDirectory => "Is a directory (os error 21)"
  | .nameTooLong => "File name too long (os error 36)"
  | .holdsNul => "file name contained an unexpected NUL byte"
  | .notText => "stream did not contain valid UTF-8"

end FileFault

structure FileSystem where
  /-- Entries under the names that lead to them from the root. -/
  entries : List (List String × FileEntry)
  /-- The working directory, from the root. -/
  home : List String

namespace FileSystem

/-- The file system with some entries. Of several entries under the same names the first counts. -/
def ofEntries (entries : List (List String × FileEntry)) (home : List String) : FileSystem :=
  ⟨entries.foldr (fun e rest => e :: rest.filter fun other => other.1 != e.1) [], home⟩

/-- The entry under some names. The directories on the way to an entry, and to the working directory, are there
without being listed. -/
def entryAt? (fs : FileSystem) (names : List String) : Option FileEntry :=
  match fs.entries.find? fun e => e.1 == names with
  | some (_, entry) => some entry
  | none =>
    if names.isPrefixOf fs.home || fs.entries.any fun e => names.isPrefixOf e.1 then some .directory
    else none

def follow (fs : FileSystem) : List String → List (List Char) → Except FileFault (List String × FileEntry)
  | names, segments =>
    match fs.entryAt? names, segments with
    | none, _ => .error .missing
    | some entry, [] => .ok (names, entry)
    | some (.file _), _ :: _ => .error .notDirectory
    | some .directory, segment :: rest =>
      match segment with
      | [] | ['.'] => follow fs names rest
      | ['.', '.'] => follow fs names.dropLast rest
      | cs =>
        let name := String.ofList cs
        if 255 < name.utf8ByteSize then .error .nameTooLong else follow fs (names ++ [name]) rest
termination_by _ segments => segments.length

/-- The entry at a path, with the names that lead to it. -/
def locate (fs : FileSystem) (path : String) : Except FileFault (List String × FileEntry) :=
  if path.toList.contains '\x00' then .error .holdsNul
  else if 4096 ≤ path.utf8ByteSize then .error .nameTooLong
  else match Text.segments '/' path.toList with
    | [[]] => .error .missing
    | [] :: rest => fs.follow [] rest
    | segments => fs.follow fs.home segments

def pathExists (fs : FileSystem) (path : String) : Bool := (fs.locate path).isOk

def isFile (fs : FileSystem) (path : String) : Bool :=
  match fs.locate path with
  | .ok (_, .file _) => true
  | _ => false

def readText (fs : FileSystem) (path : String) : Except FileFault String := do
  match ← fs.locate path with
  | (_, .directory) => throw .isDirectory
  | (_, .file bytes) =>
    match String.fromUTF8? bytes with
    | some text => return text
    | none => throw .notText

/-- The names that lead on from a directory to something below it. -/
def below? (directory names : List String) : Option (List String) :=
  if directory.isPrefixOf names && directory.length < names.length then some (names.drop directory.length)
  else none

/-- The paths of all files below a directory, each beginning as the path of the directory does. -/
def filesBelow (fs : FileSystem) (path : String) : List String :=
  match fs.locate path with
  | .ok (directory, .directory) =>
    fs.entries.filterMap fun e =>
      match e.2 with
      | .file _ => (below? directory e.1).map fun names => names.foldl Path.join path
      | .directory => none
  | _ => []

def create (fs : FileSystem) (path : String) : Except FileFault FileSystem := do
  let bare : FileEntry := .file .empty
  match fs.locate path with
  | .ok (_, .directory) => throw .isDirectory
  | .ok (names, .file _) =>
    return { fs with entries := (names, bare) :: fs.entries.filter fun e => e.1 != names }
  | .error fault =>
    if fault == .holdsNul || fault == .nameTooLong then throw fault
    let name ← (Path.fileName? path).elim (throw fault) pure
    let above := (Path.parent? path).getD ""
    if path.endsWith "/" then throw (if fault == .missing then .isDirectory else fault)
    match ← fs.locate (if above.isEmpty then "." else above) with
    | (names, .directory) => return { fs with entries := (names ++ [name], bare) :: fs.entries }
    | (_, .file _) => throw .notDirectory

end FileSystem

end PhpInspect
