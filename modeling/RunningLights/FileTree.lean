/-!
# Trees of text files

A tree of text files is known by the paths of its files; a directory is there as soon as something lies in it.  Paths
that do not begin at the root begin at the working directory.

* `FileTree.read`, `FileTree.write` — a file's text, and the tree after a file was written.
-/

namespace RunningLights

/-- Why a file cannot be read or written. -/
inductive FileError where
  | missing
  | exists
  | notDirectory
  | isDirectory
  /-- What the file holds is no text. -/
  | notText
  deriving Repr, DecidableEq, Inhabited

/-- The wording of an error, with the number that the system gives it if it has one. -/
def FileError.message : FileError → String
  | missing => "No such file or directory (os error 2)"
  | «exists» => "File exists (os error 17)"
  | notDirectory => "Not a directory (os error 20)"
  | isDirectory => "Is a directory (os error 21)"
  | notText => "stream did not contain valid UTF-8"

/-- Text files by their paths from the root. -/
structure FileTree where
  /-- The working directory. -/
  home : List String
  files : List (List String × String)
  deriving Inhabited

namespace FileTree

/-- The names on a path that is written with strokes. -/
def names (path : String) : List String := path.splitOn "/"

/-- The directory at which a path begins, and the names from there. -/
def origin (t : FileTree) (path : String) : List String × List String :=
  match names path with
  | "" :: _ :: _ => ([], names path)
  | ns => (t.home, ns)

def isFile (t : FileTree) (place : List String) : Bool := (t.files.lookup place).isSome

/-- The root, the working directory with those around it, and whatever has a file in it. -/
def isDirectory (t : FileTree) (place : List String) : Bool :=
  place.isPrefixOf t.home || t.files.any fun (file, _) => place.isPrefixOf file && place != file

/-- The place that names lead to. -/
def walk (t : FileTree) (place : List String) : List String → Except FileError (List String)
  | [] => .ok place
  | name :: rest =>
    if t.isFile place then .error .notDirectory
    else if name = "" ∨ name = "." then t.walk place rest
    else if name = ".." then t.walk place.dropLast rest
    else
      let next := place ++ [name]
      if t.isFile next || t.isDirectory next then t.walk next rest else .error .missing

/-- The text of a file. -/
def read (t : FileTree) (path : String) : Except FileError String := do
  if path = "" then .error .missing
  else
    let (place, ns) := t.origin path
    let place ← t.walk place ns
    match t.files.lookup place with
    | some text => .ok text
    | none => .error .isDirectory

/-- Puts a text at a place. -/
def put (t : FileTree) (place : List String) (text : String) : FileTree :=
  { t with files := (t.files.filter fun (file, _) => file != place) ++ [(place, text)] }

/-- Writes a file, after making the directories on the way to it.  The path has plain names only. -/
def write (t : FileTree) (path text : String) : Except FileError FileTree :=
  let (place, ns) := t.origin path
  let file := place ++ ns.filter (· != "")
  if t.isFile file.dropLast then .error .exists
  else if t.files.any fun (other, _) => other.isPrefixOf file.dropLast then .error .notDirectory
  else if t.isDirectory file then .error .isDirectory
  else .ok (t.put file text)

/-- The tree of files whose paths begin at the working directory. -/
def ofList (home : List String) (files : List (String × String)) : FileTree :=
  ⟨home, files.map fun (path, text) => (home ++ (names path).filter (· != ""), text)⟩

end FileTree

end RunningLights
