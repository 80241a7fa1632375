/-
**Files: what can be read under which path.**

A path is walked step by step from the working directory, and every step but the last has to end in
a directory.  A step upwards is taken where the walk stands, so a path may fail at a name that a
later step would have left again.

Main definitions:

* `FileError`, `FileError.text` — why a path cannot be used;
* `FileReader` — what becomes of reading a path;
* `FileTree` — the files of a directory, each under its path from there;
* `Place`, `FileTree.step`, `FileTree.walk` — the walk along a path;
* `FileTree.read` — the reader of such files.
-/

set_option autoImplicit false

namespace RhythmLogic

/-- Why a path cannot be used. -/
inductive FileError where
  | notFound
  | alreadyExists
  | isDirectory
  | notDirectory
  | nameTooLong
  | nulInName
  | notText
  | other (words : String)
deriving DecidableEq, Repr

/-- The words for a path that cannot be used. -/
def FileError.text : FileError → String
  | notFound => "No such file or directory (os error 2)"
  | alreadyExists => "File exists (os error 17)"
  | isDirectory => "Is a directory (os error 21)"
  | notDirectory => "Not a directory (os error 20)"
  | nameTooLong => "File name too long (os error 36)"
  | nulInName => "file name contained an unexpected NUL byte"
  | notText => "stream did not contain valid UTF-8"
  | other words => words

/-- What becomes of reading a path: its text, or why it cannot be read. -/
abbrev FileReader : Type := String → Except FileError String

/-! ### Paths -/

/-- The steps of a path: the texts between its slashes. -/
def pathSteps (path : String) : List String := path.splitOn "/"

/-- A step that stays where it is. -/
def isIdleStep (step : String) : Bool := step = "" || step = "."

/-- A step upwards. -/
def isUpwardStep (step : String) : Bool := step = ".."

/-- **The names on the way to a path,** the last one first.  Idle steps leave no name, and a step
upwards takes back the name before it. -/
def trail (path : String) : List String :=
  (pathSteps path).foldl (fun names step =>
    if isIdleStep step then names
    else if isUpwardStep step then names.tail
    else step :: names) []

/-- A path under a directory. -/
def within (directory name : String) : String := directory ++ "/" ++ name

/-! ### Files -/

/-- The files of a directory, each under its path from there.  The directories on the way to a file
are there too, and some more may be. -/
structure FileTree where
  files : List (String × String)
  directories : List String

/-- Where a walk along a path stands. -/
inductive Place where
  | file (text : String)
  /-- A directory, under the names on the way to it, the last one first. -/
  | directory (names : List String)
  /-- A directory that is not among the files. -/
  | outside
deriving DecidableEq, Repr

namespace FileTree

/-- The most bytes that a name may have. -/
def nameLimit : Nat := 255

/-- The most bytes that a path may have. -/
def pathLimit : Nat := 4095

/-- Some files. -/
def ofFiles (files : List (String × String)) : FileTree := ⟨files, []⟩

/-- No files. -/
def empty : FileTree := ofFiles []

/-- The file under some names. -/
def file? (t : FileTree) (names : List String) : Option String :=
  (t.files.find? fun f => trail f.1 == names).map (·.2)

/-- A directory is under some names. -/
def isDirectory (t : FileTree) (names : List String) : Bool :=
  t.files.any (fun f => names.isSuffixOf (trail f.1).tail) ||
    t.directories.any fun d => names.isSuffixOf (trail d)

/-- What is under some names. -/
def place (t : FileTree) (names : List String) : Except FileError Place :=
  match t.file? names with
  | some text => .ok (.file text)
  | none => if t.isDirectory names then .ok (.directory names) else .error .notFound

/-- **One step along a path.**  From a file no step is possible, not even an idle one. -/
def step (t : FileTree) : Place → String → Except FileError Place
  | .file _, _ => .error .notDirectory
  | .outside, s =>
      if isIdleStep s || isUpwardStep s then .ok .outside
      else if nameLimit < s.utf8ByteSize then .error .nameTooLong
      else .error .notFound
  | .directory names, s =>
      if isIdleStep s then .ok (.directory names)
      else if isUpwardStep s then
        match names with
        | [] => .ok .outside
        | _ :: above => .ok (.directory above)
      else if nameLimit < s.utf8ByteSize then .error .nameTooLong
      else t.place (s :: names)

/-- **Where a path leads.** -/
def walk (t : FileTree) (path : String) : Except FileError Place :=
  if path.toList.contains (Char.ofNat 0) then .error .nulInName
  else if path.isEmpty then .error .notFound
  else if pathLimit < path.utf8ByteSize then .error .nameTooLong
  else (pathSteps path).foldlM t.step (if path.startsWith "/" then .outside else .directory [])

/-- **The reader of these files.** -/
def read (t : FileTree) : FileReader := fun path =>
  match t.walk path with
  | .ok (.file text) => .ok text
  | .ok _ => .error .isDirectory
  | .error e => .error e

/-- A path leads to a file or a directory. -/
def exists? (t : FileTree) (path : String) : Bool := (t.walk path).isOk

end FileTree

end RhythmLogic
