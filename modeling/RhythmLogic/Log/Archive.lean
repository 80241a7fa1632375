/-
**The log archive: one file that grows, and a few earlier ones.**

A message that would take the growing file beyond its limit starts a new one.  The files before it
each move to the next number, and the one with the last number is dropped.  A directory may stand
under any of the names: it moves like a file, but it can neither grow nor be dropped.

Main definitions:

* `LogEntry`, `Archive`, `Archive.ofEntries`, `Archive.entries` — what stands under the names;
* `Archive.rotate?` — everything moves to the next number;
* `Archive.append` — a message is written.
-/

import RhythmLogic.FileTree
import RhythmLogic.Notice

set_option autoImplicit false

namespace RhythmLogic

/-- What stands under a name of the log. -/
inductive LogEntry where
  | file (text : String)
  | directory
deriving DecidableEq, Repr

/-- The text of a file. -/
def LogEntry.text? : LogEntry → Option String
  | file text => some text
  | directory => none

/-- What stands under the names of the log, each unless it is missing. -/
structure Archive where
  /-- The file that grows. -/
  current : Option LogEntry
  /-- The earlier files, the latest first. -/
  earlier : List (Option LogEntry)

namespace Archive

/-- The limit of the growing file, in bytes. -/
def sizeLimit : Nat := 1048576

/-- The number of earlier files that are kept. -/
def keptCount : Nat := 4

/-- The name of the growing file. -/
def fileName : String := "bog.log"

/-- The name of an earlier file. -/
def earlierName (number : Nat) : String := fileName ++ "." ++ naturalText number

/-- The names of all files, the growing one first. -/
def names : List String := fileName :: (List.range keptCount).map fun n => earlierName (n + 1)

/-- No files yet. -/
def empty : Archive := ⟨none, List.replicate keptCount none⟩

/-- The archive among some entries. -/
def ofEntries (found : List (String × LogEntry)) : Archive :=
  ⟨found.lookup fileName, (List.range keptCount).map fun n => found.lookup (earlierName (n + 1))⟩

/-- The entries with their names, the growing one first. -/
def entries (a : Archive) : List (String × LogEntry) :=
  (names.zip (a.current :: a.earlier)).filterMap fun (name, entry) => entry.map fun e => (name, e)

/-- **The files with their names,** the growing one first. -/
def files (a : Archive) : List (String × String) :=
  a.entries.filterMap fun (name, entry) => entry.text?.map fun t => (name, t)

/-- The text of the growing file. -/
def text? (a : Archive) : Option String := a.current.bind LogEntry.text?

/-- **Everything moves to the next number,** and the file with the last number is dropped.  A number
that is free stays free.  A directory with the last number keeps all from moving. -/
def rotate? (a : Archive) : Option Archive :=
  if a.earlier.getLast? = some (some .directory) then none
  else some ⟨none, (a.current :: a.earlier).take keptCount⟩

/-- The archive with a text more in its growing file. -/
def grown (a : Archive) (text : String) : Archive := { a with current := some (.file text) }

/-- **Writes a message.**  A message beyond the limit on its own still gets a file.  What cannot be
written is lost. -/
def append (a : Archive) (m : Message) : Archive × Except FileError Unit :=
  let line := m.text ++ "\n"
  if a.current = some .directory then (a, .error .isDirectory)
  else
    let text := a.text?.getD ""
    if text.utf8ByteSize + line.utf8ByteSize ≤ sizeLimit then (a.grown (text ++ line), .ok ())
    else
      match (a.grown text).rotate? with
      | some a => (a.grown line, .ok ())
      | none => (a.grown text, .error .isDirectory)

theorem length_earlier_append (a : Archive) (m : Message) (h : a.earlier.length = keptCount) :
    (a.append m).1.earlier.length = keptCount := by
  unfold append rotate?
  dsimp only
  split
  · exact h
  · split
    · exact h
    · split
      · rename_i moved hm
        split at hm
        · exact absurd hm (by simp)
        · obtain rfl := Option.some.inj hm
          simp [grown, h]
      · exact h

end Archive

/-- **The archive in a directory.**  Where the directory is missing it can be made, unless a file is
in the way. -/
def FileTree.archive (t : FileTree) (directory : String) : Except FileError Archive :=
  match t.walk directory with
  | .ok (.file _) => .error .alreadyExists
  | .ok _ =>
      .ok (.ofEntries (Archive.names.filterMap fun name =>
        match t.walk (within directory name) with
        | .ok (.file text) => some (name, .file text)
        | .ok _ => some (name, .directory)
        | .error _ => none))
  | .error .notFound => .ok .empty
  | .error e => .error e

/-- **The files after an archive was kept in a directory.** -/
def FileTree.withArchive (t : FileTree) (directory : String) (a : Archive) : FileTree :=
  let paths := Archive.names.map fun name => trail (within directory name)
  { files := a.files.map (fun (name, text) => (within directory name, text)) ++
      t.files.filter (fun f => !paths.contains (trail f.1))
    directories := directory :: t.directories }

end RhythmLogic
