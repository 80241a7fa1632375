/-
**TOML documents: values, tables, and which table may be written where.**

A table is made by a header, by being on the way to one, by a dotted key, or inline, and how it was
made decides whether it may be opened again.  Writing a key a second time is refused everywhere.

Main definitions:

* `TableKind` — how a table came about;
* `Toml` — values;
* `Toml.Table`, `Toml.insertAt` — entries in order, and a change at the end of a path;
* `Toml.Table.putKey`, `Toml.Table.openTable`, `Toml.Table.openElement` — a key with its value, a
  table header, and a header of an array of tables.
-/

set_option autoImplicit false

namespace RhythmLogic

/-- How a table came about. -/
inductive TableKind where
  /-- By a header of its own. -/
  | header
  /-- On the way to a header. -/
  | implicit
  /-- By a dotted key. -/
  | dotted
  /-- Between braces, with all its entries. -/
  | closed
deriving DecidableEq, Repr

/-- A TOML value. -/
inductive Toml where
  | string (value : String)
  | integer (value : Int)
  | float (value : Float)
  | boolean (value : Bool)
  | datetime
  | array (items : List Toml)
  | table (kind : TableKind) (entries : List (String × Toml))
  | tables (items : List (List (String × Toml)))
deriving Repr, Inhabited

namespace Toml

/-- The entries of a table, in order. -/
abbrev Table : Type := List (String × Toml)

/-- The value under a key. -/
def Table.get? (t : Table) (key : String) : Option Toml := t.lookup key

/-- The table with another value under a key that it has. -/
def Table.replace (t : Table) (key : String) (v : Toml) : Table :=
  t.map fun entry => if entry.1 = key then (key, v) else entry

/-- **A change of the table at the end of a path.**  Tables that are missing on the way are made:
by a dotted key, if the path is one, and on the way to a header otherwise.  A dotted key does not
go through a table with a header of its own. -/
def insertAt (viaDots : Bool) (change : TableKind → Table → Option Table) :
    List String → TableKind → Table → Option Table
  | [], kind, t => change kind t
  | key :: path, _, t =>
      match t.get? key with
      | none => do
          let kind := if viaDots then TableKind.dotted else TableKind.implicit
          let sub ← insertAt viaDots change path kind []
          some (t ++ [(key, .table kind sub)])
      | some (.table kind sub) =>
          if kind = .closed || (viaDots && kind = .header) then none
          else do
            let sub ← insertAt viaDots change path kind sub
            some (t.replace key (.table kind sub))
      | some (.tables items) => do
          let last ← items.getLast?
          let sub ← insertAt viaDots change path .header last
          some (t.replace key (.tables (items.dropLast ++ [sub])))
      | some _ => none

/-- A new entry of a table. -/
def Table.add (t : Table) (key : String) (v : Toml) : Option Table :=
  if (t.get? key).isSome then none else some (t ++ [(key, v)])

/-- A value under a dotted key.  Only tables that dotted keys made are filled by dotted keys. -/
def Table.putDotted (t : Table) (path : List String) (key : String) (v : Toml) : Option Table :=
  insertAt true (fun kind t =>
    if path.isEmpty || kind = .dotted then t.add key v else none) path .header t

/-- **A key with its value,** in the table that the latest header opened. -/
def Table.putKey (t : Table) (header path : List String) (key : String) (v : Toml) :
    Option Table :=
  insertAt false (fun _ t => t.putDotted path key v) header .header t

/-- **A table header.**  A table that was only on the way to others may be opened once. -/
def Table.openTable (t : Table) (path : List String) (key : String) : Option Table :=
  insertAt false (fun _ t =>
    match t.get? key with
    | none => some (t ++ [(key, .table .header [])])
    | some (.table .implicit sub) => some (t.replace key (.table .header sub))
    | some _ => none) path .header t

/-- **A header of an array of tables:** one more table. -/
def Table.openElement (t : Table) (path : List String) (key : String) : Option Table :=
  insertAt false (fun _ t =>
    match t.get? key with
    | none => some (t ++ [(key, .tables [[]])])
    | some (.tables items) => some (t.replace key (.tables (items ++ [[]])))
    | some _ => none) path .header t

end Toml

end RhythmLogic
