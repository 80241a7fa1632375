/-
**Builtins: predicates that are computed and not proved.**

A builtin gets its arguments unsubstituted, with the bindings to read them through.  It may push
any number of bindings, each of them a solution; it may step a counter of the memory or draw a
random number; and it may refuse its arguments.  What it did before a refusal stays done, so the
order of checks and effects is part of its meaning.

Main definitions:

* `World` — what builtins may read and change;
* `Effects`, `Stop`, `Body` — the run of a builtin;
* `Body.number`, `Body.properList`, `Body.atom` — arguments, read or refused;
* `Body.succeed`, `Body.unifyInto` — solutions;
* `Builtin`, `BuiltinTable` — the builtins that a search knows, by name and arity;
* `BuiltinTable.register`, `BuiltinTable.find?`, `BuiltinTable.signatures` — the table.
-/

import RhythmLogic.Unification
import RhythmLogic.Memory
import RhythmLogic.Chance
import RhythmLogic.Notice

set_option autoImplicit false

namespace RhythmLogic

/-! ### The run of a builtin -/

/-- What builtins may read and change.  Notices are kept newest first. -/
structure World where
  memory : Memory
  chance : Chance
  notices : List Notice

/-- One more notice. -/
def World.tell (w : World) (n : Notice) : World := { w with notices := n :: w.notices }

/-- The world and the solutions pushed so far, newest first. -/
structure Effects where
  world : World
  pushed : List Bindings

/-- Why a builtin ends before its end. -/
inductive Stop where
  /-- The arguments are refused. -/
  | refused (error : ArgumentError)
  /-- The run has no result. -/
  | halted (cause : Halt)

/-- A run of a builtin.  Effects before a stop are kept. -/
abbrev Body (α : Type) : Type := ExceptT Stop (StateM Effects) α

namespace Body

/-- Ends without a result. -/
def halt {α : Type} (cause : Halt) : Body α := throw (.halted cause)

/-- Refuses the arguments. -/
def refuse {α : Type} (error : ArgumentError) : Body α := throw (.refused error)

/-- A value that machine arithmetic may fail to give. -/
def machine {α : Type} : Option α → Body α
  | some x => pure x
  | none => halt .arithmetic

/-- Tells a notice. -/
def tell (n : Notice) : Body Unit := modify fun s => { s with world := s.world.tell n }

/-! ### Arguments -/

/-- The number that an argument comes to. -/
def number (e : Bindings) (t : Term) : Body Float :=
  let value := e.subst t
  match value.evaluate with
  | some x => pure x
  | none => refuse (.number value)

/-- The items of an argument that is a proper list. -/
def properList (e : Bindings) (t : Term) : Body (List Term) :=
  match e.subst t with
  | .list items => pure items
  | other => refuse (.list other)

/-- The name of an argument that is an atom. -/
def atom (e : Bindings) (t : Term) : Body String :=
  match e.subst t with
  | .atom name => pure name
  | other => refuse (.atom other)

/-! ### Solutions -/

/-- One solution: the bindings as they are. -/
def succeed (e : Bindings) : Body Unit := modify fun s => { s with pushed := e :: s.pushed }

/-- One solution if the test holds. -/
def succeedIf (test : Bool) (e : Bindings) : Body Unit := if test then succeed e else pure ()

/-- One solution if two terms unify. -/
def unifyInto (e : Bindings) (s t : Term) : Body Unit :=
  match unify s t e with
  | .ok (some solved) => succeed solved
  | .ok none => pure ()
  | .error cause => halt cause

/-- The run of a builtin on another number of arguments than it takes. -/
def misused : Body Unit := halt .arguments

/-! ### Memory and chance -/

/-- Steps a counter of the memory. -/
def stepCounter (key : String) (length : Nat) : Body Nat := do
  let s ← get
  let (place, memory) := s.world.memory.step key length
  set { s with world := { s.world with memory := memory } }
  return place

/-- Draws a number from zero up to one. -/
def drawUnit : Body Float := do
  let s ← get
  let (x, chance) := s.world.chance.unit
  set { s with world := { s.world with chance := chance } }
  return x

/-- Draws a natural number below a bound. -/
def drawBelow (bound : Nat) : Body Nat := do
  let s ← get
  match s.world.chance.below bound with
  | some (n, chance) =>
      set { s with world := { s.world with chance := chance } }
      return n
  | none => halt .arithmetic

end Body

/-! ### The table -/

/-- A predicate that is computed: from the tempo, the arguments and the bindings. -/
structure Builtin where
  name : String
  arity : Nat
  run : Float → List Term → Bindings → Body Unit

/-- What a run of a builtin comes to. -/
structure Builtin.Outcome where
  /-- The solutions, in the order in which they were pushed. -/
  solutions : List Bindings
  world : World
  /-- Why the builtin ended early. -/
  stop : Option Stop

/-- **Calls a builtin.** -/
def Builtin.call (b : Builtin) (bpm : Float) (args : List Term) (e : Bindings) (w : World) :
    Builtin.Outcome :=
  let (result, s) := b.run bpm args e ⟨w, []⟩
  let stop :=
    match result with
    | .ok () => none
    | .error stop => some stop
  ⟨s.pushed.reverse, s.world, stop⟩

/-- The builtins that a search knows.  No two share name and arity. -/
structure BuiltinTable where
  builtins : List Builtin

namespace BuiltinTable

/-- The table without builtins. -/
def empty : BuiltinTable := ⟨[]⟩

/-- The builtin with a given name and arity. -/
def find? (t : BuiltinTable) (name : String) (arity : Nat) : Option Builtin :=
  t.builtins.find? fun b => b.arity == arity && b.name == name

/-- A builtin of some arity has this name. -/
def contains (t : BuiltinTable) (name : String) : Bool := t.builtins.any fun b => b.name == name

/-- **The table with one more builtin,** which takes the place of one with its name and arity. -/
def register (t : BuiltinTable) (b : Builtin) : BuiltinTable :=
  ⟨t.builtins.filter (fun o => !(o.arity == b.arity && o.name == b.name)) ++ [b]⟩

/-- Name and arity of every builtin, in the order of their text. -/
def signatures (t : BuiltinTable) : List String :=
  (t.builtins.map fun b => b.name ++ "/" ++ naturalText b.arity).mergeSort fun a b => decide (a ≤ b)

end BuiltinTable

end RhythmLogic
