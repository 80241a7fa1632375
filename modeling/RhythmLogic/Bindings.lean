/-
**Bindings: what variables stand for.**

Bindings are a list of names and terms, newest first, that only grows.  A search branch keeps the
list it had when it split off, so nothing is ever undone.  A term is read through the bindings by
*walking* a variable to what it stands for, or by *substituting* everywhere at once.

Main definitions:

* `Bindings`, `Bindings.get?`, `Bindings.bind` — the list, its lookup and its growth;
* `Bindings.latest` — one entry a name, the order being that of the latest bindings;
* `Bindings.walk` — follows variables to an unbound one or to a term with a shape;
* `Bindings.isBound` — the end of a walk that runs in a circle;
* `Bindings.substF`, `Bindings.subst` — replaces bound variables down to a fixed depth;
* `Term.joinTail` — a list whose tail is a list, as one list.
-/

import RhythmLogic.Term.Text

set_option autoImplicit false

namespace RhythmLogic

/-- Names and the terms they stand for, newest first. -/
structure Bindings where
  entries : List (String × Term)
deriving Inhabited

namespace Bindings

/-- No bindings. -/
def empty : Bindings := ⟨[]⟩

/-- The newest term bound to a name. -/
def get? (e : Bindings) (name : String) : Option Term := e.entries.lookup name

/-- One more binding, which hides older ones of the same name. -/
def bind (e : Bindings) (name : String) (value : Term) : Bindings := ⟨(name, value) :: e.entries⟩

/-- How many bindings were made. -/
def size (e : Bindings) : Nat := e.entries.length

/-- No binding was made. -/
def isEmpty (e : Bindings) : Bool := e.entries.isEmpty

@[simp] theorem get?_empty (name : String) : empty.get? name = none := rfl

theorem get?_bind_self (e : Bindings) (name : String) (value : Term) :
    (e.bind name value).get? name = some value := by
  simp [get?, bind]

theorem get?_bind_of_ne (e : Bindings) {name other : String} (value : Term) (h : other ≠ name) :
    (e.bind name value).get? other = e.get? other := by
  have hb : (other == name) = false := by simpa using h
  simp only [get?, bind, List.lookup_cons, hb]

@[simp] theorem size_bind (e : Bindings) (name : String) (value : Term) :
    (e.bind name value).size = e.size + 1 := rfl

/-- The entries that no newer entry hides, newest first. -/
def visible (seen : List String) : List (String × Term) → List (String × Term)
  | [] => []
  | (name, value) :: older =>
      if seen.contains name then visible seen older
      else (name, value) :: visible (name :: seen) older

/-- **One entry a name:** the newest, oldest first. -/
def latest (e : Bindings) : List (String × Term) := (visible [] e.entries).reverse

/-! ### Reading a term through the bindings -/

/-- Follows at most `fuel` variables. -/
def walkF (e : Bindings) : Nat → Term → Term
  | 0, t => t
  | fuel + 1, .var name =>
      match e.get? name with
      | none => .var name
      | some value => walkF e fuel value
  | _ + 1, t => t

/-- **The term that a term stands for:** an unbound variable, or a term with a shape.  A walk that
does not run in a circle follows each binding at most once. -/
def walk (e : Bindings) : Term → Term
  | .var name => walkF e (e.size + 1) (.var name)
  | t => t

/-- The term is a variable that stands for something.  Only a walk in a circle ends at one. -/
def isBound (e : Bindings) : Term → Bool
  | .var name => (e.get? name).isSome
  | _ => false

end Bindings

/-- A list whose tail is a list, as one list. -/
def Term.joinTail (items : List Term) : Term → Term
  | .list more => .list (items ++ more)
  | .partialList more rest => .partialList (items ++ more) rest
  | tail => .partialList items tail

namespace Bindings

/-- The number of levels that a substitution reaches.  Below it a term stays as it is, so that the
endless expansion of a cyclic binding is cut off. -/
def levels : Nat := 2049

/-- Replaces bound variables in the upper levels of a term. -/
def substF (e : Bindings) : Nat → Term → Term
  | 0, t => t
  | depth + 1, t =>
      match e.walk t with
      | .compound name args => .compound name (args.map (substF e depth))
      | .list items => .list (items.map (substF e depth))
      | .partialList items tail =>
          Term.joinTail (items.map (substF e depth)) (substF e depth tail)
      | .expr op l r => .expr op (substF e depth l) (substF e depth r)
      | shallow => shallow

/-- **The term with every bound variable replaced by what it stands for.** -/
def subst (e : Bindings) (t : Term) : Term := substF e levels t

end Bindings

end RhythmLogic
