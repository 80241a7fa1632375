/-
**Subscribers: who is told, in which order.**

Main definitions:

* `Subscribers`, `Subscribers.add`, `Subscribers.remove` — subscribers under handles, which are
  counted from one on, in 32 bits;
* `Subscribers.tags` — the subscribers, in the order in which they came.
-/

set_option autoImplicit false

namespace RhythmLogic

/-- Subscribers under their handles, in the order in which they came. -/
structure Subscribers (τ : Type) where
  entries : List (Nat × τ)
  /-- The next handle. -/
  next : Nat
deriving Repr

namespace Subscribers

variable {τ : Type}

/-- The handle after another one.  Zero comes after the greatest one of 32 bits. -/
def following (handle : Nat) : Nat := (handle + 1) % 4294967296

theorem following_of_lt {handle : Nat} (h : handle + 1 < 4294967296) :
    following handle = handle + 1 := Nat.mod_eq_of_lt h

/-- Nobody has subscribed. -/
def empty : Subscribers τ := ⟨[], 1⟩

/-- **Adds a subscriber,** and gives its handle. -/
def add (s : Subscribers τ) (tag : τ) : Nat × Subscribers τ :=
  (s.next, ⟨s.entries ++ [(s.next, tag)], following s.next⟩)

/-- **Removes the subscriber with a handle,** and tells whether there was one. -/
def remove (s : Subscribers τ) (handle : Nat) : Bool × Subscribers τ :=
  let kept := s.entries.filter fun entry => entry.1 != handle
  (kept.length != s.entries.length, { s with entries := kept })

/-- The number of subscribers. -/
def size (s : Subscribers τ) : Nat := s.entries.length

/-- Nobody is subscribed. -/
def isEmpty (s : Subscribers τ) : Bool := s.entries.isEmpty

/-- The subscribers, in the order in which they came. -/
def tags (s : Subscribers τ) : List τ := s.entries.map (·.2)

end Subscribers

end RhythmLogic
