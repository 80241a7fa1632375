/-
**Memory: what survives from one query to the next.**

Two kinds of things are kept under keys that the caller chooses: how far a cycle has come, and when
something last happened.

Main definitions:

* `Keyed`, `Keyed.get?`, `Keyed.put` — values under keys, one a key;
* `Memory`, `Memory.step` — cycle counters and times, and the advance of a counter;
* `Memory.allows` — whether enough time has passed.
-/

set_option autoImplicit false

namespace RhythmLogic

/-! ### Values under keys -/

/-- Values under keys, in the order in which the keys first came. -/
abbrev Keyed (α : Type) : Type := List (String × α)

namespace Keyed

variable {α : Type}

/-- The value under a key. -/
def get? (m : Keyed α) (key : String) : Option α := m.lookup key

/-- The values with another one under a key. -/
def put (key : String) (value : α) : Keyed α → Keyed α
  | [] => [(key, value)]
  | (k, v) :: rest => if k = key then (key, value) :: rest else (k, v) :: put key value rest

theorem get?_put_self (m : Keyed α) (key : String) (value : α) :
    (put key value m).get? key = some value := by
  induction m with
  | nil => simp [put, get?]
  | cons p rest ih =>
      obtain ⟨k, v⟩ := p
      by_cases h : k = key
      · simp [put, get?, h]
      · have hb : (key == k) = false := by simpa using fun e : key = k => h e.symm
        simpa [put, get?, List.lookup_cons, h, hb] using ih

theorem get?_put_of_ne (m : Keyed α) {key other : String} (value : α) (h : other ≠ key) :
    (put key value m).get? other = m.get? other := by
  have hb : (other == key) = false := by simpa using h
  induction m with
  | nil => simp [put, get?, List.lookup_cons, hb]
  | cons p rest ih =>
      obtain ⟨k, v⟩ := p
      simp only [get?] at ih
      by_cases hk : k = key
      · subst hk
        simp [put, get?, List.lookup_cons, hb]
      · simp [put, get?, List.lookup_cons, hk, ih]

end Keyed

/-! ### Memory -/

/-- Cycle counters and times, each under a key. -/
structure Memory where
  cycles : Keyed Nat
  times : Keyed Float
deriving Repr, Inhabited

namespace Memory

/-- Nothing is remembered. -/
def empty : Memory := ⟨[], []⟩

/-- The counter under a key; one that was never used stands at zero. -/
def counter (m : Memory) (key : String) : Nat := (m.cycles.get? key).getD 0

/-- **Advances the counter under a key** around a cycle of a given length, and gives the place it
stood at.  A cycle of length zero has the place zero and no counter. -/
def step (m : Memory) (key : String) (length : Nat) : Nat × Memory :=
  if length = 0 then (0, m)
  else
    let place := m.counter key % length
    (place, { m with cycles := m.cycles.put key ((place + 1) % length) })

/-- When something last happened. -/
def lastTime (m : Memory) (key : String) : Option Float := m.times.get? key

/-- Remembers when something happened. -/
def setTime (m : Memory) (key : String) (time : Float) : Memory :=
  { m with times := m.times.put key time }

/-- Something never happened, or at least `gap` seconds before `now`. -/
def allows (m : Memory) (key : String) (now gap : Float) : Bool :=
  match m.lastTime key with
  | some last => now - last ≥ gap
  | none => true

end Memory

end RhythmLogic
