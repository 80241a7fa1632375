/-
**Tokens in other places.**

Apart from the tokens themselves, the reader hands the places of tokens on to the errors that it
makes.  Here tokens, errors and cursors are moved to other places, or forget them.

There is one place that the reader makes up, the one it has before no tokens at all.  It is never
told, since the end mark is never passed; only without an end mark it has to stay where it is.

Main definitions:

* `Token.moved`, `ParseError.moved`, `Cursor.moved` — all places moved;
* `Token.unplaced`, `ParseError.unplaced`, `Cursor.unplaced` — all places forgotten;
* `Cursor.Anchored` — the place that is made up does not matter.

Main results:

* `Cursor.current_moved`, `Cursor.advance_moved` — the token under a cursor, and the cursor after it;
* `map_unplaced_eq` — tokens of the same kinds are the same without their places.
-/

import RhythmLogic.Proofs.Grammar

set_option autoImplicit false

namespace RhythmLogic

variable {f : Position → Position}

/-! ### Places moved -/

/-- A token in another place. -/
def Token.moved (f : Position → Position) (t : Token) : Token := ⟨t.kind, f t.position⟩

/-- An error in another place. -/
def ParseError.moved (f : Position → Position) (e : ParseError) : ParseError :=
  ⟨e.cause, f e.position⟩

namespace Cursor

/-- A cursor before the same tokens in other places. -/
def moved (f : Position → Position) (c : Cursor) : Cursor :=
  { c with tokens := c.tokens.map (Token.moved f) }

/-- **The place that is made up does not matter**: it stays where it is, or there is an end mark. -/
def Anchored (f : Position → Position) (c : Cursor) : Prop := f .start = .start ∨ .eof ∈ c.kinds

variable {c : Cursor}

theorem moved_id (c : Cursor) : c.moved id = c := by
  have hid : Token.moved id = id := rfl
  rw [moved, hid, List.map_id]

theorem current_moved (h : c.Anchored f) : (c.moved f).current = c.current.moved f := by
  rcases hc : c.tokens with _ | ⟨t, rest⟩
  · have hstart : f .start = .start := h.resolve_right (by simp [kinds, hc])
    simp [current, moved, Token.moved, hc, hstart]
  · simp [current, moved, hc]

theorem current_kind_moved : (c.moved f).current.kind = c.current.kind := by
  rcases hc : c.tokens with _ | ⟨t, rest⟩ <;> simp [current, moved, Token.moved, hc]

theorem advance_moved : (c.moved f).advance = c.advance.moved f := by
  rw [advance, advance, current_kind_moved]
  split
  · rfl
  · simp [moved, List.map_tail]

/-- The end mark is never passed. -/
theorem Anchored.advance (h : c.Anchored f) : c.advance.Anchored f := by
  by_cases hk : c.current.kind = .eof
  · rwa [Cursor.advance, if_pos hk]
  · rw [Anchored, kinds_of_current hk, List.mem_cons] at h
    exact h.imp_right fun hmem => hmem.resolve_left (Ne.symm hk)

end Cursor

/-! ### Places forgotten -/

/-- A token without its place. -/
def Token.unplaced (t : Token) : Token := ⟨t.kind, .start⟩

/-- An error without its place. -/
def ParseError.unplaced (e : ParseError) : ParseError := ⟨e.cause, .start⟩

/-- A cursor before the same tokens without their places. -/
def Cursor.unplaced (c : Cursor) : Cursor := { c with tokens := c.tokens.map Token.unplaced }

/-- Tokens of the same kinds are the same without their places. -/
theorem map_unplaced_eq {tokens tokens' : List Token}
    (h : tokens.map Token.kind = tokens'.map Token.kind) :
    tokens.map Token.unplaced = tokens'.map Token.unplaced := by
  have hmap := congrArg (List.map fun k => Token.mk k .start) h
  rw [List.map_map, List.map_map] at hmap
  exact hmap

end RhythmLogic
