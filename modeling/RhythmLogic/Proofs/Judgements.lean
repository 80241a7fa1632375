/-
**Judgements about readings.**

What is said of a reading is said of its steps: of looking at a token and passing it, of failing, of
building a term, and of one reading after another.  Whatever is shown of the rules of the grammar is
put together from these.

A judgement is about two readings.  The second one may be done by another monad, from other counts
or with another budget; where there is nothing to compare, it is not looked at.  A judgement says
something of the results of both, of what is left behind on the way there, and of where they stop.

Main definitions:

* `TokenKind.Plain` — tokens that are passed without a look at what comes next;
* `Post` — what is said of results and of stops;
* `Judgement` — **what holds of steps and of readings in sequence**;
* `Judgement.Enough` — depths that are enough for the tokens ahead.

Main results:

* `Judgement.part` — **a part that is read, and what is read after it**;
* `Judgement.eat`, `Judgement.expect`, `Judgement.built` — the other steps that rules consist of.
-/

import RhythmLogic.Proofs.Grammar
import RhythmLogic.Proofs.Rules

set_option autoImplicit false

namespace RhythmLogic

open Reader (comparison? sumOp? productOp? SourceClause)

/-! ### Tokens that are passed -/

/-- A token that is passed as it is: it is not the end mark, and no name but `is`. -/
def TokenKind.Plain (k : TokenKind) : Prop := k ≠ .eof ∧ ∀ x, k = .name x → x = "is"

theorem TokenKind.Plain.symbol (s : Sym) : (TokenKind.symbol s).Plain := ⟨nofun, nofun⟩

theorem TokenKind.Plain.number (x : Float) : (TokenKind.number x).Plain := ⟨nofun, nofun⟩

theorem plain_of_sumOp {k : TokenKind} {op : Op} (h : sumOp? k = some op) : k.Plain := by
  cases k with
  | symbol s => exact .symbol s
  | _ => cases h

theorem plain_of_productOp {k : TokenKind} {op : Op} (h : productOp? k = some op) : k.Plain := by
  cases k with
  | symbol s => exact .symbol s
  | _ => cases h

theorem plain_of_comparison {k : TokenKind} {name : String} (h : comparison? k = some name) :
    k.Plain := by
  cases k with
  | symbol s => exact .symbol s
  | name x =>
      refine ⟨nofun, ?_⟩
      rintro _ ⟨⟩
      by_contra hne
      simp [comparison?, hne] at h
  | _ => cases h

namespace Cursor

variable {c : Cursor}

/-- A token that is passed is not ahead any more. -/
theorem length_advance (h : c.current.kind ≠ .eof) :
    c.advance.tokens.length + 1 = c.tokens.length := by
  have hkinds := congrArg List.length (kinds_of_current h)
  simpa [kinds] using hkinds.symm

theorem length_advance_le (c : Cursor) : c.advance.tokens.length ≤ c.tokens.length := by
  rw [advance]
  split <;> simp

end Cursor

/-! ### Judgements -/

/-- **What is said of a reading**: of what it leaves behind and its results, and of what it leaves
behind where it stops, with the token there. -/
structure Post (τ α : Type) where
  result : List τ → α → α → Prop
  stop : List τ → TokenKind → Prop

/-- What is said of a reading, after something is left behind. -/
def Post.after {τ α : Type} (p : Post τ α) (t : List τ) : Post τ α :=
  ⟨fun u => p.result (t ++ u), fun u => p.stop (t ++ u)⟩

theorem Post.after_after {τ α : Type} (p : Post τ α) (t u : List τ) :
    (p.after t).after u = p.after (t ++ u) := by
  simp only [after, List.append_assoc]

/-- **A judgement about two readings.** -/
structure Judgement (m m' : Type → Type) [TokenMonad m] [TokenMonad m'] where
  /-- What is left behind is a row of these. -/
  Trace : Type
  /-- What a token leaves behind that is passed as it is. -/
  left : TokenKind → List Trace
  /-- Two readings do from a cursor on what is said of them. -/
  Holds {α : Type} : Post Trace α → Cursor → m α → m' α → Prop
  /-- A reading that leaves a row behind may come from the first cursor to the second one. -/
  Comes : Cursor → List Trace → Cursor → Prop
  /-- What a name leaves behind, and the two terms that it is. -/
  Named : String → List Trace → Term → Term → Prop
  /-- The two depths have to be enough for the tokens ahead; otherwise they have to be equal. -/
  bounded : Bool
  comes_length {c : Cursor} {t : List Trace} {c' : Cursor} :
    Comes c t c' → c'.tokens.length ≤ c.tokens.length
  mono {α : Type} {p q : Post Trace α} {c : Cursor} {r : m α} {s : m' α} : Holds p c r s →
    (∀ t a b, p.result t a b → q.result t a b) → (∀ t k, p.stop t k → q.stop t k) → Holds q c r s
  pure {α : Type} {p : Post Trace α} {c : Cursor} {a b : α} :
    p.result [] a b → p.stop [] c.current.kind → Holds p c (pure a) (pure b)
  fail {α : Type} {p : Post Trace α} {c : Cursor} {cause : ParseError.Cause} :
    (bounded = true → cause ≠ .tooDeep) → (cause ≠ .tooDeep → p.stop [] c.current.kind) →
    Holds p c (TokenMonad.fail cause) (TokenMonad.fail cause)
  /-- **A reading after a reading.** -/
  bind {α β : Type} {p : Post Trace α} {q : Post Trace β} {c : Cursor} {r : m α} {s : m' α}
    {f : α → m β} {g : α → m' β} : Holds p c r s → (∀ t k, p.stop t k → q.stop t k) →
    (∀ t a b c', Comes c t c' → p.result t a b → q.stop t c'.current.kind →
      Holds (q.after t) c' (f a) (g b)) → Holds q c (r >>= f) (s >>= g)
  kind {α : Type} {p : Post Trace α} {c : Cursor} {f : TokenKind → m α} {g : TokenKind → m' α} :
    Holds p c (f c.current.kind) (g c.current.kind) →
    Holds p c (TokenMonad.kind >>= f) (TokenMonad.kind >>= g)
  advance {α : Type} {p : Post Trace α} {c : Cursor} {f : Unit → m α} {g : Unit → m' α} :
    c.current.kind.Plain → Holds (p.after (left c.current.kind)) c.advance (f ()) (g ()) →
    Holds p c (TokenMonad.advance >>= f) (TokenMonad.advance >>= g)
  build {α : Type} {p : Post Trace α} {c : Cursor} {t t' : Term} {name : Option String}
    {f : Term → m α} {g : Term → m' α} :
    (∀ c' : Cursor, c'.tokens = c.tokens → Holds p c' (f t) (g t')) →
    Holds p c (TokenMonad.build t name >>= f) (TokenMonad.build t' name >>= g)
  named {p : Post Trace Term} {c : Cursor} {x : String} {r : m Term} {s : m' Term} :
    c.current.kind = .name x →
    (∀ t a b, Named x t a b → p.result t a b ∧ ∀ k, p.stop t k) →
    (c.advance.current.kind = .symbol .openParen →
      Holds (p.after (left (.name x) ++ left (.symbol .openParen))) c.advance.advance r s) →
    Holds p c (TokenMonad.named x r) (TokenMonad.named x s)

namespace Judgement

variable {m m' : Type → Type} [TokenMonad m] [TokenMonad m'] {J : Judgement m m'} {α : Type}
  {p : Post J.Trace α} {c c' : Cursor} {n n' rank : ℕ}

/-! ### Depths that are enough -/

/-- **The depths are enough** for a rule of a rank and the tokens ahead. -/
def Enough (J : Judgement m m') (rank n n' : ℕ) (c : Cursor) : Prop :=
  match J.bounded with
  | true => 8 * c.tokens.length + rank ≤ n ∧ 8 * c.tokens.length + rank ≤ n'
  | false => n = n'

theorem Enough.zero (h : J.Enough (rank + 1) 0 n' c) : n' = 0 ∧ J.bounded = false := by
  cases hbounded : J.bounded <;> simp only [Enough, hbounded] at h
  · exact ⟨h.symm, rfl⟩
  · omega

theorem Enough.not_zero (h : J.Enough (rank + 1) (n + 1) 0 c) : False := by
  cases hbounded : J.bounded <;> simp only [Enough, hbounded] at h <;> omega

/-- A rule that is called with no more tokens ahead has a lower rank. -/
theorem Enough.lower (h : J.Enough rank (n + 1) (n' + 1) c)
    (hle : c'.tokens.length ≤ c.tokens.length) {rank' : ℕ} (hrank : rank' < rank) :
    J.Enough rank' n n' c' := by
  cases hbounded : J.bounded <;> simp only [Enough, hbounded] at h ⊢ <;> omega

/-- A rule that is called after a token has any rank. -/
theorem Enough.passed (h : J.Enough rank (n + 1) (n' + 1) c)
    (hlt : c'.tokens.length < c.tokens.length) {rank' : ℕ} (hrank : rank' ≤ 7) :
    J.Enough rank' n n' c' := by
  cases hbounded : J.bounded <;> simp only [Enough, hbounded] at h ⊢ <;> omega

theorem Enough.mono (h : J.Enough rank n n' c) (hle : c'.tokens.length ≤ c.tokens.length)
    {rank' : ℕ} (hrank : rank' ≤ rank) : J.Enough rank' n n' c' := by
  cases hbounded : J.bounded <;> simp only [Enough, hbounded] at h ⊢ <;> omega

/-! ### Steps -/

section Steps

variable {t : List J.Trace}

/-- A result that is given back. -/
theorem done {a b : α} (h : p.result t a b) (hstop : p.stop t c.current.kind) :
    J.Holds (p.after t) c (Pure.pure a) (Pure.pure b) :=
  J.pure (by simpa [Post.after] using h) (by simpa [Post.after] using hstop)

/-- A failure, whatever would come after it. -/
theorem fail_bind {β : Type} {cause : ParseError.Cause} {f : β → m α} {g : β → m' α}
    (hcause : cause ≠ .tooDeep) (hstop : p.stop t c.current.kind) :
    J.Holds (p.after t) c (TokenMonad.fail cause >>= f) (TokenMonad.fail cause >>= g) := by
  have hstop' : (p.after t).stop [] c.current.kind := by simpa [Post.after] using hstop
  -- nothing is said of a result, since there is none
  exact J.bind (p := ⟨fun _ _ _ => False, (p.after t).stop⟩)
    (J.fail (fun _ => hcause) fun _ => hstop') (fun _ _ h => h) fun _ _ _ _ _ h => h.elim

theorem unexpected (hstop : p.stop [] c.current.kind) :
    J.Holds p c (TokenMonad.unexpected : m α) (TokenMonad.unexpected : m' α) := by
  refine J.kind ?_
  cases c.current.kind <;> exact J.fail (fun _ => nofun) fun _ => hstop

/-- **A part that is read**, and what is read after it. -/
theorem part {β : Type} {q : Post J.Trace β} {r : m β} {s : m' β} {f : β → m α} {g : β → m' α}
    (h : J.Holds q c r s) (hstop : ∀ u k, q.stop u k → p.stop (t ++ u) k)
    (hf : ∀ u a b c', J.Comes c u c' → q.result u a b → p.stop (t ++ u) c'.current.kind →
      J.Holds (p.after (t ++ u)) c' (f a) (g b)) :
    J.Holds (p.after t) c (r >>= f) (s >>= g) := by
  refine J.bind h hstop fun u a b c' hc' hab hk => ?_
  rw [Post.after_after]
  exact hf u a b c' hc' hab hk

/-- A token that is passed. -/
theorem passes {k : TokenKind} {f : Unit → m α} {g : Unit → m' α} (hk : c.current.kind = k)
    (hplain : k.Plain) (h : J.Holds (p.after (t ++ J.left k)) c.advance (f ()) (g ())) :
    J.Holds (p.after t) c (TokenMonad.advance >>= f) (TokenMonad.advance >>= g) := by
  subst hk
  refine J.advance hplain ?_
  rwa [Post.after_after]

/-- A term that is built and given back. -/
theorem built [LawfulMonad m] [LawfulMonad m'] {p : Post J.Trace Term} {a b : Term}
    {name : Option String} (h : p.result t a b) (hstop : p.stop t c.current.kind) :
    J.Holds (p.after t) c (TokenMonad.build a name) (TokenMonad.build b name) := by
  rw [← bind_pure (TokenMonad.build a name), ← bind_pure (TokenMonad.build b name)]
  refine J.build fun c' hc' => J.done h ?_
  have hcurrent : c'.current = c.current := by rw [Cursor.current, hc', Cursor.current]
  rwa [hcurrent]

variable [LawfulMonad m] [LawfulMonad m'] {z : Sym}

theorem sees {f : Bool → m α} {g : Bool → m' α}
    (h : c.current.kind = .symbol z → J.Holds p c (f true) (g true))
    (h' : c.current.kind ≠ .symbol z → J.Holds p c (f false) (g false)) :
    J.Holds p c (TokenMonad.sees z >>= f) (TokenMonad.sees z >>= g) := by
  simp only [TokenMonad.sees, bind_assoc, pure_bind]
  refine J.kind ?_
  by_cases hz : c.current.kind = .symbol z
  · rw [decide_eq_true hz]
    exact h hz
  · rw [decide_eq_false hz]
    exact h' hz

theorem eat {f : Bool → m α} {g : Bool → m' α}
    (h : c.current.kind = .symbol z →
      J.Holds (p.after (t ++ J.left (.symbol z))) c.advance (f true) (g true))
    (h' : c.current.kind ≠ .symbol z → J.Holds (p.after t) c (f false) (g false)) :
    J.Holds (p.after t) c (TokenMonad.eat z >>= f) (TokenMonad.eat z >>= g) := by
  rw [TokenMonad.eat, TokenMonad.eat, bind_assoc, bind_assoc]
  refine J.sees (fun hz => ?_) fun hz => ?_
  · simp only [if_true, bind_assoc, pure_bind]
    exact J.passes hz (.symbol z) (h hz)
  · simp only [Bool.false_eq_true, if_false, pure_bind]
    exact h' hz

theorem expect {f : Unit → m α} {g : Unit → m' α} (hstop : p.stop t c.current.kind)
    (h : c.current.kind = .symbol z →
      J.Holds (p.after (t ++ J.left (.symbol z))) c.advance (f ()) (g ())) :
    J.Holds (p.after t) c (TokenMonad.expect z >>= f) (TokenMonad.expect z >>= g) := by
  rw [TokenMonad.expect, TokenMonad.expect, bind_assoc, bind_assoc]
  refine J.eat (fun hz => ?_) fun hz => ?_
  · simp only [if_true, pure_bind]
    exact h hz
  · simp only [Bool.false_eq_true, if_false, bind_assoc]
    exact J.kind (J.fail_bind nofun hstop)

end Steps

end Judgement

end RhythmLogic
