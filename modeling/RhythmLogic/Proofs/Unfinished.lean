/-
**Rows that can be finished.**

What a reading passes before it stops is the start of a row of the grammar, and there is a way to
finish the row.

Not every way will do.  A parenthesis where a goal may start is tried as a group of goals, and what
is wrong in the group is forgotten when the reader comes back and reads an expression.  The error
that it tells is the one of the expression, and an expression in parentheses differs from a group by
what comes after it.  So the reader stops at a token only if the row before it can be finished so
that every parenthesis that is closed behind it is followed by an operator or a comparison.

Main definitions:

* `ParseError.Syntactic` — errors that a token is to blame for;
* `Grammar.Sentence`, `Grammar.Text` — clauses and texts, with heads of any kind;
* `Grammar.GoesOn`, `Grammar.Finishable` — **rows that can be finished without ending a group**.

Main results:

* `Grammar.Finishable.within` — what has a part to be finished can be finished after that part;
* `Grammar.Expr.further`, `Grammar.Primary.further` — an expression goes on with an operator.
-/

import RhythmLogic.Proofs.Grammar

set_option autoImplicit false

namespace RhythmLogic

/-- An error that a token is to blame for: it is not about the kind of a head, and no budget ran
out. -/
def ParseError.Syntactic (e : ParseError) : Prop := e.cause ≠ .tooDeep ∧ ∀ t, e.cause ≠ .head t

/-- A token that is not the end mark is the first one ahead. -/
theorem Cursor.tokens_of_current {c : Cursor} (h : c.current.kind ≠ .eof) :
    c.tokens = c.current :: c.advance.tokens := by
  rw [advance, if_neg h]
  rcases htokens : c.tokens with _ | ⟨t, rest⟩
  · simp [current, htokens] at h
  · simp [current, htokens]

namespace Grammar

open Reader

/-- A clause whose head may be any expression. -/
inductive Sentence : List TokenKind → Prop where
  | fact {ts : List TokenKind} {t : Term} : Expr ts t → Sentence (ts ++ [.symbol .period])
  | rule {ts us : List TokenKind} {t : Term} {g : GoalTree} : Expr ts t → Goals us g →
      Sentence (ts ++ .symbol .neck :: (us ++ [.symbol .period]))

/-- **The texts of the grammar**, with the end mark, where the heads may be of any kind. -/
inductive Text : List TokenKind → Prop where
  | nil : Text [.eof]
  | cons {ts us : List TokenKind} : Sentence ts → Text us → Text (ts ++ us)

theorem Clause.sentence {ts : List TokenKind} {c : SourceClause} : Clause ts c → Sentence ts
  | .fact h _ => .fact h
  | .rule h _ hg => .rule h hg

/-! ### Rows that can be finished -/

/-- Every closing parenthesis in a row is followed by an operator or a comparison. -/
def GoesOn : List TokenKind → Prop
  | [] => True
  | k :: ks => (k = .symbol .closeParen → continuesExpression (ks.headD .eof) = true) ∧ GoesOn ks

@[simp]
theorem goesOn_nil : GoesOn [] := trivial

@[simp]
theorem goesOn_cons {k : TokenKind} {ks : List TokenKind} : GoesOn (k :: ks) ↔
    (k = .symbol .closeParen → continuesExpression (ks.headD .eof) = true) ∧ GoesOn ks :=
  Iff.rfl

theorem GoesOn.append {ts us : List TokenKind} (hts : GoesOn ts) (hus : GoesOn us) :
    GoesOn (ts ++ us) := by
  induction ts with
  | nil => exact hus
  | cons k ts ih =>
      refine ⟨fun hk => ?_, ih hts.2⟩
      rcases ts with _ | ⟨j, ts⟩
      · exact absurd (hts.1 hk) Bool.false_ne_true
      · exact hts.1 hk

theorem GoesOn.of_append {ts us : List TokenKind} (h : GoesOn (ts ++ us)) : GoesOn us := by
  induction ts with
  | nil => exact h
  | cons k ts ih => exact ih h.2

/-- If a row `us` ends with a parenthesis and `k` goes on after it, then so does `vs`. -/
def Turns (k : TokenKind) (vs us : List TokenKind) : Prop :=
  us.getLast? = some (.symbol .closeParen) → continuesExpression k = true →
    continuesExpression (vs.headD .eof) = true

theorem Turns.of_append {k : TokenKind} {vs ts : List TokenKind} (us : List TokenKind)
    (h : Turns k vs (us ++ ts)) (hne : ts ≠ []) : Turns k vs ts := by
  rwa [Turns, List.getLast?_append_of_ne_nil _ hne] at h

/-- **A row `us` before the token `k` can be finished** to one of `L`, and no group of goals ends
behind it: all parentheses that are closed there are followed by an operator or a comparison.  If
one is closed at the end of `us`, then it is followed by one as well, unless `k` is neither. -/
def Finishable (L : List TokenKind → Prop) (us : List TokenKind) (k : TokenKind) : Prop :=
  ∃ vs, L (us ++ vs) ∧ GoesOn vs ∧ Turns k vs us

/-- The rows that a rule derives. -/
def Rows {α : Type} (N : List TokenKind → α → Prop) (ts : List TokenKind) : Prop := ∃ a, N ts a

/-- An operator and an operand, with which any product goes on. -/
def further : List TokenKind := [.symbol .star, .name "a"]

theorem goesOn_further : GoesOn further := by simp [further]

theorem goesOn_closed : GoesOn (.symbol .closeParen :: further) :=
  ⟨fun _ => rfl, goesOn_further⟩

section Finishable

variable {L M : List TokenKind → Prop} {us : List TokenKind} {k : TokenKind}

/-- What may go on as a product can be finished before any token. -/
theorem Finishable.of_further (h : L (us ++ further)) : Finishable L us k :=
  ⟨further, h, goesOn_further, fun _ _ => rfl⟩

/-- What does not end with a parenthesis can be finished before any token. -/
theorem Finishable.of_finish (ws : List TokenKind) (h : L (us ++ ws)) (hws : GoesOn ws)
    (hus : us.getLast? ≠ some (.symbol .closeParen)) : Finishable L us k :=
  ⟨ws, h, hws, fun hlast => absurd hlast hus⟩

/-- **What has a part to be finished** can be finished after that part. -/
theorem Finishable.within (h : Finishable M us k) (ls ws : List TokenKind)
    (hM : ∀ row, M row → L (ls ++ row ++ ws)) (hws : GoesOn ws)
    (hls : ls.getLast? ≠ some (.symbol .closeParen)) :
    Finishable L (ls ++ us) k := by
  obtain ⟨vs, hvs, hgoes, hlast⟩ := h
  refine ⟨vs ++ ws, by simpa using hM _ hvs, hgoes.append hws, fun hus hk => ?_⟩
  -- the last token that was passed is one of the part, or the one before it
  rcases List.eq_nil_or_concat us with rfl | ⟨us, j, rfl⟩
  · exact absurd (by simpa using hus) hls
  · have hcontinues := hlast (by simpa using hus) hk
    rcases vs with _ | ⟨i, vs⟩
    · exact absurd hcontinues Bool.false_ne_true
    · exact hcontinues

/-- What may be a part of the whole. -/
theorem Finishable.mono (h : Finishable M us k) (hM : ∀ row, M row → L row) : Finishable L us k :=
  h.within [] [] (by simpa using hM) goesOn_nil (by simp)

/-- **Behind a token** that ends no group. -/
theorem Finishable.behind {j : TokenKind} (h : Finishable M us k) (ls ws : List TokenKind)
    (hM : ∀ row, M row → L (ls ++ j :: (row ++ ws))) (hws : GoesOn ws)
    (hj : j ≠ .symbol .closeParen) : Finishable L (ls ++ j :: us) k := by
  rw [List.append_cons]
  refine h.within (ls ++ [j]) ws (fun row hrow => by simpa using hM row hrow) hws ?_
  rw [List.getLast?_concat]
  simpa using hj

end Finishable

/-! ### What goes on with a row -/

theorem Product.further {ts : List TokenKind} {t : Term} (h : Product ts t) :
    Rows Product (ts ++ further) :=
  ⟨_, .product h rfl (.primary (.name (.atom rfl)))⟩

theorem Primary.further {ts : List TokenKind} {t : Term} (h : Primary ts t) :
    Rows Product (ts ++ further) :=
  Product.further (.factor (.primary h))

theorem Expr.further {ts : List TokenKind} {t : Term} (h : Expr ts t) :
    Rows Expr (ts ++ further) := by
  cases h with
  | product h =>
      obtain ⟨u, hu⟩ := h.further
      exact ⟨u, .product hu⟩
  | sum hl hk hr =>
      obtain ⟨u, hu⟩ := hr.further
      exact ⟨_, by simpa using Expr.sum hl hk hu⟩

theorem Exprs.further {ts : List TokenKind} {items : List Term} (h : Exprs ts items) :
    Rows Exprs (ts ++ further) := by
  cases h with
  | one h =>
      obtain ⟨u, hu⟩ := h.further
      exact ⟨[u], .one hu⟩
  | more h h' =>
      obtain ⟨u, hu⟩ := h'.further
      exact ⟨_, by simpa using Exprs.more h hu⟩

theorem Test.further {ts : List TokenKind} {g : GoalTree} (h : Test ts g) :
    Rows Test (ts ++ further) := by
  cases h with
  | call h =>
      obtain ⟨u, hu⟩ := h.further
      exact ⟨_, .call hu⟩
  | comparison hl hk hr =>
      obtain ⟨u, hu⟩ := hr.further
      exact ⟨_, by simpa using Test.comparison hl hk hu⟩

/-- A product of a product and a product. -/
theorem Product.times {ls rs : List TokenKind} {k : TokenKind} {op : Op} {l r : Term}
    (hl : Product ls l) (hk : productOp? k = some op) (hr : Product rs r) :
    Rows Product (ls ++ k :: rs) := by
  cases hr with
  | factor hr => exact ⟨_, .product hl hk hr⟩
  | product hm hk' hr =>
      obtain ⟨u, hu⟩ := hl.times hk hm
      exact ⟨_, by simpa using Product.product hu hk' hr⟩

theorem Factor.negated {ts : List TokenKind} {t : Term} (h : Factor ts t) :
    Rows Factor (.symbol .minus :: ts) := by
  by_cases hnumber : ∃ x, ts.head? = some (.number x)
  · obtain ⟨x, hx⟩ := hnumber
    cases h with
    | primary h =>
        cases h <;> cases hx
        exact ⟨_, .literal x⟩
    | _ => cases hx
  · exact ⟨_, .minus h fun x hx => hnumber ⟨x, hx⟩⟩

/-- A product with a minus before it. -/
theorem Product.negated {ts : List TokenKind} {t : Term} (h : Product ts t) :
    Rows Product (.symbol .minus :: ts) := by
  cases h with
  | factor h =>
      obtain ⟨u, hu⟩ := h.negated
      exact ⟨u, .factor hu⟩
  | product hl hk hr =>
      obtain ⟨u, hu⟩ := hl.negated
      exact ⟨_, Product.product hu hk hr⟩

end Grammar

end RhythmLogic
