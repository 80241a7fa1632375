/-
**The grammar of programs, as a relation between tokens and trees.**

The reader is a program: it looks one token ahead, loops over operators, and comes back when a group
of goals turns out to be an expression.  The grammar says which rows of tokens are expressions, goals
and clauses, and which trees they stand for, without saying how to find out.  Each rule below is a
family of its own; binary operators, commas and semicolons are read off the right end of a row, so
that they group leftwards.

One row may be derived in two ways, since parentheses around an expression may also be a group of
goals.  And an anonymous variable may get any number, so that trees are only determined *up to the
numbers of their anonymous variables*.

Main definitions:

* `Grammar.Expr`, `Grammar.Goals`, `Grammar.Clause`, `Grammar.Clauses` — **the rules**, with those
  between them;
* `unnumber`, `Term.unnumbered`, `GoalTree.unnumbered`, `Reader.SourceClause.unnumbered` — trees with
  all anonymous variables written `_`;
* `Cursor.kinds` — the tokens ahead, without their places.

Main results:

* `Grammar.Expr.starts` — what an expression starts with;
* `Grammar.Expr.split_group`, `Grammar.Test.split_group` — **what starts with a parenthesis is a
  group, and ends there or goes on with an operator or a comparison**.
-/

import RhythmLogic.Proofs.Relabelling
import RhythmLogic.Program.Grammar

set_option autoImplicit false

namespace RhythmLogic

/-! ### Tokens ahead -/

/-- The tokens ahead, without their places. -/
def Cursor.kinds (c : Cursor) : List TokenKind := c.tokens.map Token.kind

namespace Cursor

variable {c : Cursor} {k : TokenKind} {ks : List TokenKind}

theorem current_kind (c : Cursor) : c.current.kind = c.kinds.headD .eof := by
  rcases h : c.tokens with _ | ⟨t, rest⟩ <;> simp [current, kinds, h]

theorem current_kind_of_cons (h : c.kinds = k :: ks) : c.current.kind = k := by
  rw [current_kind, h, List.headD_cons]

theorem kinds_advance (h : c.kinds = k :: ks) (hk : k ≠ .eof) : c.advance.kinds = ks := by
  have hcurrent : c.current.kind ≠ .eof := by rwa [current_kind_of_cons h]
  rw [advance, if_neg hcurrent]
  simp only [kinds] at h ⊢
  rw [List.map_tail, h, List.tail_cons]

/-- A token that is not the end mark is the first one ahead. -/
theorem kinds_of_current (h : c.current.kind ≠ .eof) :
    c.kinds = c.current.kind :: c.advance.kinds := by
  rcases hkinds : c.kinds with _ | ⟨k, ks⟩
  · rw [current_kind, hkinds] at h
    exact absurd rfl h
  · have hk := current_kind_of_cons hkinds
    rw [hk, kinds_advance hkinds (hk ▸ h)]

end Cursor

/-! ### The rules -/

namespace Grammar

open Reader

/-- The term that a name is.  A `_` is any anonymous variable. -/
inductive Named : String → Term → Prop where
  | anonymous (number : Nat) : Named "_" (.var (anonymousName number))
  | variable {x : String} : x ≠ "_" → isVariableName x = true → Named x (.var x)
  | atom {x : String} : isVariableName x = false → Named x (.atom x)

mutual

/-- `expr := product (('+' | '-') product)*` -/
inductive Expr : List TokenKind → Term → Prop where
  | product {ts : List TokenKind} {t : Term} : Product ts t → Expr ts t
  | sum {ls rs : List TokenKind} {k : TokenKind} {op : Op} {l r : Term} :
      Expr ls l → sumOp? k = some op → Product rs r → Expr (ls ++ k :: rs) (.expr op l r)

/-- `product := factor (('*' | '/') factor)*` -/
inductive Product : List TokenKind → Term → Prop where
  | factor {ts : List TokenKind} {t : Term} : Factor ts t → Product ts t
  | product {ls rs : List TokenKind} {k : TokenKind} {op : Op} {l r : Term} :
      Product ls l → productOp? k = some op → Factor rs r → Product (ls ++ k :: rs) (.expr op l r)

/-- `factor := '-' factor | primary`, where a minus directly before a number belongs to it. -/
inductive Factor : List TokenKind → Term → Prop where
  | primary {ts : List TokenKind} {t : Term} : Primary ts t → Factor ts t
  | literal (x : Float) : Factor [.symbol .minus, .number x] (.number (-x))
  | minus {ts : List TokenKind} {t : Term} : Factor ts t → (∀ x, ts.head? ≠ some (.number x)) →
      Factor (.symbol .minus :: ts) (.expr .sub (.number 0.0) t)

/-- `primary := number | name | name '(' exprs? ')' | '[' exprs? ']' | '[' exprs '|' expr ']'
| '(' expr ')'` -/
inductive Primary : List TokenKind → Term → Prop where
  | number (x : Float) : Primary [.number x] (.number x)
  | name {x : String} {t : Term} : Named x t → Primary [.name x] t
  | call {name : String} {ts : List TokenKind} {args : List Term} : Items ts args →
      Primary (.name name :: .symbol .openParen :: (ts ++ [.symbol .closeParen]))
        (.compound name args)
  | list {ts : List TokenKind} {items : List Term} : Items ts items →
      Primary (.symbol .openBracket :: (ts ++ [.symbol .closeBracket])) (.list items)
  | partialList {ts us : List TokenKind} {items : List Term} {tail : Term} :
      Exprs ts items → Expr us tail →
      Primary (.symbol .openBracket :: (ts ++ .symbol .bar :: (us ++ [.symbol .closeBracket])))
        (.partialList items tail)
  | group {ts : List TokenKind} {t : Term} : Expr ts t →
      Primary (.symbol .openParen :: (ts ++ [.symbol .closeParen])) t

/-- `exprs?` -/
inductive Items : List TokenKind → List Term → Prop where
  | none : Items [] []
  | some {ts : List TokenKind} {items : List Term} : Exprs ts items → Items ts items

/-- `exprs := expr (',' expr)*` -/
inductive Exprs : List TokenKind → List Term → Prop where
  | one {ts : List TokenKind} {t : Term} : Expr ts t → Exprs ts [t]
  | more {ts us : List TokenKind} {items : List Term} {t : Term} : Exprs ts items → Expr us t →
      Exprs (ts ++ .symbol .comma :: us) (items ++ [t])

end

/-- `test := expr (comparison expr)?` -/
inductive Test : List TokenKind → GoalTree → Prop where
  | call {ts : List TokenKind} {t : Term} : Expr ts t → Test ts (.call t)
  | comparison {ls rs : List TokenKind} {k : TokenKind} {name : String} {l r : Term} :
      Expr ls l → comparison? k = some name → Expr rs r →
      Test (ls ++ k :: rs) (.call (.compound name [l, r]))

mutual

/-- `goals := conj (';' conj)*` -/
inductive Goals : List TokenKind → GoalTree → Prop where
  | conjunction {ts : List TokenKind} {g : GoalTree} : Conjunction ts g → Goals ts g
  | either {ls rs : List TokenKind} {l r : GoalTree} : Goals ls l → Conjunction rs r →
      Goals (ls ++ .symbol .semicolon :: rs) (.either l r)

/-- `conj := unit (',' unit)*` -/
inductive Conjunction : List TokenKind → GoalTree → Prop where
  | unit {ts : List TokenKind} {g : GoalTree} : Unit ts g → Conjunction ts g
  | both {ls rs : List TokenKind} {l r : GoalTree} : Conjunction ls l → Unit rs r →
      Conjunction (ls ++ .symbol .comma :: rs) (.both l r)

/-- `unit := '\+' unit | '(' goals ')' | test` -/
inductive Unit : List TokenKind → GoalTree → Prop where
  | negation {ts : List TokenKind} {g : GoalTree} : Unit ts g →
      Unit (.symbol .not :: ts) (.negation g)
  | group {ts : List TokenKind} {g : GoalTree} : Goals ts g →
      Unit (.symbol .openParen :: (ts ++ [.symbol .closeParen])) g
  | test {ts : List TokenKind} {g : GoalTree} : Test ts g → Unit ts g

end

/-- `clause := expr (':-' goals)? '.'`, where the head is an atom or a compound. -/
inductive Clause : List TokenKind → SourceClause → Prop where
  | fact {ts : List TokenKind} {t : Term} : Expr ts t → t.functor?.isSome = true →
      Clause (ts ++ [.symbol .period]) ⟨t, none⟩
  | rule {ts us : List TokenKind} {t : Term} {g : GoalTree} : Expr ts t →
      t.functor?.isSome = true → Goals us g →
      Clause (ts ++ .symbol .neck :: (us ++ [.symbol .period])) ⟨t, some g⟩

/-- `clause*` -/
inductive Clauses : List TokenKind → List SourceClause → Prop where
  | nil : Clauses [] []
  | cons {ts us : List TokenKind} {c : SourceClause} {cs : List SourceClause} : Clause ts c →
      Clauses us cs → Clauses (ts ++ us) (c :: cs)

/-! ### Where an expression starts -/

/-- A token that an expression may start with. -/
def StartsExpr : TokenKind → Prop
  | .number _ | .name _ => True
  | .symbol s => s = .minus ∨ s = .openParen ∨ s = .openBracket
  | .eof => False

/-- The first token is one that an expression may start with. -/
def Starts (ts : List TokenKind) : Prop := ∃ k us, ts = k :: us ∧ StartsExpr k

theorem Starts.append {ts : List TokenKind} (h : Starts ts) (us : List TokenKind) :
    Starts (ts ++ us) := by
  obtain ⟨k, vs, rfl, hk⟩ := h
  exact ⟨k, vs ++ us, rfl, hk⟩

mutual

/-- **An expression starts like an expression.** -/
theorem Expr.starts {ts : List TokenKind} {t : Term} : Expr ts t → Starts ts
  | .product h => h.starts
  | .sum h _ _ => h.starts.append _

theorem Product.starts {ts : List TokenKind} {t : Term} : Product ts t → Starts ts
  | .factor h => h.starts
  | .product h _ _ => h.starts.append _

theorem Factor.starts {ts : List TokenKind} {t : Term} : Factor ts t → Starts ts
  | .primary h => h.starts
  | .literal _ => ⟨_, _, rfl, .inl rfl⟩
  | .minus _ _ => ⟨_, _, rfl, .inl rfl⟩

theorem Primary.starts {ts : List TokenKind} {t : Term} : Primary ts t → Starts ts
  | .number _ => ⟨_, _, rfl, trivial⟩
  | .name _ => ⟨_, _, rfl, trivial⟩
  | .call _ => ⟨_, _, rfl, trivial⟩
  | .list _ => ⟨_, _, rfl, .inr (.inr rfl)⟩
  | .partialList _ _ => ⟨_, _, rfl, .inr (.inr rfl)⟩
  | .group _ => ⟨_, _, rfl, .inr (.inl rfl)⟩

end

theorem Exprs.starts {ts : List TokenKind} {items : List Term} : Exprs ts items → Starts ts
  | .one h => h.starts
  | .more h _ => h.starts.append _

theorem Exprs.ne_nil {ts : List TokenKind} {items : List Term} : Exprs ts items → items ≠ []
  | .one _ => List.cons_ne_nil _ _
  | .more _ _ => by simp

/-- What the first token of an expression is not. -/
theorem Starts.head_ne {ts : List TokenKind} (h : Starts ts) {s : Sym}
    (hs : ¬ StartsExpr (.symbol s)) (rest : List TokenKind) :
    (ts ++ rest).headD .eof ≠ .symbol s := by
  obtain ⟨k, us, rfl, hk⟩ := h
  rintro rfl
  exact hs hk

/-- A clause ends with a period. -/
theorem Clause.getLast? {ts : List TokenKind} {c : SourceClause} (h : Clause ts c) :
    ts.getLast? = some (.symbol .period) := by
  cases h with
  | fact => exact List.getLast?_concat
  | rule =>
      rw [← List.cons_append, ← List.append_assoc]
      exact List.getLast?_concat

/-! ### Parentheses -/

/-- **What starts with a parenthesis starts with a group**: it ends there, and is what the group
makes it, or it goes on with an operator or a comparison. -/
def SplitsGroup (ts : List TokenKind) (made : Term → Prop) : Prop :=
  ∀ rest, ts = .symbol .openParen :: rest → ∃ inner us u, Expr inner u ∧
    rest = inner ++ .symbol .closeParen :: us ∧
    ((us = [] ∧ made u) ∨ ∃ k vs, us = k :: vs ∧ continuesExpression k = true)

theorem SplitsGroup.mono {ts : List TokenKind} {P Q : Term → Prop} (h : SplitsGroup ts P)
    (hPQ : ∀ u, P u → Q u) : SplitsGroup ts Q := by
  intro rest hrest
  obtain ⟨inner, us, u, hinner, hts, hus⟩ := h rest hrest
  exact ⟨inner, us, u, hinner, hts, hus.imp_left fun hu => ⟨hu.1, hPQ u hu.2⟩⟩

/-- A longer row starts with the same group. -/
theorem SplitsGroup.extend {ls rs : List TokenKind} {k : TokenKind} {P Q : Term → Prop}
    (h : SplitsGroup ls P) (hl : Starts ls) (hk : continuesExpression k = true) :
    SplitsGroup (ls ++ k :: rs) Q := by
  intro rest hrest
  obtain ⟨j, js, rfl, -⟩ := hl
  rw [List.cons_append, List.cons.injEq] at hrest
  obtain ⟨rfl, rfl⟩ := hrest
  obtain ⟨inner, us, u, hinner, rfl, ⟨rfl, -⟩ | ⟨k', vs, rfl, hk'⟩⟩ := h js rfl
  · exact ⟨inner, k :: rs, u, hinner, by simp, .inr ⟨k, rs, rfl, hk⟩⟩
  · exact ⟨inner, k' :: (vs ++ k :: rs), u, hinner, by simp, .inr ⟨k', _, rfl, hk'⟩⟩

theorem continuesExpression_of_sumOp {k : TokenKind} {op : Op} (h : sumOp? k = some op) :
    continuesExpression k = true := by
  simp [continuesExpression, h]

theorem continuesExpression_of_productOp {k : TokenKind} {op : Op} (h : productOp? k = some op) :
    continuesExpression k = true := by
  simp [continuesExpression, h]

theorem continuesExpression_of_comparison {k : TokenKind} {name : String}
    (h : comparison? k = some name) : continuesExpression k = true := by
  simp [continuesExpression, h]

theorem Primary.split_group {ts : List TokenKind} {t : Term} :
    Primary ts t → SplitsGroup ts (· = t) := by
  intro h rest hrest
  cases h <;> cases hrest
  next inner hinner => exact ⟨inner, [], t, hinner, rfl, .inl ⟨rfl, rfl⟩⟩

theorem Factor.split_group {ts : List TokenKind} {t : Term} :
    Factor ts t → SplitsGroup ts (· = t)
  | .primary h => h.split_group
  | .literal _ => nofun
  | .minus _ _ => nofun

theorem Product.split_group {ts : List TokenKind} {t : Term} :
    Product ts t → SplitsGroup ts (· = t)
  | .factor h => h.split_group
  | .product h hk _ => h.split_group.extend h.starts (continuesExpression_of_productOp hk)

/-- **An expression that starts with a parenthesis starts with a group.** -/
theorem Expr.split_group {ts : List TokenKind} {t : Term} : Expr ts t → SplitsGroup ts (· = t)
  | .product h => h.split_group
  | .sum h hk _ => h.split_group.extend h.starts (continuesExpression_of_sumOp hk)

theorem Test.starts {ts : List TokenKind} {g : GoalTree} : Test ts g → Starts ts
  | .call h => h.starts
  | .comparison h _ _ => h.starts.append _

/-- A test that starts with a parenthesis starts with a group. -/
theorem Test.split_group {ts : List TokenKind} {g : GoalTree} :
    Test ts g → SplitsGroup ts fun u => g = .call u
  | .call h => h.split_group.mono fun _ hu => by rw [hu]
  | .comparison h hk _ => h.split_group.extend h.starts (continuesExpression_of_comparison hk)

end Grammar

/-! ### The numbers of anonymous variables -/

/-- A name of an anonymous variable. -/
def isAnonymous (x : String) : Bool :=
  x == Reader.anonymousName (Nat.ofDigitChars 10 (x.toList.drop 2) 0)

@[simp] theorem isAnonymous_anonymousName (n : Nat) : isAnonymous (Reader.anonymousName n) := by
  simp [isAnonymous, Reader.anonymousName, naturalText, decimalText,
    Nat.ofDigitChars_ten_toDigits]

/-- A name without the number of an anonymous variable. -/
def unnumber (x : String) : String := if isAnonymous x then "_" else x

@[simp] theorem unnumber_anonymousName (n : Nat) : unnumber (Reader.anonymousName n) = "_" := by
  simp [unnumber]

/-- A term with all anonymous variables written `_`. -/
def Term.unnumbered (t : Term) : Term := t.relabel unnumber

theorem Term.unnumbered_compound (name : String) (args : List Term) :
    (compound name args).unnumbered = compound name (args.map unnumbered) :=
  relabel_compound name args

theorem Term.unnumbered_list (items : List Term) :
    (list items).unnumbered = list (items.map unnumbered) :=
  relabel_list items

theorem Term.unnumbered_partialList (items : List Term) (tail : Term) :
    (partialList items tail).unnumbered = partialList (items.map unnumbered) tail.unnumbered :=
  relabel_partialList items tail

theorem Term.unnumbered_expr (op : Op) (l r : Term) :
    (expr op l r).unnumbered = expr op l.unnumbered r.unnumbered := rfl

/-- A tree of goals with all anonymous variables written `_`. -/
def GoalTree.unnumbered : GoalTree → GoalTree
  | .call t => .call t.unnumbered
  | .both l r => .both l.unnumbered r.unnumbered
  | .either l r => .either l.unnumbered r.unnumbered
  | .negation inner => .negation inner.unnumbered

/-- A clause with all anonymous variables written `_`. -/
def Reader.SourceClause.unnumbered (c : SourceClause) : SourceClause :=
  ⟨c.head.unnumbered, c.body.map GoalTree.unnumbered⟩

/-- A name stands for one term only, up to the number of an anonymous variable. -/
theorem Grammar.Named.unnumbered_eq {x : String} {t u : Term} (ht : Named x t) (hu : Named x u) :
    t.unnumbered = u.unnumbered := by
  cases ht <;> cases hu <;> simp_all [Term.unnumbered, Reader.isVariableName]

@[simp] theorem Term.functor?_unnumbered (t : Term) : t.unnumbered.functor? = t.functor? :=
  t.functor?_relabel

end RhythmLogic
