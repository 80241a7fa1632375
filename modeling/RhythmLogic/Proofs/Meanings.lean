/-
**One induction for all that is shown of the rules.**

Whatever is shown of the grammar's rules is shown of each of them, at every depth, and the rules call
each other.  The induction is the same each time: a rule is a few steps in sequence, and where it
calls another rule the call is one level deeper.  Here it is made once, for any judgement.

What differs is what is said of the result of each rule and how it comes from the parts.  A meaning
says that, with one clause for each production of the grammar.  Then the rules mean what is said.

Main definitions:

* `Meaning` — what is said of the rules, with **a clause for each production**;
* `Meaning.Stops`, `Meaning.Tries` — the clauses for where a rule stops, and for the two rules that
  judge what they have read;
* `Values`, `Meaning.ofValues` — the meaning where tokens leave nothing behind and all rules of
  expressions say the same;
* `Meaning.Shown` — what is shown of all rules at two depths.

Main results:

* `Meaning.Shown.deeper` — from one level to the next;
* `Meaning.shown`, `Meaning.shown_clause` — **the rules mean what is said of them**, at all depths.
-/

import RhythmLogic.Proofs.Judgements

set_option autoImplicit false

namespace RhythmLogic

open Reader (comparison? sumOp? productOp? SourceClause)

/-! ### Meanings -/

/-- **What the rules mean**: what is said of each of them, with a clause for each production that
says what it makes of the meanings of its parts. -/
structure Meaning {m m' : Type → Type} [TokenMonad m] [TokenMonad m'] (J : Judgement m m') where
  expr : Post J.Trace Term
  product : Post J.Trace Term
  factor : Post J.Trace Term
  primary : Post J.Trace Term
  items : Post J.Trace (List Term)
  exprs : List J.Trace → List Term → List Term → Prop
  test : Post J.Trace GoalTree
  unit : Post J.Trace GoalTree
  conjunction : Post J.Trace GoalTree
  goals : Post J.Trace GoalTree
  clause : Post J.Trace SourceClause
  expr_product {t : List J.Trace} {a b : Term} : product.result t a b → expr.result t a b
  sum {t u : List J.Trace} {k : TokenKind} {op : Op} {l l' r r' : Term} :
    expr.result t l l' → sumOp? k = some op → product.result u r r' →
    expr.result (t ++ (J.left k ++ u)) (.expr op l r) (.expr op l' r')
  product_factor {t : List J.Trace} {a b : Term} : factor.result t a b → product.result t a b
  times {t u : List J.Trace} {k : TokenKind} {op : Op} {l l' r r' : Term} :
    product.result t l l' → productOp? k = some op → factor.result u r r' →
    product.result (t ++ (J.left k ++ u)) (.expr op l r) (.expr op l' r')
  factor_primary {t : List J.Trace} {a b : Term} : primary.result t a b → factor.result t a b
  literal (x : Float) : factor.result (J.left (.symbol .minus) ++ J.left (.number x))
    (.number (-x)) (.number (-x))
  minus {c c' : Cursor} {t : List J.Trace} {a b : Term} : (∀ x, c.current.kind ≠ .number x) →
    J.Comes c t c' → factor.result t a b → factor.result (J.left (.symbol .minus) ++ t)
      (.expr .sub (.number 0.0) a) (.expr .sub (.number 0.0) b)
  number (x : Float) : primary.result (J.left (.number x)) (.number x) (.number x)
  named {x : String} {t : List J.Trace} {a b : Term} : J.Named x t a b → primary.result t a b
  call {x : String} {t : List J.Trace} {as bs : List Term} : items.result t as bs →
    primary.result (J.left (.name x) ++ (J.left (.symbol .openParen) ++
      (t ++ J.left (.symbol .closeParen)))) (.compound x as) (.compound x bs)
  list {t : List J.Trace} {as bs : List Term} : items.result t as bs →
    primary.result (J.left (.symbol .openBracket) ++ (t ++ J.left (.symbol .closeBracket)))
      (.list as) (.list bs)
  partialList {t u : List J.Trace} {as bs : List Term} {a b : Term} : exprs t as bs →
    expr.result u a b → primary.result (J.left (.symbol .openBracket) ++ (t ++
      (J.left (.symbol .bar) ++ (u ++ J.left (.symbol .closeBracket)))))
      (.partialList as a) (.partialList bs b)
  parenthesized {t : List J.Trace} {a b : Term} : expr.result t a b →
    primary.result (J.left (.symbol .openParen) ++ (t ++ J.left (.symbol .closeParen))) a b
  items_none : items.result [] [] []
  items_exprs {t : List J.Trace} {as bs : List Term} : exprs t as bs → items.result t as bs
  exprs_of_items {t : List J.Trace} {as bs : List Term} : items.result t as bs →
    as.isEmpty = false → exprs t as bs
  isEmpty_eq {t : List J.Trace} {as bs : List Term} : items.result t as bs →
    bs.isEmpty = as.isEmpty
  one {t : List J.Trace} {a b : Term} : expr.result t a b → exprs t [a] [b]
  more {t u : List J.Trace} {as bs : List Term} {a b : Term} : exprs t as bs →
    expr.result u a b → exprs (t ++ (J.left (.symbol .comma) ++ u)) (as ++ [a]) (bs ++ [b])
  test_call {t : List J.Trace} {a b : Term} : expr.result t a b → test.result t (.call a) (.call b)
  comparison {t u : List J.Trace} {k : TokenKind} {x : String} {l l' r r' : Term} :
    expr.result t l l' → comparison? k = some x → expr.result u r r' →
    test.result (t ++ (J.left k ++ u)) (.call (.compound x [l, r])) (.call (.compound x [l', r']))
  unit_test {t : List J.Trace} {a b : GoalTree} : test.result t a b → unit.result t a b
  negation {t : List J.Trace} {a b : GoalTree} : unit.result t a b →
    unit.result (J.left (.symbol .not) ++ t) (.negation a) (.negation b)
  group {t : List J.Trace} {a b : GoalTree} : goals.result t a b →
    unit.result (J.left (.symbol .openParen) ++ (t ++ J.left (.symbol .closeParen))) a b
  conjunction_unit {t : List J.Trace} {a b : GoalTree} : unit.result t a b →
    conjunction.result t a b
  both {t u : List J.Trace} {l l' r r' : GoalTree} : conjunction.result t l l' →
    unit.result u r r' →
    conjunction.result (t ++ (J.left (.symbol .comma) ++ u)) (.both l r) (.both l' r')
  goals_conjunction {t : List J.Trace} {a b : GoalTree} : conjunction.result t a b →
    goals.result t a b
  either {t u : List J.Trace} {l l' r r' : GoalTree} : goals.result t l l' →
    conjunction.result u r r' →
    goals.result (t ++ (J.left (.symbol .semicolon) ++ u)) (.either l r) (.either l' r')
  fact {t : List J.Trace} {a b : Term} : expr.result t a b → a.functor?.isSome = true →
    clause.result (t ++ J.left (.symbol .period)) ⟨a, none⟩ ⟨b, none⟩
  rule {t u : List J.Trace} {a b : Term} {g g' : GoalTree} : expr.result t a b →
    a.functor?.isSome = true → goals.result u g g' →
    clause.result (t ++ (J.left (.symbol .neck) ++ (u ++ J.left (.symbol .period))))
      ⟨a, some g⟩ ⟨b, some g'⟩

namespace Meaning

variable {m m' : Type → Type} [TokenMonad m] [TokenMonad m'] {J : Judgement m m'}

/-- **What the rules mean where they stop**: what a rule can be stopped after is told by its result,
by the results of its parts and by what the last one of them can be stopped after. -/
structure Stops (M : Meaning J) : Prop where
  expr_done {t : List J.Trace} {a b : Term} {k : TokenKind} : M.expr.result t a b →
    M.expr.stop t k
  expr_product {t : List J.Trace} {k : TokenKind} : M.product.stop t k → M.expr.stop t k
  sum {t u : List J.Trace} {j k : TokenKind} {op : Op} {l l' : Term} : M.expr.result t l l' →
    sumOp? j = some op → M.product.stop u k → M.expr.stop (t ++ (J.left j ++ u)) k
  product_done {t : List J.Trace} {a b : Term} {k : TokenKind} : M.product.result t a b →
    M.product.stop t k
  product_factor {t : List J.Trace} {k : TokenKind} : M.factor.stop t k → M.product.stop t k
  times {t u : List J.Trace} {j k : TokenKind} {op : Op} {l l' : Term} : M.product.result t l l' →
    productOp? j = some op → M.factor.stop u k → M.product.stop (t ++ (J.left j ++ u)) k
  factor_done {t : List J.Trace} {a b : Term} {k : TokenKind} : M.factor.result t a b →
    M.factor.stop t k
  factor_primary {t : List J.Trace} {k : TokenKind} : M.primary.stop t k → M.factor.stop t k
  minus {t : List J.Trace} {k : TokenKind} : M.factor.stop t k →
    M.factor.stop (J.left (.symbol .minus) ++ t) k
  start {k : TokenKind} : M.primary.stop [] k
  primary_done {t : List J.Trace} {a b : Term} {k : TokenKind} : M.primary.result t a b →
    M.primary.stop t k
  call {x : String} {t : List J.Trace} {k : TokenKind} : M.items.stop t k →
    M.primary.stop (J.left (.name x) ++ (J.left (.symbol .openParen) ++ t)) k
  list {t : List J.Trace} {k : TokenKind} : M.items.stop t k →
    M.primary.stop (J.left (.symbol .openBracket) ++ t) k
  partialList {t u : List J.Trace} {as bs : List Term} {k : TokenKind} : M.exprs t as bs →
    M.expr.stop u k →
    M.primary.stop (J.left (.symbol .openBracket) ++ (t ++ (J.left (.symbol .bar) ++ u))) k
  parenthesized {t : List J.Trace} {k : TokenKind} : M.expr.stop t k →
    M.primary.stop (J.left (.symbol .openParen) ++ t) k
  items_none {k : TokenKind} : M.items.stop [] k
  items_done {t : List J.Trace} {as bs : List Term} {k : TokenKind} : M.exprs t as bs →
    M.items.stop t k
  items_expr {t : List J.Trace} {k : TokenKind} : M.expr.stop t k → M.items.stop t k
  more {t u : List J.Trace} {as bs : List Term} {k : TokenKind} : M.exprs t as bs →
    M.expr.stop u k → M.items.stop (t ++ (J.left (.symbol .comma) ++ u)) k
  test_done {t : List J.Trace} {a b : GoalTree} {k : TokenKind} : M.test.result t a b →
    M.test.stop t k
  test_expr {t : List J.Trace} {k : TokenKind} : M.expr.stop t k → M.test.stop t k
  comparison {t u : List J.Trace} {j k : TokenKind} {x : String} {l l' : Term} :
    M.expr.result t l l' → comparison? j = some x → M.expr.stop u k →
    M.test.stop (t ++ (J.left j ++ u)) k
  unit_test {t : List J.Trace} {k : TokenKind} : M.test.stop t k → M.unit.stop t k
  negation {t : List J.Trace} {k : TokenKind} : M.unit.stop t k →
    M.unit.stop (J.left (.symbol .not) ++ t) k
  conjunction_unit {t : List J.Trace} {k : TokenKind} : M.unit.stop t k → M.conjunction.stop t k
  both {t u : List J.Trace} {l l' : GoalTree} {k : TokenKind} : M.conjunction.result t l l' →
    M.unit.stop u k → M.conjunction.stop (t ++ (J.left (.symbol .comma) ++ u)) k
  goals_conjunction {t : List J.Trace} {k : TokenKind} : M.conjunction.stop t k → M.goals.stop t k
  either {t u : List J.Trace} {l l' : GoalTree} {k : TokenKind} : M.goals.result t l l' →
    M.conjunction.stop u k → M.goals.stop (t ++ (J.left (.symbol .semicolon) ++ u)) k
  clause_done {t : List J.Trace} {a b : SourceClause} {k : TokenKind} : M.clause.result t a b →
    M.clause.stop t k
  clause_expr {t : List J.Trace} {k : TokenKind} : M.expr.stop t k → M.clause.stop t k
  rule {t u : List J.Trace} {a b : Term} {k : TokenKind} : M.expr.result t a b →
    M.goals.stop u k → M.clause.stop (t ++ (J.left (.symbol .neck) ++ u)) k

/-- **The two rules that judge what they have read.**  Nothing is said of where a group stops, since
that is forgotten when it is given up. -/
structure Tries (M : Meaning J) : Prop where
  grouped {n n' : ℕ} {c : Cursor} : c.current.kind = .symbol .openParen →
    J.Enough 5 (n + 1) (n' + 1) c →
    J.Holds ⟨fun t => M.unit.result (J.left (.symbol .openParen) ++ t), fun _ _ => True⟩ c.advance
      (Rules.ofDepth n).group (Rules.ofDepth n').group →
    (∀ c₁ : Cursor, c₁.tokens = c.tokens →
      J.Holds M.unit c₁ (Rules.ofDepth n).test (Rules.ofDepth n').test) →
    J.Holds M.unit c (TokenMonad.grouped (Rules.ofDepth n).group (Rules.ofDepth n).test)
      (TokenMonad.grouped (Rules.ofDepth n').group (Rules.ofDepth n').test)
  headed {c : Cursor} {r : m Term} {s : m' Term} : J.Holds M.expr c r s →
    J.Holds ⟨fun t a b => M.expr.result t a b ∧ a.functor?.isSome = true, M.expr.stop⟩ c
      (TokenMonad.headed r) (TokenMonad.headed s)

/-- **What is shown of the rules** at two depths that are enough for their ranks. -/
structure Shown (M : Meaning J) (n n' : ℕ) : Prop where
  expression (c : Cursor) : J.Enough 4 n n' c →
    J.Holds M.expr c (Rules.ofDepth n).expression (Rules.ofDepth n').expression
  sumRest {t : List J.Trace} {l l' : Term} (c : Cursor) : J.Enough 1 n n' c →
    M.expr.result t l l' →
    J.Holds (M.expr.after t) c ((Rules.ofDepth n).sumRest l) ((Rules.ofDepth n').sumRest l')
  product (c : Cursor) : J.Enough 3 n n' c →
    J.Holds M.product c (Rules.ofDepth n).product (Rules.ofDepth n').product
  productRest {t : List J.Trace} {l l' : Term} (c : Cursor) : J.Enough 1 n n' c →
    M.product.result t l l' → J.Holds (M.product.after t) c ((Rules.ofDepth n).productRest l)
      ((Rules.ofDepth n').productRest l')
  factor (c : Cursor) : J.Enough 2 n n' c →
    J.Holds M.factor c (Rules.ofDepth n).factor (Rules.ofDepth n').factor
  primary (c : Cursor) : J.Enough 1 n n' c →
    J.Holds M.primary c (Rules.ofDepth n).primary (Rules.ofDepth n').primary
  items (close : Sym) (c : Cursor) : J.Enough 5 n n' c →
    J.Holds M.items c ((Rules.ofDepth n).items close) ((Rules.ofDepth n').items close)
  itemsRest {t : List J.Trace} {as bs : List Term} (c : Cursor) : J.Enough 1 n n' c →
    M.exprs t as.reverse bs.reverse →
    J.Holds (M.items.after t) c ((Rules.ofDepth n).itemsRest as) ((Rules.ofDepth n').itemsRest bs)
  goals (c : Cursor) : J.Enough 7 n n' c →
    J.Holds M.goals c (Rules.ofDepth n).goals (Rules.ofDepth n').goals
  goalsRest {t : List J.Trace} {l l' : GoalTree} (c : Cursor) : J.Enough 1 n n' c →
    M.goals.result t l l' → M.goals.stop t c.current.kind →
    J.Holds (M.goals.after t) c ((Rules.ofDepth n).goalsRest l) ((Rules.ofDepth n').goalsRest l')
  conjunction (c : Cursor) : J.Enough 6 n n' c →
    J.Holds M.conjunction c (Rules.ofDepth n).conjunction (Rules.ofDepth n').conjunction
  conjunctionRest {t : List J.Trace} {l l' : GoalTree} (c : Cursor) : J.Enough 1 n n' c →
    M.conjunction.result t l l' → M.conjunction.stop t c.current.kind →
    J.Holds (M.conjunction.after t) c ((Rules.ofDepth n).conjunctionRest l)
      ((Rules.ofDepth n').conjunctionRest l')
  unit (c : Cursor) : J.Enough 5 n n' c →
    J.Holds M.unit c (Rules.ofDepth n).unit (Rules.ofDepth n').unit

/-! ### One level after the other -/

section Deeper

variable {M : Meaning J} {n n' : ℕ} (hstops : M.Stops) (ih : M.Shown n n') {t : List J.Trace}
  {c : Cursor}

include hstops ih

theorem sumRest_shown {l l' : Term} (h : J.Enough 1 (n + 1) (n' + 1) c)
    (hl : M.expr.result t l l') : J.Holds (M.expr.after t) c
      ((Rules.ofDepth (n + 1)).sumRest l) ((Rules.ofDepth (n' + 1)).sumRest l') := by
  refine J.kind ?_
  split
  · exact J.done hl (hstops.expr_done hl)
  · next op hop =>
    have hplain := plain_of_sumOp hop
    have hlength := Cursor.length_advance hplain.1
    refine J.passes rfl hplain ?_
    refine J.part (ih.product _ (h.passed (by omega) (by omega))) (fun u k hk => ?_) ?_
    · simpa using hstops.sum hl hop hk
    intro u r r' c₁ hc₁ hr _
    have hle := J.comes_length hc₁
    refine J.build fun c₂ hc₂ => ih.sumRest c₂ (h.passed (by rw [hc₂]; omega) (by omega)) ?_
    simpa using M.sum hl hop hr

theorem productRest_shown {l l' : Term} (h : J.Enough 1 (n + 1) (n' + 1) c)
    (hl : M.product.result t l l') : J.Holds (M.product.after t) c
      ((Rules.ofDepth (n + 1)).productRest l) ((Rules.ofDepth (n' + 1)).productRest l') := by
  refine J.kind ?_
  split
  · exact J.done hl (hstops.product_done hl)
  · next op hop =>
    have hplain := plain_of_productOp hop
    have hlength := Cursor.length_advance hplain.1
    refine J.passes rfl hplain ?_
    refine J.part (ih.factor _ (h.passed (by omega) (by omega))) (fun u k hk => ?_) ?_
    · simpa using hstops.times hl hop hk
    intro u r r' c₁ hc₁ hr _
    have hle := J.comes_length hc₁
    refine J.build fun c₂ hc₂ => ih.productRest c₂ (h.passed (by rw [hc₂]; omega) (by omega)) ?_
    simpa using M.times hl hop hr

theorem test_shown (h : J.Enough 4 n n' c) : J.Holds M.test c
    (Rules.ofDepth n).test (Rules.ofDepth n').test := by
  refine J.part (p := M.test) (t := []) (ih.expression c h) (fun u k => hstops.test_expr) ?_
  intro u l l' c₁ hc₁ hl _
  have hle := J.comes_length hc₁
  refine J.kind ?_
  split
  · exact J.done (M.test_call hl) (hstops.test_done (M.test_call hl))
  · next x hx =>
    have hplain := plain_of_comparison hx
    have hlength := Cursor.length_advance hplain.1
    refine J.passes rfl hplain ?_
    refine J.part (ih.expression _ (h.mono (by omega) (Nat.le_refl _))) (fun v k hk => ?_) ?_
    · simpa using hstops.comparison hl hx hk
    intro v r r' c₂ _ hr _
    have hdone := M.comparison hl hx hr
    exact J.build fun c₃ _ =>
      J.done (by simpa using hdone) (by simpa using hstops.test_done hdone)

variable [LawfulMonad m] [LawfulMonad m']

theorem factor_shown (h : J.Enough 2 (n + 1) (n' + 1) c) : J.Holds M.factor c
    (Rules.ofDepth (n + 1)).factor (Rules.ofDepth (n' + 1)).factor := by
  refine J.eat (p := M.factor) (t := []) (fun hminus => J.kind ?_) fun _ => ?_
  · have hlength := Cursor.length_advance (c := c) (by simp [hminus])
    split
    · next x hx =>
      refine J.passes hx (.number x) ?_
      exact J.built (M.literal x) (hstops.factor_done (M.literal x))
    · next hnumber =>
      -- the minus of a number that follows is part of it, so here none does
      refine J.part (ih.factor _ (h.passed (by omega) (by omega))) (fun u k hk => ?_) ?_
      · exact hstops.minus hk
      intro u a b c₁ hc₁ hab _
      have hdone := M.minus (fun x hx => hnumber x hx) hc₁ hab
      refine J.build fun c₂ _ => ?_
      exact J.built hdone (hstops.factor_done hdone)
  · refine J.mono (ih.primary c (h.lower (Nat.le_refl _) (by omega))) ?_ ?_
    · exact fun _ _ _ => M.factor_primary
    · exact fun _ _ => hstops.factor_primary

/-- The items of a compound, after its parenthesis. -/
theorem call_shown {x : String} (h : J.Enough 5 n n' c) :
    J.Holds (M.primary.after (J.left (.name x) ++ J.left (.symbol .openParen))) c
      (do
        let args ← (Rules.ofDepth n).items .closeParen
        TokenMonad.expect .closeParen
        TokenMonad.build (.compound x args) (some x))
      (do
        let args ← (Rules.ofDepth n').items .closeParen
        TokenMonad.expect .closeParen
        TokenMonad.build (.compound x args) (some x)) := by
  refine J.part (ih.items .closeParen c h) (fun u k hk => ?_) ?_
  · simpa using hstops.call hk
  intro u as bs c₁ _ hargs hk
  refine J.expect hk fun _ => ?_
  have hdone := M.call (x := x) hargs
  exact J.built (by simpa using hdone) (by simpa using hstops.primary_done hdone)

/-- The items of a list, after its bracket. -/
theorem list_shown (h : J.Enough 5 n n' c) :
    J.Holds (M.primary.after (J.left (.symbol .openBracket))) c
      (do
        let members ← (Rules.ofDepth n).items .closeBracket
        let goesOn ← if members.isEmpty then pure false else TokenMonad.eat .bar
        if goesOn then
          let tail ← (Rules.ofDepth n).expression
          TokenMonad.expect .closeBracket
          TokenMonad.build (.partialList members tail) none
        else
          TokenMonad.expect .closeBracket
          TokenMonad.build (.list members) none)
      (do
        let members ← (Rules.ofDepth n').items .closeBracket
        let goesOn ← if members.isEmpty then pure false else TokenMonad.eat .bar
        if goesOn then
          let tail ← (Rules.ofDepth n').expression
          TokenMonad.expect .closeBracket
          TokenMonad.build (.partialList members tail) none
        else
          TokenMonad.expect .closeBracket
          TokenMonad.build (.list members) none) := by
  refine J.part (ih.items .closeBracket c h) (fun u k hk => hstops.list hk) ?_
  intro u as bs c₁ hc₁ hmembers hk
  have hle := J.comes_length hc₁
  have hlist : J.Holds (M.primary.after (J.left (.symbol .openBracket) ++ u)) c₁
      (do TokenMonad.expect .closeBracket; TokenMonad.build (.list as) none)
      (do TokenMonad.expect .closeBracket; TokenMonad.build (.list bs) none) := by
    refine J.expect hk fun _ => ?_
    have hdone := M.list hmembers
    exact J.built (by simpa using hdone) (by simpa using hstops.primary_done hdone)
  -- both have read members or neither has, so that both look for a bar or neither does
  rw [M.isEmpty_eq hmembers]
  cases hempty : as.isEmpty with
  | true => simpa using hlist
  | false =>
      rw [if_neg Bool.false_ne_true, if_neg Bool.false_ne_true]
      refine J.eat (fun hbar => ?_) fun _ => hlist
      have hexprs := M.exprs_of_items hmembers hempty
      have hlength := Cursor.length_advance (c := c₁) (by simp [hbar])
      refine J.part (ih.expression _ (h.mono (by omega) (by omega))) (fun v k hk => ?_) ?_
      · simpa using hstops.partialList hexprs hk
      intro v a b c₂ _ htail hk
      refine J.expect hk fun _ => ?_
      have hdone := M.partialList hexprs htail
      exact J.built (by simpa using hdone) (by simpa using hstops.primary_done hdone)

theorem primary_shown (h : J.Enough 1 (n + 1) (n' + 1) c) : J.Holds M.primary c
    (Rules.ofDepth (n + 1)).primary (Rules.ofDepth (n' + 1)).primary := by
  refine J.kind ?_
  split
  · next x hx =>
    refine J.passes (p := M.primary) (t := []) hx (.number x) ?_
    exact J.built (M.number x) (hstops.primary_done (M.number x))
  · next x hx =>
    refine J.named hx (fun t a b h => ⟨M.named h, fun k => hstops.primary_done (M.named h)⟩) ?_
    intro hparen
    have hlength := Cursor.length_advance (c := c) (by simp [hx])
    have hlength' := Cursor.length_advance (c := c.advance) (by simp [hparen])
    exact call_shown hstops ih (h.passed (by omega) (by omega))
  · next hbracket =>
    have hlength := Cursor.length_advance (c := c) (by simp [hbracket])
    refine J.passes (p := M.primary) (t := []) hbracket (.symbol _) ?_
    exact list_shown hstops ih (h.passed (by omega) (by omega))
  · next hparen =>
    have hlength := Cursor.length_advance (c := c) (by simp [hparen])
    refine J.passes (p := M.primary) (t := []) hparen (.symbol _) ?_
    refine J.part (ih.expression _ (h.passed (by omega) (by omega))) (fun u k hk => ?_) ?_
    · exact hstops.parenthesized hk
    intro u a b c₁ _ hab hk
    refine J.expect hk fun _ => ?_
    have hdone := M.parenthesized hab
    exact J.done (by simpa using hdone) (by simpa using hstops.primary_done hdone)
  · exact J.unexpected hstops.start

theorem items_shown (close : Sym) (h : J.Enough 5 (n + 1) (n' + 1) c) : J.Holds M.items c
    ((Rules.ofDepth (n + 1)).items close) ((Rules.ofDepth (n' + 1)).items close) := by
  refine J.sees (fun _ => J.pure M.items_none hstops.items_none) fun _ => ?_
  refine J.part (p := M.items) (t := []) (ih.expression c (h.lower (Nat.le_refl _) (by omega)))
    (fun u k => hstops.items_expr) ?_
  intro u a b c₁ hc₁ hab _
  exact ih.itemsRest c₁ (h.lower (J.comes_length hc₁) (by omega)) (M.one hab)

theorem itemsRest_shown {as bs : List Term} (h : J.Enough 1 (n + 1) (n' + 1) c)
    (hread : M.exprs t as.reverse bs.reverse) : J.Holds (M.items.after t) c
      ((Rules.ofDepth (n + 1)).itemsRest as) ((Rules.ofDepth (n' + 1)).itemsRest bs) := by
  refine J.eat (fun hcomma => ?_) fun _ => ?_
  · have hlength := Cursor.length_advance (c := c) (by simp [hcomma])
    refine J.part (ih.expression _ (h.passed (by omega) (by omega))) (fun u k hk => ?_) ?_
    · simpa using hstops.more hread hk
    intro u a b c₁ hc₁ hab _
    have hle := J.comes_length hc₁
    refine ih.itemsRest c₁ (h.passed (by omega) (by omega)) ?_
    simpa using M.more hread hab
  · exact J.done (M.items_exprs hread) (hstops.items_done hread)

omit hstops in
/-- A group of goals, after its parenthesis.  Nothing is said of where it stops. -/
theorem group_shown (h : J.Enough 7 n n' c) :
    J.Holds ⟨fun t => M.unit.result (J.left (.symbol .openParen) ++ t), fun _ _ => True⟩ c
      (Rules.ofDepth n).group (Rules.ofDepth n').group := by
  refine J.bind (ih.goals c h) (fun _ _ _ => trivial) fun u a b c₁ _ hab _ => ?_
  refine J.expect trivial fun _ => J.done ?_ trivial
  simpa using M.group hab

theorem unit_shown (htries : M.Tries) (h : J.Enough 5 (n + 1) (n' + 1) c) : J.Holds M.unit c
    (Rules.ofDepth (n + 1)).unit (Rules.ofDepth (n' + 1)).unit := by
  have htest : ∀ c₁ : Cursor, c₁.tokens.length ≤ c.tokens.length →
      J.Holds M.unit c₁ (Rules.ofDepth n).test (Rules.ofDepth n').test := fun c₁ hle =>
    J.mono (test_shown hstops ih (h.lower hle (by omega))) (fun _ _ _ => M.unit_test)
      fun _ _ => hstops.unit_test
  refine J.eat (p := M.unit) (t := []) (fun hnot => ?_) fun _ => J.sees (fun hparen => ?_)
    fun _ => htest c (Nat.le_refl _)
  · have hlength := Cursor.length_advance (c := c) (by simp [hnot])
    refine J.part (ih.unit _ (h.passed (by omega) (by omega))) (fun u k hk => ?_) ?_
    · exact hstops.negation hk
    exact fun u a b c₁ _ hab hk => J.done (M.negation hab) hk
  · have hlength := Cursor.length_advance (c := c) (by simp [hparen])
    -- a group that is given up may have changed counts, but the test has the same tokens ahead
    refine htries.grouped hparen h (group_shown ih (h.passed (by omega) (by omega))) ?_
    exact fun c₁ hc₁ => htest c₁ (Nat.le_of_eq (congrArg List.length hc₁))

theorem conjunctionRest_shown {l l' : GoalTree} (h : J.Enough 1 (n + 1) (n' + 1) c)
    (hl : M.conjunction.result t l l') (hk : M.conjunction.stop t c.current.kind) :
    J.Holds (M.conjunction.after t) c ((Rules.ofDepth (n + 1)).conjunctionRest l)
      ((Rules.ofDepth (n' + 1)).conjunctionRest l') := by
  refine J.eat (fun hcomma => ?_) fun _ => J.done hl hk
  have hlength := Cursor.length_advance (c := c) (by simp [hcomma])
  refine J.part (ih.unit _ (h.passed (by omega) (by omega))) (fun u k hk => ?_) ?_
  · simpa using hstops.both hl hk
  intro u r r' c₁ hc₁ hr hk
  have hle := J.comes_length hc₁
  refine ih.conjunctionRest c₁ (h.passed (by omega) (by omega)) ?_ hk
  simpa using M.both hl hr

theorem goalsRest_shown {l l' : GoalTree} (h : J.Enough 1 (n + 1) (n' + 1) c)
    (hl : M.goals.result t l l') (hk : M.goals.stop t c.current.kind) :
    J.Holds (M.goals.after t) c ((Rules.ofDepth (n + 1)).goalsRest l)
      ((Rules.ofDepth (n' + 1)).goalsRest l') := by
  refine J.eat (fun hsemicolon => ?_) fun _ => J.done hl hk
  have hlength := Cursor.length_advance (c := c) (by simp [hsemicolon])
  refine J.part (ih.conjunction _ (h.passed (by omega) (by omega))) (fun u k hk => ?_) ?_
  · simpa using hstops.either hl hk
  intro u r r' c₁ hc₁ hr hk
  have hle := J.comes_length hc₁
  refine ih.goalsRest c₁ (h.passed (by omega) (by omega)) ?_ hk
  simpa using M.either hl hr

/-- **From one level to the next.** -/
theorem Shown.deeper (htries : M.Tries) : M.Shown (n + 1) (n' + 1) where
  expression c h := by
    refine J.part (p := M.expr) (t := []) (ih.product c (h.lower (Nat.le_refl _) (by omega)))
      (fun u k => hstops.expr_product) ?_
    intro u a b c₁ hc₁ hab _
    exact ih.sumRest c₁ (h.lower (J.comes_length hc₁) (by omega)) (M.expr_product hab)
  sumRest c h hl := sumRest_shown hstops ih h hl
  product c h := by
    refine J.part (p := M.product) (t := []) (ih.factor c (h.lower (Nat.le_refl _) (by omega)))
      (fun u k => hstops.product_factor) ?_
    intro u a b c₁ hc₁ hab _
    exact ih.productRest c₁ (h.lower (J.comes_length hc₁) (by omega)) (M.product_factor hab)
  productRest c h hl := productRest_shown hstops ih h hl
  factor c h := factor_shown hstops ih h
  primary c h := primary_shown hstops ih h
  items close c h := items_shown hstops ih close h
  itemsRest c h hread := itemsRest_shown hstops ih h hread
  goals c h := by
    refine J.part (p := M.goals) (t := []) (ih.conjunction c (h.lower (Nat.le_refl _) (by omega)))
      (fun u k => hstops.goals_conjunction) ?_
    intro u a b c₁ hc₁ hab hk
    exact ih.goalsRest c₁ (h.lower (J.comes_length hc₁) (by omega)) (M.goals_conjunction hab) hk
  goalsRest c h hl hk := goalsRest_shown hstops ih h hl hk
  conjunction c h := by
    refine J.part (p := M.conjunction) (t := []) (ih.unit c (h.lower (Nat.le_refl _) (by omega)))
      (fun u k => hstops.conjunction_unit) ?_
    intro u a b c₁ hc₁ hab hk
    exact ih.conjunctionRest c₁ (h.lower (J.comes_length hc₁) (by omega)) (M.conjunction_unit hab)
      hk
  conjunctionRest c h hl hk := conjunctionRest_shown hstops ih h hl hk
  unit c h := unit_shown hstops ih htries h

end Deeper

/-! ### All levels -/

variable {M : Meaning J}

/-- Where the rules are nested too deeply, nothing is to be shown. -/
theorem Shown.tooDeep (hbounded : J.bounded = false) : M.Shown 0 0 := by
  have hfail {α : Type} {p : Post J.Trace α} {c : Cursor} :
      J.Holds p c (TokenMonad.fail .tooDeep) (TokenMonad.fail .tooDeep) :=
    J.fail (fun h => absurd h (by simp [hbounded])) fun h => absurd rfl h
  constructor <;> intros <;> exact hfail

variable [LawfulMonad m] [LawfulMonad m']

/-- **The rules mean what is said of them**, at any two depths. -/
theorem shown (hstops : M.Stops) (htries : M.Tries) (n n' : ℕ) : M.Shown n n' := by
  induction n generalizing n' with
  | zero =>
      -- no depth of zero is enough where it has to be, and no other one is equal to it
      by_cases h : n' = 0 ∧ J.bounded = false
      · rw [h.1]
        exact .tooDeep h.2
      · constructor <;> intros <;> exact absurd (Judgement.Enough.zero ‹_›) h
  | succ n ih =>
      cases n' with
      | zero => constructor <;> intros <;> exact (Judgement.Enough.not_zero ‹_›).elim
      | succ n' => exact (ih n').deeper hstops htries

/-- **The rule of clauses means what is said of it.** -/
theorem shown_clause (hstops : M.Stops) (htries : M.Tries) {n n' : ℕ} {c : Cursor}
    (h : J.Enough 7 n n' c) :
    J.Holds M.clause c (Rules.ofDepth n).clause (Rules.ofDepth n').clause := by
  have hall := M.shown hstops htries n n'
  refine J.part (p := M.clause) (t := [])
    (htries.headed (hall.expression c (h.mono (Nat.le_refl _) (by omega))))
    (fun u k => hstops.clause_expr) ?_
  rintro u a b c₁ hc₁ ⟨hab, hcalled⟩ hk
  have hle := J.comes_length hc₁
  refine J.eat (fun hneck => ?_) fun _ => ?_
  · have hlength := Cursor.length_advance (c := c₁) (by simp [hneck])
    simp only [if_true, bind_assoc, pure_bind]
    refine J.part (hall.goals _ (h.mono (by omega) (Nat.le_refl _))) (fun v k hk => ?_) ?_
    · simpa using hstops.rule hab hk
    intro v g g' c₂ _ hg hk
    refine J.expect hk fun _ => ?_
    have hdone := M.rule hab hcalled hg
    exact J.done (by simpa using hdone) (by simpa using hstops.clause_done hdone)
  · simp only [Bool.false_eq_true, if_false, pure_bind]
    refine J.expect hk fun _ => ?_
    have hdone := M.fact hab hcalled
    exact J.done hdone (hstops.clause_done hdone)

end Meaning

/-! ### Values -/

/-- **A meaning that only looks at trees**: the same is said of all terms, whatever rule they are
read by, and of all goals; and tokens that are passed as they are say nothing. -/
structure Values (τ : Type) where
  term : List τ → Term → Term → Prop
  terms : List τ → List Term → List Term → Prop
  goal : List τ → GoalTree → GoalTree → Prop
  clause : List τ → SourceClause → SourceClause → Prop
  number (x : Float) : term [] (.number x) (.number x)
  expr {t u : List τ} {op : Op} {l l' r r' : Term} : term t l l' → term u r r' →
    term (t ++ u) (.expr op l r) (.expr op l' r')
  compound {t : List τ} {x : String} {as bs : List Term} : terms t as bs →
    term t (.compound x as) (.compound x bs)
  list {t : List τ} {as bs : List Term} : terms t as bs → term t (.list as) (.list bs)
  partialList {t u : List τ} {as bs : List Term} {a b : Term} : terms t as bs → term u a b →
    term (t ++ u) (.partialList as a) (.partialList bs b)
  none : terms [] [] []
  more {t u : List τ} {as bs : List Term} {a b : Term} : terms t as bs → term u a b →
    terms (t ++ u) (as ++ [a]) (bs ++ [b])
  isEmpty_eq {t : List τ} {as bs : List Term} : terms t as bs → bs.isEmpty = as.isEmpty
  call {t : List τ} {a b : Term} : term t a b → goal t (.call a) (.call b)
  negation {t : List τ} {a b : GoalTree} : goal t a b → goal t (.negation a) (.negation b)
  both {t u : List τ} {l l' r r' : GoalTree} : goal t l l' → goal u r r' →
    goal (t ++ u) (.both l r) (.both l' r')
  either {t u : List τ} {l l' r r' : GoalTree} : goal t l l' → goal u r r' →
    goal (t ++ u) (.either l r) (.either l' r')
  fact {t : List τ} {a b : Term} : term t a b → clause t ⟨a, .none⟩ ⟨b, .none⟩
  rule {t u : List τ} {a b : Term} {g g' : GoalTree} : term t a b → goal u g g' →
    clause (t ++ u) ⟨a, some g⟩ ⟨b, some g'⟩

/-- What is said of results only. -/
def Post.value {τ α : Type} (result : List τ → α → α → Prop) : Post τ α :=
  ⟨result, fun _ _ => True⟩

@[simp]
theorem Post.value_result {τ α : Type} (result : List τ → α → α → Prop) :
    (Post.value result).result = result := rfl

namespace Meaning

variable {m m' : Type → Type} [TokenMonad m] [TokenMonad m'] {J : Judgement m m'}

/-- **The meaning of the rules that only looks at trees**, where tokens that are passed as they are
leave nothing behind. -/
def ofValues (V : Values J.Trace) (hleft : ∀ k, J.left k = [])
    (hnamed : ∀ x t a b, J.Named x t a b → V.term t a b) : Meaning J where
  expr := .value V.term
  product := .value V.term
  factor := .value V.term
  primary := .value V.term
  items := .value V.terms
  exprs := V.terms
  test := .value V.goal
  unit := .value V.goal
  conjunction := .value V.goal
  goals := .value V.goal
  clause := .value V.clause
  expr_product := id
  sum hl _ hr := by simpa [hleft] using V.expr hl hr
  product_factor := id
  times hl _ hr := by simpa [hleft] using V.expr hl hr
  factor_primary := id
  literal x := by simpa [hleft] using V.number (-x)
  minus _ _ hab := by simpa [hleft] using V.expr (V.number 0.0) hab
  number x := by simpa [hleft] using V.number x
  named h := hnamed _ _ _ _ h
  call h := by simpa [hleft] using V.compound h
  list h := by simpa [hleft] using V.list h
  partialList h htail := by simpa [hleft] using V.partialList h htail
  parenthesized h := by simpa [hleft] using h
  items_none := V.none
  items_exprs := id
  exprs_of_items h _ := h
  isEmpty_eq := V.isEmpty_eq
  one h := V.more V.none h
  more h hab := by simpa [hleft] using V.more h hab
  test_call := V.call
  comparison hl _ hr := by
    simpa [hleft] using V.call (V.compound (V.more (V.more V.none hl) hr))
  unit_test := id
  negation h := by simpa [hleft] using V.negation h
  group h := by simpa [hleft] using h
  conjunction_unit := id
  both hl hr := by simpa [hleft] using V.both hl hr
  goals_conjunction := id
  either hl hr := by simpa [hleft] using V.either hl hr
  fact h _ := by simpa [hleft] using V.fact h
  rule h _ hg := by simpa [hleft] using V.rule h hg

/-- It says nothing of stops. -/
theorem ofValues_stops (V : Values J.Trace) (hleft : ∀ k, J.left k = [])
    (hnamed : ∀ x t a b, J.Named x t a b → V.term t a b) : (ofValues V hleft hnamed).Stops := by
  constructor <;> intros <;> exact trivial

end Meaning

end RhythmLogic
