/-
**What is read was derived.**

Whenever a rule of the reader comes to a result, the tokens that it passed derive the result in the
grammar.  And wherever it stops, with a result or with an error that a token is to blame for, what it
passed is a row that can be finished.  A group of goals that is given up leaves no trace: the reader
goes back to the parenthesis, and only counts survive.

The end mark is never among the tokens that are passed, so that a text is read to its end and not
beyond.

Main definitions:

* `Reader.Passes` — from a cursor on, a reading passes tokens that stand in a relation to its result,
  and others where it stops;
* `derivation`, `derived` — the judgement that a reading passes tokens, and the meaning of the rules
  for it.

Main results:

* `Reader.Passes.bind` — **a reading after a reading**;
* `derived_stops`, `derived_tries` — where the rules stop, and what a group or a head is;
* `Reader.clausesF_derives`, `Reader.clausesF_stops` — **texts that are read, and texts that are
  refused**.
-/

import RhythmLogic.Proofs.Meanings
import RhythmLogic.Proofs.Unfinished

set_option autoImplicit false

namespace RhythmLogic

open Grammar (Expr Product Factor Primary Items Exprs Test Goals Conjunction Rows Finishable Text
  further goesOn_nil goesOn_closed)
open Reader (comparison? sumOp? productOp? continuesExpression)

/-- A row derives a tree, which is also the tree of the reading that is not looked at. -/
def Derives {α : Type} (N : List TokenKind → α → Prop) (t : List TokenKind) (a b : α) : Prop :=
  N t a ∧ b = a

namespace Reader

variable {α β : Type} {p : Post TokenKind α} {q : Post TokenKind β} {c c₁ : Cursor}

/-- A name is read as a term that it is, and only counts change. -/
theorem nameTerm_apply (x : String) (c : Cursor) : ∃ t c', nameTerm x c = (.ok t, c') ∧
    c'.tokens = c.tokens ∧ Grammar.Named x t := by
  rw [nameTerm]
  split_ifs with hanonymous hvariable
  · exact ⟨_, _, rfl, rfl, hanonymous ▸ .anonymous _⟩
  · exact ⟨_, _, rfl, rfl, .variable hanonymous hvariable⟩
  · exact ⟨_, _, rfl, rfl, .atom (by simpa using hvariable)⟩

/-- **What a reading passes from a cursor on**, where it stops with a result or with an error that a
token is to blame for.  An error is told for the token where it stops. -/
def Passes (p : Post TokenKind α) (c : Cursor) (r : Reader α) : Prop :=
  ∀ result c', r c = (result, c') → (∀ e, result = .error e → e.Syntactic) →
    ∃ us, c.tokens = us ++ c'.tokens ∧ .eof ∉ us.map Token.kind ∧
      p.stop (us.map Token.kind) c'.current.kind ∧
      (∀ a, result = .ok a → ∃ b, p.result (us.map Token.kind) a b) ∧
      ∀ e, result = .error e → e.position = c'.current.position

namespace Passes

theorem mono {q : Post TokenKind α} {r : Reader α} (h : Passes p c r)
    (hresult : ∀ t a b, p.result t a b → q.result t a b) (hstop : ∀ t k, p.stop t k → q.stop t k) :
    Passes q c r := by
  intro result c' hr hsyntactic
  obtain ⟨us, hus, heof, hk, ha, he⟩ := h result c' hr hsyntactic
  exact ⟨us, hus, heof, hstop _ _ hk, fun a h => (ha a h).imp fun b => hresult _ a b, he⟩

/-- A reading that goes on as another one does, behind some tokens. -/
theorem goesOn {r s : Reader α} (us : List Token) (h : Passes (p.after (us.map Token.kind)) c₁ s)
    (hr : r c = s c₁) (hus : c.tokens = us ++ c₁.tokens) (heof : .eof ∉ us.map Token.kind) :
    Passes p c r := by
  intro result c' hread hsyntactic
  obtain ⟨vs, hvs, heof', hk, ha, he⟩ := h result c' (hr ▸ hread) hsyntactic
  refine ⟨us ++ vs, by rw [hus, hvs, List.append_assoc], ?_, ?_, ?_, he⟩
  · rw [List.map_append, List.mem_append]
    exact not_or.2 ⟨heof, heof'⟩
  · rw [List.map_append]
    exact hk
  · rw [List.map_append]
    exact ha

/-- A reading that goes on as another one does, from the same tokens. -/
theorem stays {r s : Reader α} (h : Passes p c₁ s) (hr : r c = s c₁)
    (hc₁ : c₁.tokens = c.tokens) : Passes p c r :=
  goesOn [] h hr (by simp [hc₁]) List.not_mem_nil

theorem pure {a b : α} (h : p.result [] a b) (hstop : p.stop [] c.current.kind) :
    Passes p c (pure a) := by
  rintro _ _ ⟨⟩ -
  refine ⟨[], rfl, List.not_mem_nil, hstop, ?_, nofun⟩
  rintro _ ⟨⟩
  exact ⟨b, h⟩

theorem fail {cause : ParseError.Cause} (hstop : cause ≠ .tooDeep → p.stop [] c.current.kind) :
    Passes p c (fail cause : Reader α) := by
  rintro _ _ ⟨⟩ hsyntactic
  refine ⟨[], rfl, List.not_mem_nil, hstop (hsyntactic _ rfl).1, nofun, ?_⟩
  rintro _ ⟨⟩
  rfl

/-- **A reading after a reading** passes the tokens of both, and stops where the first one does or
the second one. -/
theorem bind {r : Reader α} {f : α → Reader β} (hr : Passes p c r)
    (hstop : ∀ t k, p.stop t k → q.stop t k) (hf : ∀ t a b c', c.kinds = t ++ c'.kinds →
      p.result t a b → q.stop t c'.current.kind → Passes (q.after t) c' (f a)) :
    Passes q c (r >>= f) := by
  intro result c' hread hsyntactic
  rcases hfirst : r c with ⟨e | a, c₁⟩
  · rw [bind_of_error hfirst] at hread
    cases hread
    obtain ⟨us, hus, heof, hk, -, he⟩ :=
      hr _ _ hfirst (by rintro _ ⟨⟩; exact hsyntactic e rfl)
    exact ⟨us, hus, heof, hstop _ _ hk, nofun, by rintro _ ⟨⟩; exact he e rfl⟩
  · obtain ⟨us, hus, heof, hk, ha, -⟩ := hr _ _ hfirst nofun
    have hkinds : c.kinds = us.map Token.kind ++ c₁.kinds := by
      simp only [Cursor.kinds, hus, List.map_append]
    obtain ⟨b, hb⟩ := ha a rfl
    have hrest := hf _ a b c₁ hkinds hb (hstop _ _ hk)
    exact hrest.goesOn us (bind_of_ok hfirst f) hus heof result c' hread hsyntactic

theorem advance {f : Unit → Reader α} (hne : c.current.kind ≠ .eof)
    (h : Passes (p.after [c.current.kind]) c.advance (f ())) :
    Passes p c (Reader.advance >>= f) := by
  refine goesOn [c.current] h rfl (Cursor.tokens_of_current hne) ?_
  simpa using hne.symm

/-- A name is passed, and with it a parenthesis that follows it. -/
theorem named {p : Post TokenKind Term} {x : String} {r : Reader Term}
    (hx : c.current.kind = .name x)
    (h : ∀ t, Grammar.Named x t → p.result [.name x] t t ∧ ∀ k, p.stop [.name x] k)
    (hcompound : c.advance.current.kind = .symbol .openParen →
      Passes (p.after [.name x, .symbol .openParen]) c.advance.advance r) :
    Passes p c (named x r) := by
  have hne : c.current.kind ≠ .eof := by simp [hx]
  have htokens := Cursor.tokens_of_current hne
  by_cases hparen : c.advance.current.kind = .symbol .openParen
  · have hne' : c.advance.current.kind ≠ .eof := by simp [hparen]
    have hread : Reader.named x r c = r c.advance.advance := by rw [named_apply, if_pos hparen]
    refine goesOn [c.current, c.advance.current] ?_ hread ?_ (by simp [hx, hparen])
    · simpa [hx, hparen] using hcompound hparen
    · rw [htokens, Cursor.tokens_of_current hne']
      rfl
  · obtain ⟨t, c', hread, hc', ht⟩ := nameTerm_apply x c.advance
    have hread' : Reader.named x r c = (Pure.pure t : Reader Term) c' := by
      rw [named_apply, if_neg hparen, hread]
      rfl
    obtain ⟨hresult, hstop⟩ := h t ht
    have hpure : Passes (p.after [.name x]) c' (Pure.pure t : Reader Term) :=
      .pure hresult (hstop _)
    refine goesOn [c.current] ?_ hread' ?_ (by simp [hx])
    · simpa [hx] using hpure
    · rw [htokens, hc']
      rfl

/-- A group that is kept is not followed by an operator, and of one that is given up nothing is
left. -/
theorem grouped {p : Post TokenKind GoalTree} {group test : Reader GoalTree}
    (hparen : c.current.kind = .symbol .openParen)
    (hgroup : Passes ⟨fun t => p.result (.symbol .openParen :: t), fun _ _ => True⟩ c.advance group)
    (hkept : ∀ t g g' k, p.result t g g' → continuesExpression k = false → p.stop t k)
    (htest : ∀ c₁ : Cursor, c₁.tokens = c.tokens → Passes p c₁ test) :
    Passes p c (grouped group test) := by
  rcases grouped_cases group test c with ⟨inner, c₁, hinner, hends, hread⟩ | ⟨-, hread⟩
  · have hne : c.current.kind ≠ .eof := by simp [hparen]
    obtain ⟨us, hus, heof, -, hresult, -⟩ := hgroup _ c₁ hinner nofun
    obtain ⟨g, hg⟩ := hresult inner rfl
    have hpure : Passes (p.after (([c.current] ++ us).map Token.kind)) c₁
        (Pure.pure inner : Reader GoalTree) := by
      refine .pure (b := g) ?_ ?_
      · simpa [Post.after, hparen] using hg
      · simpa [Post.after, hparen] using hkept _ _ _ _ hg hends
    refine hpure.goesOn ([c.current] ++ us) hread ?_ ?_
    · rw [Cursor.tokens_of_current hne, hus]
      rfl
    · simpa [hparen] using heof
  · exact (htest { (group c.advance).2 with tokens := c.tokens } rfl).stays hread rfl

/-- A term that is no head is refused where it starts, and no token is to blame. -/
theorem headed {p : Post TokenKind Term} {r : Reader Term} (h : Passes p c r) :
    Passes ⟨fun t a b => p.result t a b ∧ a.functor?.isSome = true, p.stop⟩ c (headed r) := by
  intro result c' hread hsyntactic
  rcases hfirst : r c with ⟨e | head, c₁⟩
  · rw [headed_of_error hfirst] at hread
    cases hread
    obtain ⟨us, hus, heof, hk, -, he⟩ := h _ _ hfirst (by rintro _ ⟨⟩; exact hsyntactic e rfl)
    exact ⟨us, hus, heof, hk, nofun, by rintro _ ⟨⟩; exact he e rfl⟩
  · rw [headed_of_ok hfirst] at hread
    split at hread
    · cases hread
      exact absurd rfl ((hsyntactic _ rfl).2 head)
    · next hhead =>
      cases hread
      obtain ⟨us, hus, heof, hk, ha, -⟩ := h _ _ hfirst nofun
      have hsome : head.functor?.isSome = true := by simpa [Option.isSome_iff_ne_none] using hhead
      refine ⟨us, hus, heof, hk, ?_, nofun⟩
      rintro _ ⟨⟩
      exact (ha head rfl).imp fun b hb => ⟨hb, hsome⟩

/-- What a reading passes when it comes to a result. -/
theorem yields {N : List TokenKind → α → Prop} {stop : List TokenKind → TokenKind → Prop}
    {r : Reader α} {a : α} {c' : Cursor} (h : Passes ⟨Derives N, stop⟩ c r)
    (hread : r c = (.ok a, c')) : ∃ ts, c.kinds = ts ++ c'.kinds ∧ .eof ∉ ts ∧ N ts a := by
  obtain ⟨us, hus, heof, -, hresult, -⟩ := h _ c' hread nofun
  obtain ⟨_, ha, -⟩ := hresult a rfl
  exact ⟨us.map Token.kind, by simp only [Cursor.kinds, hus, List.map_append], heof, ha⟩

end Passes

end Reader

/-! ### The judgement -/

theorem Cursor.length_le_of_kinds {c c' : Cursor} {ts : List TokenKind}
    (h : c.kinds = ts ++ c'.kinds) : c'.tokens.length ≤ c.tokens.length := by
  have hlength := congrArg List.length h
  simp only [kinds, List.length_map, List.length_append] at hlength
  omega

/-- **The judgement that a reading passes tokens.**  Each of them is left behind, and there is no
second reading to compare. -/
def derivation : Judgement Reader Reader where
  Trace := TokenKind
  left k := [k]
  Holds p c r _ := Reader.Passes p c r
  Comes c t c' := c.kinds = t ++ c'.kinds
  Named x t a b := t = [.name x] ∧ Grammar.Named x a ∧ b = a
  bounded := false
  comes_length := Cursor.length_le_of_kinds
  mono h := h.mono
  pure := .pure
  fail _ := .fail
  bind hr hstop hf := hr.bind hstop hf
  kind h := h
  advance hk h := .advance hk.1 h
  build {_ _ c _ _ name _ _} h := (h (c.count name) rfl).stays rfl rfl
  named hx h := .named hx fun t ht => h _ t t ⟨rfl, ht, rfl⟩

/-- **What the rules read was derived**, and where they stop their rows can be finished. -/
def derived : Meaning derivation where
  expr := ⟨Derives Expr, Finishable (Rows Expr)⟩
  product := ⟨Derives Product, Finishable (Rows Product)⟩
  factor := ⟨Derives Factor, Finishable (Rows Product)⟩
  primary := ⟨Derives Primary, Finishable (Rows Product)⟩
  items := ⟨Derives Items, Finishable (Rows Items)⟩
  exprs := Derives Exprs
  test := ⟨Derives Test, Finishable (Rows Test)⟩
  unit := ⟨Derives Grammar.Unit, Finishable (Rows Grammar.Unit)⟩
  conjunction := ⟨Derives Conjunction, Finishable (Rows Conjunction)⟩
  goals := ⟨Derives Goals, Finishable (Rows Goals)⟩
  clause := ⟨Derives Grammar.Clause, Finishable Text⟩
  expr_product := fun ⟨h, hb⟩ => ⟨.product h, hb⟩
  sum := by
    rintro _ _ _ _ _ _ _ _ ⟨hl, rfl⟩ hk ⟨hr, rfl⟩
    exact ⟨.sum hl hk hr, rfl⟩
  product_factor := fun ⟨h, hb⟩ => ⟨.factor h, hb⟩
  times := by
    rintro _ _ _ _ _ _ _ _ ⟨hl, rfl⟩ hk ⟨hr, rfl⟩
    exact ⟨.product hl hk hr, rfl⟩
  factor_primary := fun ⟨h, hb⟩ => ⟨.primary h, hb⟩
  literal x := ⟨.literal x, rfl⟩
  minus := by
    rintro c c' t _ _ hnumber hc' ⟨ht, rfl⟩
    refine ⟨.minus ht fun x hx => ?_, rfl⟩
    rcases t with _ | ⟨k, t⟩
    · cases hx
    · rw [Cursor.current_kind_of_cons hc'] at hnumber
      exact hnumber x (Option.some.inj hx)
  number x := ⟨.number x, rfl⟩
  named := by
    rintro _ _ _ _ ⟨rfl, h, rfl⟩
    exact ⟨.name h, rfl⟩
  call := by
    rintro _ _ _ _ ⟨h, rfl⟩
    exact ⟨.call h, rfl⟩
  list := by
    rintro _ _ _ ⟨h, rfl⟩
    exact ⟨.list h, rfl⟩
  partialList := by
    rintro _ _ _ _ _ _ ⟨h, rfl⟩ ⟨htail, rfl⟩
    exact ⟨.partialList h htail, rfl⟩
  parenthesized := fun ⟨h, hb⟩ => ⟨.group h, hb⟩
  items_none := ⟨.none, rfl⟩
  items_exprs := fun ⟨h, hb⟩ => ⟨.some h, hb⟩
  exprs_of_items := by
    rintro _ _ _ ⟨_ | h, rfl⟩ hempty
    · cases hempty
    · exact ⟨h, rfl⟩
  isEmpty_eq := fun ⟨_, hb⟩ => by rw [hb]
  one := by
    rintro _ _ _ ⟨h, rfl⟩
    exact ⟨.one h, rfl⟩
  more := by
    rintro _ _ _ _ _ _ ⟨h, rfl⟩ ⟨ha, rfl⟩
    exact ⟨.more h ha, rfl⟩
  test_call := by
    rintro _ _ _ ⟨h, rfl⟩
    exact ⟨.call h, rfl⟩
  comparison := by
    rintro _ _ _ _ _ _ _ _ ⟨hl, rfl⟩ hk ⟨hr, rfl⟩
    exact ⟨.comparison hl hk hr, rfl⟩
  unit_test := fun ⟨h, hb⟩ => ⟨.test h, hb⟩
  negation := by
    rintro _ _ _ ⟨h, rfl⟩
    exact ⟨.negation h, rfl⟩
  group := fun ⟨h, hb⟩ => ⟨.group h, hb⟩
  conjunction_unit := fun ⟨h, hb⟩ => ⟨.unit h, hb⟩
  both := by
    rintro _ _ _ _ _ _ ⟨hl, rfl⟩ ⟨hr, rfl⟩
    exact ⟨.both hl hr, rfl⟩
  goals_conjunction := fun ⟨h, hb⟩ => ⟨.conjunction h, hb⟩
  either := by
    rintro _ _ _ _ _ _ ⟨hl, rfl⟩ ⟨hr, rfl⟩
    exact ⟨.either hl hr, rfl⟩
  fact := by
    rintro _ _ _ ⟨h, rfl⟩ hcalled
    exact ⟨.fact h hcalled, rfl⟩
  rule := by
    rintro _ _ _ _ _ _ ⟨h, rfl⟩ hcalled ⟨hg, rfl⟩
    exact ⟨.rule h hcalled hg, rfl⟩

/-! ### Where the rules stop -/

theorem ne_closeParen_of_sumOp {k : TokenKind} {op : Op} (h : sumOp? k = some op) :
    k ≠ .symbol .closeParen := by
  rintro rfl
  cases h

theorem ne_closeParen_of_productOp {k : TokenKind} {op : Op} (h : productOp? k = some op) :
    k ≠ .symbol .closeParen := by
  rintro rfl
  cases h

theorem ne_closeParen_of_comparison {k : TokenKind} {x : String} (h : comparison? k = some x) :
    k ≠ .symbol .closeParen := by
  rintro rfl
  cases h

/-- **Where the rules stop their rows can be finished.**  Behind a parenthesis this takes the closing
one, and an operator after it, lest it end a group. -/
theorem derived_stops : derived.Stops where
  expr_done h := .of_further h.1.further
  expr_product h := Finishable.mono h fun _ ⟨_, ha⟩ => ⟨_, .product ha⟩
  sum := by
    rintro t u j k op l l' ⟨hl, -⟩ hop hk
    refine Finishable.behind hk _ [] ?_ goesOn_nil (ne_closeParen_of_sumOp hop)
    rintro row ⟨r, hr⟩
    exact ⟨_, by simpa using Expr.sum hl hop hr⟩
  product_done h := .of_further h.1.further
  product_factor := id
  times := by
    rintro t u j k op l l' ⟨hl, -⟩ hop hk
    refine Finishable.behind hk _ [] ?_ goesOn_nil (ne_closeParen_of_productOp hop)
    rintro row ⟨r, hr⟩
    simpa using hl.times hop hr
  factor_done h := .of_further (Product.factor h.1).further
  factor_primary := id
  minus h := by
    refine Finishable.behind h [] [] ?_ goesOn_nil nofun
    rintro row ⟨t, ht⟩
    simpa using ht.negated
  start := .of_finish [.name "a"] ⟨_, .factor (.primary (.name (.atom rfl)))⟩ (by simp) nofun
  primary_done h := .of_further h.1.further
  call {x _ _} h := by
    refine Finishable.behind h [.name x] (.symbol .closeParen :: further) ?_ goesOn_closed
      nofun
    rintro row ⟨args, hargs⟩
    simpa using (Primary.call hargs).further
  list h := by
    refine Finishable.behind h [] [.symbol .closeBracket] ?_ (by simp) nofun
    rintro row ⟨members, hmembers⟩
    exact ⟨_, .factor (.primary (.list hmembers))⟩
  partialList := by
    rintro t u as bs k ⟨hmembers, -⟩ hk
    refine Finishable.behind hk (.symbol .openBracket :: t) [.symbol .closeBracket] ?_
      (by simp) nofun
    rintro row ⟨tail, htail⟩
    exact ⟨_, .factor (.primary (.partialList hmembers htail))⟩
  parenthesized h := by
    refine Finishable.behind h [] (.symbol .closeParen :: further) ?_ goesOn_closed nofun
    rintro row ⟨t, ht⟩
    simpa using (Primary.group ht).further
  items_none := .of_finish [] ⟨[], .none⟩ goesOn_nil nofun
  items_done h := by
    obtain ⟨items, hitems⟩ := h.1.further
    exact .of_further ⟨items, .some hitems⟩
  items_expr h := Finishable.mono h fun _ ⟨_, ha⟩ => ⟨_, .some (.one ha)⟩
  more := by
    rintro t u as bs k ⟨hitems, -⟩ hk
    refine Finishable.behind hk _ [] ?_ goesOn_nil nofun
    rintro row ⟨a, ha⟩
    exact ⟨_, .some (by simpa using Exprs.more hitems ha)⟩
  test_done h := .of_further h.1.further
  test_expr h := Finishable.mono h fun _ ⟨_, ha⟩ => ⟨_, .call ha⟩
  comparison := by
    rintro t u j k x l l' ⟨hl, -⟩ hx hk
    refine Finishable.behind hk _ [] ?_ goesOn_nil (ne_closeParen_of_comparison hx)
    rintro row ⟨r, hr⟩
    exact ⟨_, by simpa using Test.comparison hl hx hr⟩
  unit_test h := Finishable.mono h fun _ ⟨_, hg⟩ => ⟨_, .test hg⟩
  negation h := by
    refine Finishable.behind h [] [] ?_ goesOn_nil nofun
    rintro row ⟨g, hg⟩
    exact ⟨_, by simpa using Grammar.Unit.negation hg⟩
  conjunction_unit h := Finishable.mono h fun _ ⟨_, hg⟩ => ⟨_, .unit hg⟩
  both := by
    rintro t u l l' k ⟨hl, -⟩ hk
    refine Finishable.behind hk _ [] ?_ goesOn_nil nofun
    rintro row ⟨r, hr⟩
    exact ⟨_, by simpa using Conjunction.both hl hr⟩
  goals_conjunction h := Finishable.mono h fun _ ⟨_, hg⟩ => ⟨_, .conjunction hg⟩
  either := by
    rintro t u l l' k ⟨hl, -⟩ hk
    refine Finishable.behind hk _ [] ?_ goesOn_nil nofun
    rintro row ⟨r, hr⟩
    exact ⟨_, by simpa using Goals.either hl hr⟩
  clause_done := by
    rintro t c _ k ⟨h, -⟩
    refine .of_finish [.eof] (.cons h.sentence .nil) (by simp) ?_
    rw [h.getLast?]
    simp
  clause_expr h := by
    refine Finishable.within h [] [.symbol .period, .eof] ?_ (by simp) (by simp)
    rintro row ⟨t, ht⟩
    simpa using Text.cons (.fact ht) .nil
  rule := by
    rintro (t : List TokenKind) u a b k ⟨hhead, -⟩ hk
    refine Finishable.behind hk _ [.symbol .period, .eof] ?_ (by simp) nofun
    rintro row ⟨g, hg⟩
    simpa using Text.cons (.rule hhead hg) .nil

/-- A group that is kept is a goal, which ends where no operator follows. -/
theorem derived_tries : derived.Tries where
  grouped hparen _ hgroup htest := by
    refine Reader.Passes.grouped hparen hgroup ?_ htest
    rintro t g g' k ⟨hg, -⟩ hends
    refine ⟨[], ⟨g, by simpa using hg⟩, trivial, fun _ hk => ?_⟩
    rw [hends] at hk
    cases hk
  headed h := h.headed

namespace Reader

/-! ### Texts -/

variable {c : Cursor}

theorem expression_passes (depth : ℕ) (c : Cursor) :
    Passes ⟨Derives Expr, Finishable (Rows Expr)⟩ c (expression depth) := by
  rw [expression_eq]
  exact (derived.shown derived_stops derived_tries depth depth).expression c rfl

theorem goals_passes (depth : ℕ) (c : Cursor) :
    Passes ⟨Derives Goals, Finishable (Rows Goals)⟩ c (goals depth) := by
  rw [goals_eq]
  exact (derived.shown derived_stops derived_tries depth depth).goals c rfl

/-- What a group passes. -/
theorem group_yields {depth : ℕ} {inner : GoalTree} {c' : Cursor}
    (h : group depth c = (.ok inner, c')) :
    ∃ row, c.kinds = row ++ .symbol .closeParen :: c'.kinds ∧ Goals row inner := by
  have hgroup : Passes ⟨Derives fun t g => ∃ row, t = row ++ [.symbol .closeParen] ∧ Goals row g,
      fun _ _ => True⟩ c (group depth) := by
    rw [group_eq]
    change derivation.Holds _ c (Rules.ofDepth depth).group (Rules.ofDepth depth).group
    refine derivation.bind (derived.shown derived_stops derived_tries depth depth |>.goals c rfl)
      (fun _ _ _ => trivial) ?_
    rintro t g _ c₁ - ⟨hg, rfl⟩ -
    exact derivation.expect trivial fun _ => derivation.done ⟨⟨t, rfl, hg⟩, rfl⟩ trivial
  obtain ⟨_, hrow, -, row, rfl, hinner⟩ := hgroup.yields h
  exact ⟨row, by simpa using hrow, hinner⟩

/-- **A clause that is read was derived**, and where none is read the text can be finished. -/
theorem clause_passes (depth : ℕ) (c : Cursor) :
    Passes ⟨Derives Grammar.Clause, Finishable Text⟩ c (clause depth) := by
  rw [clause_eq]
  exact derived.shown_clause derived_stops derived_tries rfl

/-- The tokens that a clause passes derive it. -/
theorem clause_yields {depth : ℕ} {first : SourceClause} {c' : Cursor}
    (h : clause depth c = (.ok first, c')) :
    ∃ ts, c.kinds = ts ++ c'.kinds ∧ .eof ∉ ts ∧ Grammar.Clause ts first :=
  (clause_passes depth c).yields h

/-- **A text that is read to its end was derived.** -/
theorem clausesF_derives {fuel : ℕ} {c' : Cursor} {clauses : List SourceClause}
    (h : clausesF fuel c = (clauses, none, c')) : ∃ ts, c.kinds = ts ++ c'.kinds ∧ .eof ∉ ts ∧
      c'.current.kind = .eof ∧ Grammar.Clauses ts clauses := by
  induction fuel generalizing c clauses with
  | zero => cases h
  | succ fuel ih =>
      rw [clausesF] at h
      split at h
      · next heof =>
        cases h
        exact ⟨[], rfl, List.not_mem_nil, heof, .nil⟩
      · split at h
        · cases h
        · next first c₁ hfirst =>
          rcases hrest : clausesF fuel c₁ with ⟨rest, error, c₂⟩
          rw [hrest] at h
          cases h
          obtain ⟨ts, hts, hts', hclause⟩ := clause_yields hfirst
          obtain ⟨us, hus, hus', heof, hclauses⟩ := ih hrest
          exact ⟨ts ++ us, by rw [hts, hus, List.append_assoc], by simp [hts', hus'], heof,
            .cons hclause hclauses⟩

/-- The tokens before the end mark of such a text were derived. -/
theorem clausesF_derives_init {fuel : ℕ} {c' : Cursor} {clauses : List SourceClause}
    {ks : List TokenKind} (h : clausesF fuel c = (clauses, none, c'))
    (hks : c.kinds = ks ++ [.eof]) (hno : .eof ∉ ks) : Grammar.Clauses ks clauses := by
  obtain ⟨ts, hts, hno', hend, hclauses⟩ := clausesF_derives h
  rw [hks] at hts
  rcases hleft : c'.kinds with _ | ⟨k, us⟩
  · rw [hleft, List.append_nil] at hts
    exact absurd (hts ▸ List.mem_concat_self) hno'
  · -- the end mark comes first where the clauses end
    rw [Cursor.current_kind_of_cons hleft] at hend
    rw [hleft, hend, List.append_cons_inj_of_notMem hno List.not_mem_nil] at hts
    exact hts.1 ▸ hclauses

/-- **A text is refused where it can be finished**, and the error is told for the token there. -/
theorem clausesF_stops {fuel : ℕ} {clauses : List SourceClause} {e : ParseError} {c' : Cursor}
    (h : clausesF fuel c = (clauses, some e, c')) (he : e.Syntactic) :
    ∃ us, c.tokens = us ++ c'.tokens ∧ .eof ∉ us.map Token.kind ∧
      Finishable Text (us.map Token.kind) c'.current.kind ∧ e.position = c'.current.position := by
  induction fuel generalizing c clauses with
  | zero =>
      cases h
      exact absurd rfl he.1
  | succ fuel ih =>
      rw [clausesF] at h
      split at h
      · cases h
      · split at h
        · next hclause =>
          cases h
          obtain ⟨us, hus, heof, hfinish, -, hposition⟩ :=
            clause_passes _ c _ c' hclause (by rintro _ ⟨⟩; exact he)
          exact ⟨us, hus, heof, hfinish, hposition _ rfl⟩
        · next first c₁ hclause =>
          rcases hrest : clausesF fuel c₁ with ⟨rest, error, c₂⟩
          rw [hrest] at h
          cases h
          obtain ⟨us, hus, heof, -, hresult, -⟩ := clause_passes _ c _ c₁ hclause nofun
          obtain ⟨_, hfirst, -⟩ := hresult first rfl
          obtain ⟨vs, hvs, heof', hfinish, hposition⟩ := ih hrest
          refine ⟨us ++ vs, by simp [hus, hvs], by simp [heof, heof'], ?_, hposition⟩
          rw [List.map_append]
          refine hfinish.within _ [] (fun row hrow => ?_) trivial ?_
          · simpa using Text.cons hfirst.sentence hrow
          · rw [hfirst.getLast?]
            simp

end Reader

end RhythmLogic
