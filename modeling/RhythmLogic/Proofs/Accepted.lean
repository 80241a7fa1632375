/-
**What is derived is read.**

A row of tokens that the grammar derives is read by the rule of that name, whatever follows it, as
long as what follows does not carry on with the row.  The tree that is read is the one that was
derived, up to the numbers of anonymous variables; so all derivations of a row give the same tree.

The reader goes from left to right and holds a tree on its left, while a derivation takes the last
operand off.  The two meet when a rule is followed by what is to be read after it: an expression with
something behind it is read if the loop over operators, with the tree of the expression on its left,
reads what is behind.

At a parenthesis the reader tries a group of goals first.  If the row is a group, the attempt
succeeds.  If it is an expression, then the attempt succeeds as well, since what stands in the
parentheses is a goal; and the next token tells whether the expression goes on, in which case the
reader goes back, or ends there, and then the group is what the expression is.

Main definitions:

* `Reader.Reads` — a reading of tokens, whatever follows them;
* `Reader.Chains` — the reading of a row with loops over operators.

Main results:

* `Grammar.Expr.reads`, `Grammar.Test.unit_reads`, `Grammar.Goals.reads` — **expressions, tests and
  goals are read**;
* `clausesF_grammar` — **the reader accepts exactly the texts of the grammar**, and reads them as
  they are derived.
-/

import RhythmLogic.Proofs.Budgets

set_option autoImplicit false

namespace RhythmLogic

namespace Reader

variable {α β γ δ : Type} {ts us rest : List TokenKind} {k : TokenKind}

/-! ### Reading tokens -/

/-- **From every cursor before `ts` and `rest` a reading comes to `rest`**, and its result looks like
`v`. -/
def Reads (r : Reader α) (view : α → γ) (ts rest : List TokenKind) (v : γ) : Prop :=
  ∀ c : Cursor, c.kinds = ts ++ rest → ∃ a c', r c = (.ok a, c') ∧ c'.kinds = rest ∧ view a = v

namespace Reads

variable {view : α → γ} {view' : β → δ} {v : γ} {w : δ}

theorem pure {a : α} (h : view a = v) : Reads (pure a) view [] rest v :=
  fun c hc => ⟨a, c, rfl, hc, h⟩

theorem bind {r : Reader α} {f : α → Reader β} (hr : Reads r view ts (us ++ rest) v)
    (hf : ∀ a, view a = v → Reads (f a) view' us rest w) :
    Reads (r >>= f) view' (ts ++ us) rest w := by
  intro c hc
  obtain ⟨a, c₁, hread, hc₁, ha⟩ := hr c (by rw [hc, List.append_assoc])
  obtain ⟨b, c₂, hread', hc₂, hb⟩ := hf a ha c₁ hc₁
  exact ⟨b, c₂, by rw [bind_apply, hread]; exact hread', hc₂, hb⟩

/-- A reading after one that has passed all tokens. -/
theorem andThen {r : Reader α} {f : α → Reader β} (hr : Reads r view ts rest v)
    (hf : ∀ a, view a = v → Reads (f a) view' [] rest w) : Reads (r >>= f) view' ts rest w := by
  rw [← List.append_nil ts]
  exact .bind hr hf

theorem peek {f : Token → Reader β} (h : ∀ t : Token, t.kind = (ts ++ rest).headD .eof →
    Reads (f t) view' ts rest w) : Reads (peek >>= f) view' ts rest w :=
  fun c hc => h c.current (by rw [Cursor.current_kind, hc]) c hc

/-- The first token of a row is the one that is seen. -/
theorem peek_cons {f : Token → Reader β} (h : ∀ t : Token, t.kind = k →
    Reads (f t) view' (k :: ts) rest w) : Reads (Reader.peek >>= f) view' (k :: ts) rest w :=
  .peek h

/-- Behind a row, what follows is seen. -/
theorem peek_nil {f : Token → Reader β} (h : ∀ t : Token, t.kind = rest.headD .eof →
    Reads (f t) view' [] rest w) : Reads (Reader.peek >>= f) view' [] rest w :=
  .peek h

theorem advance {f : Unit → Reader β} (hk : k ≠ .eof) (h : Reads (f ()) view' ts rest w) :
    Reads (advance >>= f) view' (k :: ts) rest w :=
  fun c hc => h c.advance (Cursor.kinds_advance hc hk)

theorem eat {s : Sym} {f : Bool → Reader β} (h : Reads (f true) view' ts rest w) :
    Reads (eat s >>= f) view' (.symbol s :: ts) rest w := by
  intro c hc
  rw [eat_bind_apply, if_pos (Cursor.current_kind_of_cons hc)]
  exact h c.advance (Cursor.kinds_advance hc nofun)

theorem eat_not {s : Sym} {f : Bool → Reader β} (hs : (ts ++ rest).headD .eof ≠ .symbol s)
    (h : Reads (f false) view' ts rest w) : Reads (Reader.eat s >>= f) view' ts rest w := by
  intro c hc
  rw [eat_bind_apply, if_neg (by rwa [Cursor.current_kind, hc])]
  exact h c hc

theorem sees {s : Sym} {f : Bool → Reader β} (hs : (ts ++ rest).headD .eof = .symbol s)
    (h : Reads (f true) view' ts rest w) : Reads (Reader.sees s >>= f) view' ts rest w := by
  intro c hc
  rw [sees_bind_apply, decide_eq_true (by rwa [Cursor.current_kind, hc])]
  exact h c hc

theorem sees_not {s : Sym} {f : Bool → Reader β} (hs : (ts ++ rest).headD .eof ≠ .symbol s)
    (h : Reads (f false) view' ts rest w) : Reads (Reader.sees s >>= f) view' ts rest w := by
  intro c hc
  rw [sees_bind_apply, decide_eq_false (by rwa [Cursor.current_kind, hc])]
  exact h c hc

theorem expect {s : Sym} {f : Unit → Reader β} (h : Reads (f ()) view' ts rest w) :
    Reads (expect s >>= f) view' (.symbol s :: ts) rest w := by
  rw [Reader.expect, bind_assoc]
  exact .eat h

theorem build {t u : Term} {name : Option String} (h : t.unnumbered = u) :
    Reads (build t name) Term.unnumbered [] rest u :=
  fun c hc => ⟨t, c.count name, rfl, hc, h⟩

/-- A node takes no tokens. -/
theorem build_bind {t : Term} {name : Option String} {f : Term → Reader β}
    (h : Reads (f t) view' ts rest w) : Reads (Reader.build t name >>= f) view' ts rest w :=
  fun c hc => h (c.count name) hc

/-- A name is read as a term that it stands for. -/
theorem nameTerm {x : String} {t : Term} (h : Grammar.Named x t) :
    Reads (nameTerm x) Term.unnumbered [] rest t.unnumbered := by
  intro c hc
  obtain ⟨u, c', hread, hc', hu⟩ := nameTerm_apply x c
  have hrest : c'.kinds = rest := by rwa [Cursor.kinds, hc']
  exact ⟨u, c', hread, hrest, hu.unnumbered_eq h⟩

end Reads

/-! ### Chains of operands -/

section Chains

variable (whole : ℕ → Reader α) (loop : ℕ → β → Reader α) (look : β → γ) (view : α → γ)
  (Ends : TokenKind → Prop) (rank : ℕ)

/-- **A row is read up to any place behind it**: with enough budget, a rule reads a row and what is
behind it, if the loop of the rule, with the tree of the row on its left, reads what is behind. -/
def Chains (ts : List TokenKind) (w : γ) : Prop :=
  ∀ fuel us rest v, 8 * ts.length + rank ≤ fuel → Ends ((us ++ rest).headD .eof) →
    (∀ l f, look l = w → fuel ≤ f + ts.length + 1 → Reads (loop f l) view us rest v) →
    Reads (whole fuel) view (ts ++ us) rest v

variable {whole loop look view Ends rank}

/-- The first operand of a row. -/
theorem Chains.first {ts : List TokenKind} {w : γ} (hrank : 0 < rank)
    (h : ∀ f us rest v, 8 * ts.length + rank ≤ f + 1 → Ends ((us ++ rest).headD .eof) →
      (∀ l, look l = w → Reads (loop f l) view us rest v) →
      Reads (whole (f + 1)) view (ts ++ us) rest v) :
    Chains whole loop look view Ends rank ts w := by
  intro fuel us rest v hfuel hends hthen
  rcases fuel with _ | f
  · omega
  · exact h f us rest v hfuel hends fun l hl => hthen l f hl (by omega)

/-- One more operand. -/
theorem Chains.more {ls rs : List TokenKind} {k : TokenKind} {w w' : γ} (hrank : 0 < rank)
    (hls : Chains whole loop look view Ends rank ls w) (hk : Ends k)
    (h : ∀ l f us rest v, look l = w → 8 * rs.length + rank ≤ f → Ends ((us ++ rest).headD .eof) →
      (∀ l', look l' = w' → Reads (loop f l') view us rest v) →
      Reads (loop (f + 1) l) view (k :: (rs ++ us)) rest v) :
    Chains whole loop look view Ends rank (ls ++ k :: rs) w' := by
  intro fuel us rest v hfuel hends hthen
  simp only [List.length_append, List.length_cons] at hfuel hthen
  have hrest := hls fuel (k :: (rs ++ us)) rest v (by omega) hk ?_
  · simpa using hrest
  intro l f hl hf
  rcases f with _ | f
  · omega
  · exact h l f us rest v hl (by omega) hends fun l' hl' => hthen l' f hl' (by omega)

/-- The end of a row. -/
theorem Chains.reads {ts rest : List TokenKind} {w : γ} {fuel : ℕ}
    (h : Chains whole loop look view Ends rank ts w) (hrank : 2 ≤ rank)
    (hfuel : 8 * ts.length + rank ≤ fuel) (hends : Ends (rest.headD .eof))
    (hstop : ∀ l f, look l = w → Reads (loop (f + 1) l) view [] rest w) :
    Reads (whole fuel) view ts rest w := by
  have hwhole := h fuel [] rest w hfuel hends ?_
  · simpa using hwhole
  intro l f hl hf
  rcases f with _ | f
  · omega
  · exact hstop l f hl

end Chains

end Reader

namespace Grammar

open Reader

/-! ### What may follow -/

/-- A token that does not carry on with a factor. -/
def EndsFactor (k : TokenKind) : Prop := k ≠ .symbol .openParen

/-- A token that does not carry on with a product. -/
def EndsProduct (k : TokenKind) : Prop := EndsFactor k ∧ productOp? k = none

/-- A token that does not carry on with an expression. -/
def EndsExpr (k : TokenKind) : Prop := EndsProduct k ∧ sumOp? k = none

/-- A token that does not carry on with a test. -/
def EndsTest (k : TokenKind) : Prop := EndsExpr k ∧ comparison? k = none

/-- The symbols that may follow a goal or an argument. -/
def Closes (s : Sym) : Prop :=
  s = .comma ∨ s = .semicolon ∨ s = .bar ∨ s = .period ∨ s = .neck ∨ s = .closeParen ∨
    s = .closeBracket

theorem endsFactor_of_productOp {k : TokenKind} {op : Op} (h : productOp? k = some op) :
    EndsFactor k := by
  rintro rfl
  cases h

theorem endsProduct_of_sumOp {k : TokenKind} {op : Op} (h : sumOp? k = some op) :
    EndsProduct k := by
  cases k with
  | symbol s => cases s <;> cases h <;> exact ⟨nofun, rfl⟩
  | _ => cases h

theorem endsExpr_of_comparison {k : TokenKind} {name : String} (h : comparison? k = some name) :
    EndsExpr k := by
  cases k with
  | symbol s => cases s <;> cases h <;> exact ⟨⟨nofun, rfl⟩, rfl⟩
  | name => exact ⟨⟨nofun, rfl⟩, rfl⟩
  | _ => cases h

theorem Closes.endsTest {s : Sym} (h : Closes s) : EndsTest (.symbol s) := by
  rcases h with rfl | rfl | rfl | rfl | rfl | rfl | rfl <;> exact ⟨⟨⟨nofun, rfl⟩, rfl⟩, rfl⟩

theorem Closes.not_startsExpr {s : Sym} (h : Closes s) : ¬ StartsExpr (.symbol s) := by
  rcases h with rfl | rfl | rfl | rfl | rfl | rfl | rfl <;> simp [StartsExpr]

theorem EndsTest.not_continues {k : TokenKind} (h : EndsTest k) :
    continuesExpression k = false := by
  simp [continuesExpression, h.1.1.2, h.1.2, h.2]

/-! ### Expressions -/

theorem Primary.head_ne_minus {ts : List TokenKind} {t : Term} (h : Primary ts t)
    (rest : List TokenKind) : (ts ++ rest).headD .eof ≠ .symbol .minus := by
  cases h <;> exact nofun

theorem sumRest_reads {l : Term} {rest : List TokenKind} (f : ℕ)
    (hends : sumOp? (rest.headD .eof) = none) :
    Reads (sumRest (f + 1) l) Term.unnumbered [] rest l.unnumbered := by
  refine .peek_nil fun t ht => ?_
  simp only [ht, hends]
  exact .pure rfl

theorem productRest_reads {l : Term} {rest : List TokenKind} (f : ℕ)
    (hends : productOp? (rest.headD .eof) = none) :
    Reads (productRest (f + 1) l) Term.unnumbered [] rest l.unnumbered := by
  refine .peek_nil fun t ht => ?_
  simp only [ht, hends]
  exact .pure rfl

theorem itemsRest_reads {read : List Term} {rest : List TokenKind} (f : ℕ)
    (hends : rest.headD .eof ≠ .symbol .comma) :
    Reads (itemsRest (f + 1) read) (List.map Term.unnumbered) [] rest
      (read.reverse.map Term.unnumbered) :=
  .eat_not hends (.pure rfl)

/-- An expression that is read up to any place behind it is read. -/
theorem expression_reads {ts rest : List TokenKind} {w : Term} {fuel : ℕ}
    (h : Chains expression sumRest Term.unnumbered Term.unnumbered EndsProduct 4 ts w)
    (hfuel : 8 * ts.length + 4 ≤ fuel) (hends : EndsExpr (rest.headD .eof)) :
    Reads (expression fuel) Term.unnumbered ts rest w :=
  h.reads (by omega) hfuel hends.1 fun _ f hl => hl ▸ sumRest_reads f hends.2

/-- A product that is read up to any place behind it is read. -/
theorem product_reads {ts rest : List TokenKind} {w : Term} {fuel : ℕ}
    (h : Chains product productRest Term.unnumbered Term.unnumbered EndsFactor 3 ts w)
    (hfuel : 8 * ts.length + 3 ≤ fuel) (hends : EndsProduct (rest.headD .eof)) :
    Reads (product fuel) Term.unnumbered ts rest w :=
  h.reads (by omega) hfuel hends.1 fun _ f hl => hl ▸ productRest_reads f hends.2

mutual

/-- **An expression is read up to any place behind it.** -/
theorem Expr.chains {ts : List TokenKind} {t : Term} : Expr ts t →
    Chains expression sumRest Term.unnumbered Term.unnumbered EndsProduct 4 ts t.unnumbered
  | .product h => by
      refine .first (by omega) fun f us rest v hf hends hthen => ?_
      exact Reads.bind (product_reads h.chains (by omega) hends) hthen
  | .sum hl hk hr => by
      refine hl.chains.more (by omega) (endsProduct_of_sumOp hk) ?_
      intro left f us rest v hleft hf hends hthen
      refine .peek_cons fun t ht => ?_
      simp only [ht, hk]
      refine .advance (by rintro rfl; cases hk)
        (.bind (product_reads hr.chains (by omega) hends) fun right hright => ?_)
      refine .build_bind (hthen _ ?_)
      rw [Term.unnumbered_expr, hleft, hright, Term.unnumbered_expr]

theorem Product.chains {ts : List TokenKind} {t : Term} : Product ts t →
    Chains product productRest Term.unnumbered Term.unnumbered EndsFactor 3 ts t.unnumbered
  | .factor h => by
      refine .first (by omega) fun f us rest v hf hends hthen => ?_
      exact Reads.bind (h.reads f _ (by omega) hends) hthen
  | .product hl hk hr => by
      refine hl.chains.more (by omega) (endsFactor_of_productOp hk) ?_
      intro left f us rest v hleft hf hends hthen
      refine .peek_cons fun t ht => ?_
      simp only [ht, hk]
      refine .advance (by rintro rfl; cases hk)
        (.bind (hr.reads f _ (by omega) hends) fun right hright => ?_)
      refine .build_bind (hthen _ ?_)
      rw [Term.unnumbered_expr, hleft, hright, Term.unnumbered_expr]

theorem Factor.reads {ts : List TokenKind} {t : Term} : Factor ts t →
    ∀ fuel rest, 8 * ts.length + 2 ≤ fuel → EndsFactor (rest.headD .eof) →
      Reads (factor fuel) Term.unnumbered ts rest t.unnumbered
  | .primary h => by
      intro fuel rest hfuel hends
      obtain ⟨f, rfl⟩ : ∃ f, fuel = f + 1 := ⟨fuel - 1, by omega⟩
      exact .eat_not (h.head_ne_minus rest) (h.reads f rest (by omega) hends)
  | .literal x => by
      intro fuel rest hfuel _
      obtain ⟨f, rfl⟩ : ∃ f, fuel = f + 1 := ⟨fuel - 1, by omega⟩
      refine .eat (.peek_cons fun t ht => ?_)
      simp only [ht]
      exact .advance nofun (.build rfl)
  | .minus h hnumber => by
      intro fuel rest hfuel hends
      obtain ⟨f, rfl⟩ : ∃ f, fuel = f + 1 := ⟨fuel - 1, by omega⟩
      rw [List.length_cons] at hfuel
      refine .eat (.peek fun t ht => ?_)
      split
      · next x hx =>
        obtain ⟨k, us, rfl, -⟩ := h.starts
        rw [hx] at ht
        exact absurd (congrArg some ht.symm) (hnumber x)
      · refine .andThen (h.reads f rest (by omega) hends) fun operand hoperand => ?_
        refine .build_bind (.build ?_)
        rw [Term.unnumbered_expr, hoperand, Term.unnumbered_expr]

theorem Primary.reads {ts : List TokenKind} {t : Term} : Primary ts t →
    ∀ fuel rest, 8 * ts.length + 1 ≤ fuel → EndsFactor (rest.headD .eof) →
      Reads (primary fuel) Term.unnumbered ts rest t.unnumbered
  | .number x => by
      intro fuel rest hfuel _
      obtain ⟨f, rfl⟩ : ∃ f, fuel = f + 1 := ⟨fuel - 1, by omega⟩
      refine .peek_cons fun t ht => ?_
      simp only [ht]
      exact .advance nofun (.build rfl)
  | .name h => by
      intro fuel rest hfuel hends
      obtain ⟨f, rfl⟩ : ∃ f, fuel = f + 1 := ⟨fuel - 1, by omega⟩
      refine .peek_cons fun t ht => ?_
      simp only [ht]
      exact .advance nofun (.eat_not hends (.nameTerm h))
  | .call h => by
      intro fuel rest hfuel _
      obtain ⟨f, rfl⟩ : ∃ f, fuel = f + 1 := ⟨fuel - 1, by omega⟩
      simp only [List.length_cons, List.length_append] at hfuel
      refine .peek_cons fun t ht => ?_
      simp only [ht]
      refine .advance nofun (.eat (.bind (h.reads f _ rest (by omega) (.inl rfl))
        fun args hargs => .expect (.build ?_)))
      rw [Term.unnumbered_compound, hargs, Term.unnumbered_compound]
  | @Primary.list _ listed h => by
      intro fuel rest hfuel _
      obtain ⟨f, rfl⟩ : ∃ f, fuel = f + 1 := ⟨fuel - 1, by omega⟩
      simp only [List.length_cons, List.length_append] at hfuel
      refine .peek_cons fun t ht => ?_
      simp only [ht]
      refine .advance nofun (.bind (h.reads f _ rest (by omega) (.inr rfl)) ?_)
      intro members hmembers
      have hlist : (Term.list members).unnumbered = (Term.list listed).unnumbered := by
        rw [Term.unnumbered_list, hmembers, Term.unnumbered_list]
      -- a bar is only looked for behind an item, and here there is none in either case
      split
      · exact .expect (.build hlist)
      · exact .eat_not nofun (.expect (.build hlist))
  | .partialList h h' => by
      intro fuel rest hfuel _
      obtain ⟨f, rfl⟩ : ∃ f, fuel = f + 1 := ⟨fuel - 1, by omega⟩
      simp only [List.length_cons, List.length_append] at hfuel
      refine .peek_cons fun t ht => ?_
      simp only [ht]
      have hbar : Closes .bar := .inr (.inr (.inl rfl))
      have hclose : Closes .closeBracket := by simp [Closes]
      refine .advance nofun (.bind ((h.chains .closeBracket hclose.not_startsExpr).reads (by omega)
        (by omega) hbar.endsTest.1 fun l g hl => hl ▸ itemsRest_reads g nofun)
        fun members hmembers => ?_)
      have hne : members.isEmpty ≠ true := by
        rintro hempty
        rw [List.isEmpty_iff.1 hempty] at hmembers
        exact h.ne_nil (List.map_eq_nil_iff.1 hmembers.symm)
      rw [if_neg hne]
      refine .eat (.bind (expression_reads h'.chains (by omega) hclose.endsTest.1)
        fun tail htail => .expect (.build ?_))
      rw [Term.unnumbered_partialList, hmembers, htail, Term.unnumbered_partialList]
  | .group h => by
      intro fuel rest hfuel _
      obtain ⟨f, rfl⟩ : ∃ f, fuel = f + 1 := ⟨fuel - 1, by omega⟩
      simp only [List.length_cons, List.length_append] at hfuel
      refine .peek_cons fun t ht => ?_
      simp only [ht]
      have hclose : Closes .closeParen := by simp [Closes]
      exact .advance nofun (.bind (expression_reads h.chains (by omega) hclose.endsTest.1)
        fun inner hinner => .expect (.pure hinner))

theorem Items.reads {ts : List TokenKind} {items : List Term} : Items ts items →
    ∀ fuel close rest, 8 * ts.length + 5 ≤ fuel → close = .closeParen ∨ close = .closeBracket →
      Reads (Reader.items fuel close) (List.map Term.unnumbered) ts (.symbol close :: rest)
        (items.map Term.unnumbered)
  | .none => by
      intro fuel close rest hfuel _
      obtain ⟨f, rfl⟩ : ∃ f, fuel = f + 1 := ⟨fuel - 1, by omega⟩
      exact .sees rfl (.pure rfl)
  | .some h => by
      intro fuel close rest hfuel hclose
      have hcloses : Closes close := by
        rcases hclose with rfl | rfl <;> simp [Closes]
      refine (h.chains close hcloses.not_startsExpr).reads (by omega) hfuel hcloses.endsTest.1
        fun l g hl => hl ▸ itemsRest_reads g ?_
      rcases hclose with rfl | rfl <;> exact nofun

theorem Exprs.chains {ts : List TokenKind} {items : List Term} : Exprs ts items →
    ∀ close, ¬ StartsExpr (.symbol close) →
      Chains (fun f => Reader.items f close) itemsRest
        (fun read => read.reverse.map Term.unnumbered) (List.map Term.unnumbered) EndsExpr 5 ts
        (items.map Term.unnumbered)
  | .one h => by
      intro close hclose
      refine .first (by omega) fun f us rest v hf hends hthen => ?_
      refine .sees_not ?_ (.bind (expression_reads h.chains (by omega) hends)
        fun first hfirst => hthen [first] ?_)
      · rw [List.append_assoc]
        exact h.starts.head_ne hclose _
      · simpa using hfirst
  | .more h h' => by
      intro close hclose
      refine (h.chains close hclose).more (by omega) (Closes.endsTest (.inl rfl)).1 ?_
      intro read f us rest v hread hf hends hthen
      refine .eat (.bind (expression_reads h'.chains (by omega) hends)
        fun next hnext => hthen (next :: read) ?_)
      simpa [hnext] using hread

end

/-- **An expression is read.** -/
theorem Expr.reads {ts rest : List TokenKind} {t : Term} {fuel : ℕ} (h : Expr ts t)
    (hfuel : 8 * ts.length + 4 ≤ fuel) (hends : EndsExpr (rest.headD .eof)) :
    Reads (expression fuel) Term.unnumbered ts rest t.unnumbered :=
  expression_reads h.chains hfuel hends

/-! ### Tests -/

/-- **A test is read**, where no group of goals is tried. -/
theorem Test.reads {ts rest : List TokenKind} {g : GoalTree} {fuel : ℕ} (h : Test ts g)
    (hfuel : 8 * ts.length + 4 ≤ fuel) (hends : EndsTest (rest.headD .eof)) :
    Reads (test fuel) GoalTree.unnumbered ts rest g.unnumbered := by
  cases h with
  | call h =>
      refine .andThen (h.reads hfuel hends.1) fun left hleft => .peek_nil fun t ht => ?_
      simp only [ht, hends.2]
      exact .pure (congrArg GoalTree.call hleft)
  | comparison hl hk hr =>
      simp only [List.length_cons, List.length_append] at hfuel
      refine .bind (hl.reads (by omega) (endsExpr_of_comparison hk)) fun left hleft => ?_
      refine .peek_cons fun t ht => ?_
      simp only [ht, hk]
      refine .advance (by rintro rfl; cases hk) ?_
      refine .andThen (hr.reads (by omega) hends.1) fun right hright => ?_
      refine .build_bind (.pure (congrArg GoalTree.call ?_))
      simp [Term.unnumbered_compound, hleft, hright]

theorem conjunctionRest_reads {l : GoalTree} {rest : List TokenKind} (f : ℕ)
    (hends : rest.headD .eof ≠ .symbol .comma) :
    Reads (conjunctionRest (f + 1) l) GoalTree.unnumbered [] rest l.unnumbered :=
  .eat_not hends (.pure rfl)

theorem goalsRest_reads {l : GoalTree} {rest : List TokenKind} (f : ℕ)
    (hends : rest.headD .eof ≠ .symbol .semicolon) :
    Reads (goalsRest (f + 1) l) GoalTree.unnumbered [] rest l.unnumbered :=
  .eat_not hends (.pure rfl)

/-- A group is read if its goals are. -/
theorem group_reads {ts rest : List TokenKind} {g : GoalTree} {f : ℕ}
    (h : Reads (goals f) GoalTree.unnumbered ts (.symbol .closeParen :: rest) g) :
    Reads (group f) GoalTree.unnumbered (ts ++ [.symbol .closeParen]) rest g :=
  .bind h fun _ hinner => .expect (.pure hinner)

/-- A group of one goal is read if the goal is. -/
theorem group_reads_of_unit {ts rest : List TokenKind} {g : GoalTree} {f : ℕ}
    (h : Reads (unit (f + 1)) GoalTree.unnumbered ts (.symbol .closeParen :: rest) g) :
    Reads (group (f + 3)) GoalTree.unnumbered (ts ++ [.symbol .closeParen]) rest g := by
  have hconjunction : Reads (conjunction (f + 2)) GoalTree.unnumbered ts
      (.symbol .closeParen :: rest) g :=
    .andThen h fun l hl => hl ▸ conjunctionRest_reads f nofun
  exact group_reads (.andThen hconjunction fun l hl => hl ▸ goalsRest_reads (f + 1) nofun)

/-- **A test is read where a goal may start.**  Before a parenthesis, the group that is tried is
read, since the expression in it is a goal; and what comes after it tells whether it is the test. -/
theorem Test.unit_reads {ts rest : List TokenKind} {g : GoalTree} {fuel : ℕ} (h : Test ts g)
    (hfuel : 8 * ts.length + 5 ≤ fuel) (hends : EndsTest (rest.headD .eof)) :
    Reads (unit fuel) GoalTree.unnumbered ts rest g.unnumbered := by
  induction hlength : ts.length using Nat.strongRecOn generalizing ts rest g fuel with
  | ind n ih =>
  obtain ⟨f, rfl⟩ : ∃ f, fuel = f + 1 := ⟨fuel - 1, by omega⟩
  by_cases hparen : ∃ us, ts = .symbol .openParen :: us
  · obtain ⟨us, rfl⟩ := hparen
    obtain ⟨inner, vs, u, hinner, rfl, hvs⟩ := h.split_group us rfl
    simp only [List.length_cons, List.length_append] at hfuel hlength
    obtain ⟨f, rfl⟩ : ∃ f', f = f' + 3 := ⟨f - 3, by omega⟩
    have hclose : Closes .closeParen := by simp [Closes]
    have hunit : Reads (unit (f + 1)) GoalTree.unnumbered inner
        (.symbol .closeParen :: (vs ++ rest)) (GoalTree.call u).unnumbered :=
      ih inner.length (by omega) (.call hinner) (by omega) hclose.endsTest rfl
    have hgroup := group_reads_of_unit hunit
    have htest : Reads (test (f + 3)) GoalTree.unnumbered _ rest g.unnumbered :=
      h.reads (by simp only [List.length_cons, List.length_append]; omega) hends
    intro c hc
    have hadvance : c.advance.kinds = (inner ++ [.symbol .closeParen]) ++ (vs ++ rest) := by
      rw [Cursor.kinds_advance hc nofun]
      simp
    obtain ⟨made, c₁, hmade, hc₁, hu⟩ := hgroup c.advance hadvance
    rw [unit_paren _ (Cursor.current_kind_of_cons hc), grouped_of_ok _ hmade]
    obtain ⟨rfl, rfl⟩ | ⟨k, ws, rfl, hk⟩ := hvs
    · rw [Cursor.current_kind, hc₁, List.nil_append, hends.not_continues, if_neg Bool.false_ne_true]
      exact ⟨made, c₁, rfl, hc₁, hu⟩
    · rw [Cursor.current_kind_of_cons hc₁, if_pos hk]
      exact htest _ hc
  · have hhead : ∀ s, s = .not ∨ s = .openParen → (ts ++ rest).headD .eof ≠ .symbol s := by
      rintro s (rfl | rfl)
      · exact h.starts.head_ne (by simp [StartsExpr]) rest
      · obtain ⟨k, us, rfl, -⟩ := h.starts
        rintro rfl
        exact hparen ⟨us, rfl⟩
    refine .eat_not (hhead _ (.inl rfl)) ?_
    rw [if_neg Bool.false_ne_true]
    exact .sees_not (hhead _ (.inr rfl)) (h.reads (by omega) hends)

/-! ### Goals -/

/-- A token that does not carry on with a conjunction. -/
def EndsConjunction (k : TokenKind) : Prop := EndsTest k ∧ k ≠ .symbol .comma

/-- A token that does not carry on with goals. -/
def EndsGoals (k : TokenKind) : Prop := EndsConjunction k ∧ k ≠ .symbol .semicolon

/-- A conjunction that is read up to any place behind it is read. -/
theorem conjunction_reads {ts rest : List TokenKind} {w : GoalTree} {fuel : ℕ}
    (h : Chains conjunction conjunctionRest GoalTree.unnumbered GoalTree.unnumbered EndsTest 6 ts w)
    (hfuel : 8 * ts.length + 6 ≤ fuel) (hends : EndsConjunction (rest.headD .eof)) :
    Reads (conjunction fuel) GoalTree.unnumbered ts rest w :=
  h.reads (by omega) hfuel hends.1 fun _ f hl => hl ▸ conjunctionRest_reads f hends.2

/-- Goals that are read up to any place behind them are read. -/
theorem goals_reads {ts rest : List TokenKind} {w : GoalTree} {fuel : ℕ}
    (h : Chains goals goalsRest GoalTree.unnumbered GoalTree.unnumbered EndsConjunction 7 ts w)
    (hfuel : 8 * ts.length + 7 ≤ fuel) (hends : EndsGoals (rest.headD .eof)) :
    Reads (goals fuel) GoalTree.unnumbered ts rest w :=
  h.reads (by omega) hfuel hends.1 fun _ f hl => hl ▸ goalsRest_reads f hends.2

mutual

/-- **Goals are read up to any place behind them.** -/
theorem Goals.chains {ts : List TokenKind} {g : GoalTree} : Goals ts g →
    Chains goals goalsRest GoalTree.unnumbered GoalTree.unnumbered EndsConjunction 7 ts g.unnumbered
  | .conjunction h => by
      refine .first (by omega) fun f us rest v hf hends hthen => ?_
      exact Reads.bind (conjunction_reads h.chains (by omega) hends) hthen
  | .either hl hr => by
      have hsemicolon : Closes .semicolon := by simp [Closes]
      refine hl.chains.more (by omega) ⟨hsemicolon.endsTest, nofun⟩ ?_
      intro left f us rest v hleft hf hends hthen
      refine .eat (.bind (conjunction_reads hr.chains (by omega) hends)
        fun right hright => hthen _ ?_)
      rw [GoalTree.unnumbered, hleft, hright, GoalTree.unnumbered]

theorem Conjunction.chains {ts : List TokenKind} {g : GoalTree} : Conjunction ts g →
    Chains conjunction conjunctionRest GoalTree.unnumbered GoalTree.unnumbered EndsTest 6 ts
      g.unnumbered
  | .unit h => by
      refine .first (by omega) fun f us rest v hf hends hthen => ?_
      exact Reads.bind (h.reads f _ (by omega) hends) hthen
  | .both hl hr => by
      refine hl.chains.more (by omega) (Closes.endsTest (.inl rfl)) ?_
      intro left f us rest v hleft hf hends hthen
      refine .eat (.bind (hr.reads f _ (by omega) hends) fun right hright => hthen _ ?_)
      rw [GoalTree.unnumbered, hleft, hright, GoalTree.unnumbered]

/-- **A goal is read**: a group is kept, since no operator follows it. -/
theorem Unit.reads {ts : List TokenKind} {g : GoalTree} : Grammar.Unit ts g →
    ∀ fuel rest, 8 * ts.length + 5 ≤ fuel → EndsTest (rest.headD .eof) →
      Reads (unit fuel) GoalTree.unnumbered ts rest g.unnumbered
  | .negation h => by
      intro fuel rest hfuel hends
      obtain ⟨f, rfl⟩ : ∃ f, fuel = f + 1 := ⟨fuel - 1, by omega⟩
      rw [List.length_cons] at hfuel
      refine .eat (.andThen (h.reads f rest (by omega) hends) fun inner hinner => .pure ?_)
      rw [GoalTree.unnumbered, hinner, GoalTree.unnumbered]
  | .group h => by
      intro fuel rest hfuel hends c hc
      obtain ⟨f, rfl⟩ : ∃ f, fuel = f + 1 := ⟨fuel - 1, by omega⟩
      simp only [List.length_cons, List.length_append] at hfuel
      have hclose : Closes .closeParen := by simp [Closes]
      have hgoals : Reads (goals f) GoalTree.unnumbered _ (.symbol .closeParen :: rest) _ :=
        goals_reads h.chains (by omega) ⟨⟨hclose.endsTest, nofun⟩, nofun⟩
      obtain ⟨made, c₁, hmade, hc₁, hu⟩ :=
        group_reads hgoals c.advance (Cursor.kinds_advance hc nofun)
      rw [unit_paren _ (Cursor.current_kind_of_cons hc), grouped_of_ok _ hmade]
      rw [Cursor.current_kind, hc₁, hends.not_continues, if_neg Bool.false_ne_true]
      exact ⟨made, c₁, rfl, hc₁, hu⟩
  | .test h => fun _ _ hfuel hends => h.unit_reads hfuel hends

end

/-- **Goals are read.** -/
theorem Goals.reads {ts rest : List TokenKind} {g : GoalTree} {fuel : ℕ} (h : Goals ts g)
    (hfuel : 8 * ts.length + 7 ≤ fuel) (hends : EndsGoals (rest.headD .eof)) :
    Reads (goals fuel) GoalTree.unnumbered ts rest g.unnumbered :=
  goals_reads h.chains hfuel hends

/-! ### Clauses -/

/-- A clause starts like an expression. -/
theorem Clause.starts {ts : List TokenKind} {c : SourceClause} (h : Clause ts c) : Starts ts := by
  cases h with
  | fact h | rule h => exact h.starts.append _

/-- **A clause is read.** -/
theorem Clause.reads {ts rest : List TokenKind} {c : SourceClause} {fuel : ℕ} (h : Clause ts c)
    (hfuel : 8 * ts.length + 7 ≤ fuel) :
    Reads (clause fuel) SourceClause.unnumbered ts rest c.unnumbered := by
  have hneck : Closes .neck := by simp [Closes]
  have hperiod : Closes .period := by simp [Closes]
  refine .peek fun first _ => ?_
  have hcalled : ∀ {t head : Term}, t.functor?.isSome = true → head.unnumbered = t.unnumbered →
      head.functor?.isNone = false := by
    intro t head ht hhead
    rw [← head.functor?_unnumbered, hhead, t.functor?_unnumbered]
    simpa [Option.isSome_iff_ne_none] using ht
  cases h with
  | fact h ht =>
      simp only [List.length_cons, List.length_append] at hfuel
      refine .bind (h.reads (by omega) hperiod.endsTest.1) fun head hhead => ?_
      rw [hcalled ht hhead, if_neg Bool.false_ne_true]
      refine .eat_not nofun ?_
      rw [if_neg Bool.false_ne_true, pure_bind]
      refine .expect (.pure ?_)
      simp [SourceClause.unnumbered, hhead]
  | rule h ht hg =>
      simp only [List.length_cons, List.length_append] at hfuel
      refine .bind (h.reads (by omega) hneck.endsTest.1) fun head hhead => ?_
      rw [hcalled ht hhead, if_neg Bool.false_ne_true]
      refine .eat ?_
      rw [if_pos rfl, bind_assoc]
      refine .bind (hg.reads (by omega) ⟨⟨hperiod.endsTest, nofun⟩, nofun⟩) fun tree htree => ?_
      rw [pure_bind]
      refine .expect (.pure ?_)
      simp [SourceClause.unnumbered, hhead, htree]

/-- **A derived text is read to its end.** -/
theorem Clauses.reads {ts : List TokenKind} {cs : List SourceClause} (h : Clauses ts cs) {c : Cursor}
    {fuel : ℕ} (hc : c.kinds = ts ++ [.eof]) (hfuel : ts.length < fuel) :
    ∃ read c', clausesF fuel c = (read, none, c') ∧
      read.map SourceClause.unnumbered = cs.map SourceClause.unnumbered := by
  induction h generalizing c fuel with
  | nil =>
      obtain ⟨f, rfl⟩ : ∃ f, fuel = f + 1 := ⟨fuel - 1, by omega⟩
      exact ⟨[], c, by rw [clausesF, if_pos (Cursor.current_kind_of_cons hc)], rfl⟩
  | @cons ts us first cs hfirst hclauses ih =>
      obtain ⟨f, rfl⟩ : ∃ f, fuel = f + 1 := ⟨fuel - 1, by omega⟩
      obtain ⟨k, vs, rfl, hk⟩ := hfirst.starts
      have hne : c.current.kind ≠ .eof := by
        rw [Cursor.current_kind_of_cons hc]
        rintro rfl
        exact hk
      have hlength := congrArg List.length hc
      simp only [Cursor.kinds, List.length_map, List.length_append] at hlength
      have hbudget : 8 * (k :: vs).length + 7 ≤ budget c.tokens := by
        unfold budget
        omega
      rw [List.append_assoc] at hc
      obtain ⟨one, c₁, hone, hc₁, hview⟩ := hfirst.reads hbudget c hc
      rw [List.length_append, List.length_cons] at hfuel
      have hrest : us.length < f := by omega
      obtain ⟨others, c₂, hothers, hviews⟩ := ih hc₁ hrest
      refine ⟨one :: others, c₂, ?_, ?_⟩
      · rw [clausesF, if_neg hne, hone]
        dsimp only
        rw [hothers]
      · rw [List.map_cons, List.map_cons, hview, hviews]

end Grammar

/-! ### Texts -/

namespace Reader

/-- **The reader accepts exactly the texts of the grammar.**  It comes to an end with the budgets
that it has, which no larger ones would change.  It reads a row of tokens without an error if and
only if clauses can be derived from it; it reads one of the derivations then, and all of them are
equal up to the numbers of their anonymous variables. -/
theorem clausesF_grammar {init : List Token} (hinit : ∀ t ∈ init, t.kind ≠ .eof) (p : Position) :
    let c := Cursor.before (init ++ [⟨.eof, p⟩])
    let read := clausesF (init.length + 2) c
    ((∀ fuel, init.length + 2 ≤ fuel → clausesF fuel c = read) ∧
      (∀ (c : Cursor) (fuel : ℕ), budget c.tokens ≤ fuel →
        clause fuel c = clause (budget c.tokens) c) ∧
      ∀ e, read.2.1 = some e → e.cause ≠ .tooDeep) ∧
    (read.2.1 = none ↔ ∃ cs, Grammar.Clauses (init.map Token.kind) cs) ∧
    (read.2.1 = none → Grammar.Clauses (init.map Token.kind) read.1) ∧
    ∀ cs, Grammar.Clauses (init.map Token.kind) cs →
      cs.map SourceClause.unnumbered = read.1.map SourceClause.unnumbered := by
  intro c read
  have hkinds : c.kinds = init.map Token.kind ++ [.eof] := by
    simp [c, Cursor.kinds, Cursor.before]
  have hlength : c.tokens.length = init.length + 1 := by
    simp [c, Cursor.before]
  have hderives : read.2.1 = none → Grammar.Clauses (init.map Token.kind) read.1 := by
    intro hread
    have hok : clausesF (init.length + 2) c = (read.1, none, read.2.2) := by rw [← hread]
    obtain ⟨ts, hts, heof, hend, hclauses⟩ := clausesF_derives hok
    rcases hleft : read.2.2.kinds with _ | ⟨k, us⟩
    · rw [hleft, List.append_nil, hkinds] at hts
      exact absurd (hts ▸ List.mem_concat_self) heof
    · rw [Cursor.current_kind_of_cons hleft] at hend
      -- the end mark stands at the end only, so the clauses take all tokens before it
      rw [hkinds, hleft, hend, List.append_cons_inj_of_notMem (by simpa using hinit)
        List.not_mem_nil] at hts
      rw [hts.1]
      exact hclauses
  have hreads : ∀ cs, Grammar.Clauses (init.map Token.kind) cs → read.2.1 = none ∧
      cs.map SourceClause.unnumbered = read.1.map SourceClause.unnumbered := by
    intro cs hcs
    have hfuel : (init.map Token.kind).length < init.length + 2 := by simp
    obtain ⟨out, c', hout, hview⟩ := hcs.reads hkinds hfuel
    have hread : read = (out, none, c') := hout
    rw [hread]
    exact ⟨rfl, hview.symm⟩
  refine ⟨⟨?_, ?_, ?_⟩, ?_, hderives, fun cs hcs => (hreads cs hcs).2⟩
  · intro fuel hfuel
    exact (clausesF_settled (by omega) (by omega)).1
  · intro c fuel hfuel
    exact (clause_settled hfuel).1
  · have hbudget : c.tokens.length < init.length + 2 := by omega
    exact (clausesF_settled hbudget hbudget).2
  · refine ⟨fun hread => ⟨_, hderives hread⟩, ?_⟩
    rintro ⟨cs, hcs⟩
    exact (hreads cs hcs).1

/-- `p :- (X + Y) > Z, (q ; r).` has a derivation, where the one parenthesis is an expression and
the other a group. -/
theorem clausesF_grammar_parentheses :
    let kinds : List TokenKind :=
      [.name "p", .symbol .neck,
        .symbol .openParen, .name "X", .symbol .plus, .name "Y", .symbol .closeParen,
        .symbol .greater, .name "Z", .symbol .comma,
        .symbol .openParen, .name "q", .symbol .semicolon, .name "r", .symbol .closeParen,
        .symbol .period]
    let init := kinds.map fun k => Token.mk k .start
    (∀ t ∈ init, t.kind ≠ .eof) ∧ ∃ cs, Grammar.Clauses (init.map Token.kind) cs := by
  intro kinds init
  have hinit : ∀ t ∈ init, t.kind ≠ .eof := by decide +kernel
  have hread : (clausesF (init.length + 2) (.before (init ++ [⟨.eof, .start⟩]))).2.1.isNone := by
    decide +kernel
  exact ⟨hinit, (clausesF_grammar hinit .start).2.1.1 (Option.isNone_iff_eq_none.1 hread)⟩

end Reader

end RhythmLogic
