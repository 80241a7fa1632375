/-
**What texts are read as.**

The completeness of the search asks for three things that the search does not check: no name of a
trial that is to come, and no list with a tail but without items, neither in the program nor in the
query.  The reader sees to all of them.  A variable is either spelled in the text, with letters,
digits and underscores, or it is anonymous and gets a name with a number sign; neither has the sign
that goes before the number of a trial.  And a bar is only looked for after an item.

What is read was derived, so this is a property of the grammar: where the names of a row are spelled,
the row derives readable terms only.

Main definitions:

* `Token.Spelled`, `NamesSpelled` — names are made of the characters of names;
* `Term.Readable` — a term that a text can be read as;
* `GoalTree.Everywhere` — a property of all parts of the terms in a tree of goals.

Main results:

* `tokenize_spelled` — the names among the tokens of a text are spelled;
* `Grammar.Expr.readable`, `Grammar.Goals.readable` — **spelled rows derive readable terms**;
* `parseProgram_readable`, `parseQuery_readable` — **programs and queries mention readable terms
  only**;
* `Term.Readable.ne_renamed` — a readable variable is not one of a trial.
-/

import Mathlib.Data.List.TakeWhile
import RhythmLogic.Proofs.Derivations
import RhythmLogic.Proofs.Derived
import RhythmLogic.Proofs.Renaming
import RhythmLogic.Program.Reading

set_option autoImplicit false

namespace RhythmLogic

open Term

/-! ### Names -/

/-- A name is made of the characters of names. -/
def Token.Spelled (t : Token) : Prop :=
  ∀ name, t.kind = .name name → ∀ c ∈ name.toList, isNameChar c = true

/-- All names in a row are spelled. -/
def NamesSpelled (ts : List TokenKind) : Prop :=
  ∀ name, .name name ∈ ts → ∀ c ∈ name.toList, isNameChar c = true

theorem NamesSpelled.mono {ts us : List TokenKind} (h : NamesSpelled ts)
    (hus : ∀ k ∈ us, k ∈ ts) : NamesSpelled us :=
  fun name hname => h name (hus _ hname)

/-- A term that a text can be read as: variables are spelled or anonymous, and a list with a tail
has an item. -/
def Term.Readable : Term → Prop
  | .var x => (∀ c ∈ x.toList, isNameChar c = true) ∨ ∃ n, x = Reader.anonymousName n
  | .partialList items _ => items ≠ []
  | _ => True

/-- **A readable variable does not have a name of a trial.** -/
theorem Term.Readable.ne_renamed {x : String} (h : (Term.var x).Readable) (n : Nat) (w : String) :
    x ≠ renamed n w := by
  intro hx
  have hdollar : '$' ∈ x.toList := hx ▸ dollar_mem_renamed n w
  rcases h with h | ⟨m, rfl⟩
  · have := h _ hdollar
    revert this
    decide
  · simp only [Reader.anonymousName, naturalText, String.toList_append, String.toList_ofList,
      List.mem_append] at hdollar
    rcases hdollar with hdollar | hdollar
    · revert hdollar
      decide
    · exact dollar_notMem_decimalText m hdollar

/-! ### Tokens -/

/-- The name at the start of a text is spelled. -/
theorem lexemeAt_spelled {c : Char} {cs : List Char} {l : Lexeme} {p : Position}
    (h : lexemeAt c cs = .ok l) : (Token.mk l.kind p).Spelled := by
  rintro name hname d hd
  rw [lexemeAt] at h
  split_ifs at h with hdigit hstart
  · dsimp only at h
    split at h <;> cases h
    cases hname
  · cases h
    cases hname
    rw [String.toList_ofList, List.mem_cons] at hd
    rcases hd with rfl | hd
    · simp only [isNameStart, Bool.or_eq_true] at hstart
      simp only [isNameChar, Char.isAlphanum, Bool.or_eq_true]
      exact hstart.imp_left .inl
    · exact List.mem_takeWhile_imp hd
  · split at h <;> cases h
    cases hname

/-- **The names among the tokens of a text are spelled.** -/
theorem tokenizeF_spelled {fuel : Nat} {p : Position} {cs : List Char} {tokens : List Token}
    (h : tokenizeF fuel p cs = .ok tokens) : ∀ t ∈ tokens, t.Spelled := by
  induction fuel generalizing p cs tokens with
  | zero => cases h
  | succ fuel ih =>
      rw [tokenizeF] at h
      split at h
      · cases h
        simp [Token.Spelled]
      · split at h
        · cases h
        · next l hl =>
          split at h
          · cases h
          · next rest hrest =>
            cases h
            exact List.forall_mem_cons.2 ⟨lexemeAt_spelled hl, ih hrest⟩

theorem tokenize_spelled {cs : List Char} {tokens : List Token} (h : tokenize cs = .ok tokens) :
    ∀ t ∈ tokens, t.Spelled := tokenizeF_spelled h

theorem namesSpelled_of_tokenize {cs : List Char} {tokens : List Token}
    (h : tokenize cs = .ok tokens) : NamesSpelled (Cursor.before tokens).kinds := by
  intro name hname
  obtain ⟨t, ht, hkind⟩ := List.mem_map.1 hname
  exact tokenize_spelled h t ht name hkind

/-! ### Expressions -/

namespace Grammar

theorem Named.readable {x : String} {t : Term} (h : Named x t)
    (hx : ∀ c ∈ x.toList, isNameChar c = true) : t.Everywhere Readable := by
  rcases h with n | _ | _
  · exact everywhere_var.2 (.inr ⟨n, rfl⟩)
  · exact everywhere_var.2 (.inl hx)
  · exact everywhere_atom.2 trivial

mutual

/-- **A spelled row derives a readable term.** -/
theorem Expr.readable {ts : List TokenKind} {t : Term} :
    Expr ts t → NamesSpelled ts → t.Everywhere Readable
  | .product h, hs => h.readable hs
  | .sum hl _ hr, hs => everywhere_expr.2 ⟨trivial, hl.readable (hs.mono (by simp +contextual)),
      hr.readable (hs.mono (by simp +contextual))⟩

theorem Product.readable {ts : List TokenKind} {t : Term} :
    Product ts t → NamesSpelled ts → t.Everywhere Readable
  | .factor h, hs => h.readable hs
  | .product hl _ hr, hs => everywhere_expr.2 ⟨trivial, hl.readable (hs.mono (by simp +contextual)),
      hr.readable (hs.mono (by simp +contextual))⟩

theorem Factor.readable {ts : List TokenKind} {t : Term} :
    Factor ts t → NamesSpelled ts → t.Everywhere Readable
  | .primary h, hs => h.readable hs
  | .literal _, _ => everywhere_number.2 trivial
  | .minus h _, hs => everywhere_expr.2 ⟨trivial, everywhere_number.2 trivial,
      h.readable (hs.mono (by simp +contextual))⟩

theorem Primary.readable {ts : List TokenKind} {t : Term} :
    Primary ts t → NamesSpelled ts → t.Everywhere Readable
  | .number _, _ => everywhere_number.2 trivial
  | .name h, hs => h.readable (hs _ List.mem_cons_self)
  | .call h, hs => everywhere_compound.2 ⟨trivial, h.readable (hs.mono (by simp +contextual))⟩
  | .list h, hs => everywhere_list.2 ⟨trivial, h.readable (hs.mono (by simp +contextual))⟩
  | .partialList h htail, hs => everywhere_partialList.2 ⟨h.ne_nil,
      h.readable (hs.mono (by simp +contextual)), htail.readable (hs.mono (by simp +contextual))⟩
  | .group h, hs => h.readable (hs.mono (by simp +contextual))

theorem Items.readable {ts : List TokenKind} {items : List Term} :
    Items ts items → NamesSpelled ts → ∀ t ∈ items, t.Everywhere Readable
  | .none, _ => nofun
  | .some h, hs => h.readable hs

theorem Exprs.readable {ts : List TokenKind} {items : List Term} :
    Exprs ts items → NamesSpelled ts → ∀ t ∈ items, t.Everywhere Readable
  | .one h, hs => by simpa using h.readable hs
  | .more h hlast, hs => by
      have hitems := h.readable (hs.mono (by simp +contextual))
      have hlast := hlast.readable (hs.mono (by simp +contextual))
      simpa [or_imp, forall_and] using ⟨hitems, hlast⟩

end

end Grammar

/-! ### Goals -/

/-- A property holds of all parts of the terms in a tree, also of those in negations. -/
def GoalTree.Everywhere (P : Term → Prop) : GoalTree → Prop
  | .call t => t.Everywhere P
  | .both l r | .either l r => l.Everywhere P ∧ r.Everywhere P
  | .negation inner => inner.Everywhere P

/-- What holds everywhere in a tree holds of all that its alternatives mention. -/
theorem GoalTree.Everywhere.alternatives {P : Term → Prop} {tree : GoalTree}
    (h : tree.Everywhere P) {goals : List Goal} (hgoals : goals ∈ tree.alternatives) :
    ∀ u, CallsMention goals u → P u := by
  refine forall_callsMention.2 fun t ht => ?_
  induction tree generalizing goals with
  | call s =>
      simp only [GoalTree.alternatives, List.mem_singleton] at hgoals
      obtain rfl : t = s := by simpa [hgoals] using ht
      exact h
  | both l r ihl ihr =>
      simp only [GoalTree.alternatives, paired, List.mem_flatMap, List.mem_map] at hgoals
      obtain ⟨left, hleft, right, hright, rfl⟩ := hgoals
      exact (List.mem_append.1 ht).elim (ihl h.1 hleft) (ihr h.2 hright)
  | either l r ihl ihr =>
      exact (List.mem_append.1 hgoals).elim (ihl h.1 · ht) (ihr h.2 · ht)
  | negation inner =>
      simp only [GoalTree.alternatives, List.mem_singleton] at hgoals
      simp [hgoals] at ht

/-- What holds everywhere in the body of a clause holds of all that the kept alternative
mentions. -/
theorem Reader.SourceClause.kept_mentions {P : Term → Prop} (c : SourceClause)
    (h : ∀ tree ∈ c.body, tree.Everywhere P) : ∀ u, CallsMention c.kept.body u → P u := by
  have hmem : ∀ goals ∈ c.alternatives, ∀ u, CallsMention goals u → P u := by
    intro goals hgoals
    rw [SourceClause.alternatives] at hgoals
    split at hgoals
    · rw [List.mem_singleton.1 hgoals]
      rintro u ⟨t, ht, -⟩
      cases ht
    · next tree htree => exact (h tree htree).alternatives hgoals
  rw [SourceClause.kept]
  cases halternatives : c.alternatives with
  | nil =>
      rintro u ⟨t, ht, -⟩
      cases ht
  | cons goals rest => exact hmem goals (halternatives ▸ List.mem_cons_self)

namespace Grammar

theorem Test.readable {ts : List TokenKind} {g : GoalTree} :
    Test ts g → NamesSpelled ts → g.Everywhere Readable
  | .call h, hs => h.readable hs
  | .comparison hl _ hr, hs => by
      have hl := hl.readable (hs.mono (by simp +contextual))
      have hr := hr.readable (hs.mono (by simp +contextual))
      exact everywhere_compound.2 ⟨trivial, by simpa using ⟨hl, hr⟩⟩

mutual

/-- **A spelled row derives a tree of readable terms.** -/
theorem Goals.readable {ts : List TokenKind} {g : GoalTree} :
    Goals ts g → NamesSpelled ts → g.Everywhere Readable
  | .conjunction h, hs => h.readable hs
  | .either hl hr, hs => ⟨hl.readable (hs.mono (by simp +contextual)),
      hr.readable (hs.mono (by simp +contextual))⟩

theorem Conjunction.readable {ts : List TokenKind} {g : GoalTree} :
    Conjunction ts g → NamesSpelled ts → g.Everywhere Readable
  | .unit h, hs => h.readable hs
  | .both hl hr, hs => ⟨hl.readable (hs.mono (by simp +contextual)),
      hr.readable (hs.mono (by simp +contextual))⟩

theorem Unit.readable {ts : List TokenKind} {g : GoalTree} :
    Grammar.Unit ts g → NamesSpelled ts → g.Everywhere Readable
  | .negation h, hs => h.readable (hs.mono (by simp +contextual))
  | .group h, hs => h.readable (hs.mono (by simp +contextual))
  | .test h, hs => h.readable hs

end

/-! ### Clauses -/

/-- The head and the body of a clause are readable. -/
theorem Clause.readable {ts : List TokenKind} {c : Reader.SourceClause} (h : Clause ts c)
    (hs : NamesSpelled ts) :
    c.head.Everywhere Readable ∧ ∀ tree ∈ c.body, tree.Everywhere Readable := by
  cases h with
  | fact h => exact ⟨h.readable (hs.mono (by simp +contextual)), nofun⟩
  | rule h _ hg =>
      refine ⟨h.readable (hs.mono (by simp +contextual)), ?_⟩
      rintro _ ⟨⟩
      exact hg.readable (hs.mono (by simp +contextual))

theorem Clauses.readable {ts : List TokenKind} {cs : List Reader.SourceClause} (h : Clauses ts cs)
    (hs : NamesSpelled ts) :
    ∀ c ∈ cs, c.head.Everywhere Readable ∧ ∀ tree ∈ c.body, tree.Everywhere Readable := by
  induction h with
  | nil => exact nofun
  | cons hfirst _ ih =>
      exact List.forall_mem_cons.2 ⟨hfirst.readable (hs.mono (by simp +contextual)),
        ih (hs.mono (by simp +contextual))⟩

end Grammar

/-! ### Texts -/

/-- The tree of a query is read by the rule of goals. -/
theorem Reader.goals_of_query {depth : ℕ} {c c' : Cursor} {tree : GoalTree}
    (h : query depth c = (.ok tree, c')) : ∃ c₁, goals depth c = (.ok tree, c₁) := by
  rcases hgoals : goals depth c with ⟨e | read, c₁⟩
  · rw [query, bind_of_error hgoals] at h
    cases h
  · -- what comes behind is looked at, but the tree stays as it is
    have hsame (c₂ : Cursor) : (peek >>= fun t => if t.kind = .eof then pure read else
        expect .period >>= fun _ => pure read : Reader GoalTree) c₂ = (.ok tree, c') →
        read = tree := by
      rw [peek_bind_apply]
      split
      · rintro ⟨⟩
        rfl
      · rw [expect_bind_apply]
        split
        · rintro ⟨⟩
          rfl
        · exact nofun
    refine ⟨c₁, ?_⟩
    rw [query, bind_of_ok hgoals, eat_bind_apply] at h
    split at h <;> rw [hsame _ h]

variable {text : String} {u : Term}

/-- **A program that is read mentions readable terms only.** -/
theorem parseProgram_readable {p : Program} (h : parseProgram text = .ok p) (hu : p.Mentions u) :
    u.Readable := by
  refine Program.forall_mentions.2 (fun c hc => ?_) u hu
  rw [parseProgram, readProgram] at h
  split at h
  · cases h
  · next tokens htokens =>
    rcases hread : Reader.clausesF (tokens.length + 1) (.before tokens) with ⟨clauses, error, c'⟩
    rw [hread] at h
    dsimp only at h
    split at h
    · cases h
    · cases h
      obtain ⟨s, hs, rfl⟩ := List.mem_map.1 hc
      obtain ⟨ts, hts, -, -, hclauses⟩ := Reader.clausesF_derives hread
      have hspelled : NamesSpelled ts :=
        (namesSpelled_of_tokenize htokens).mono (by simp +contextual [hts])
      obtain ⟨hhead, hbody⟩ := hclauses.readable hspelled s hs
      exact ⟨hhead, forall_callsMention.1 (s.kept_mentions hbody)⟩

/-- **A query that is read mentions readable terms only.** -/
theorem parseQuery_readable {alternatives : List (List Goal)} {goals : List Goal}
    (h : parseQuery text = .ok alternatives) (hgoals : goals ∈ alternatives)
    (hu : CallsMention goals u) : u.Readable := by
  rw [parseQuery] at h
  split at h
  · cases h
  · next tokens htokens =>
    split at h
    · next tree c htree =>
      cases h
      obtain ⟨c₁, hread⟩ := Reader.goals_of_query htree
      obtain ⟨ts, hts, -, htree⟩ := (Reader.goals_passes _ _).yields hread
      have hspelled : NamesSpelled ts :=
        (namesSpelled_of_tokenize htokens).mono (by simp +contextual [hts])
      exact (htree.readable hspelled).alternatives hgoals u hu
    · cases h

end RhythmLogic
