/-
**What is written is derived.**

The text of a term, of a goal or of a clause spells a row of tokens from which the grammar derives
it.  Expressions are written in parentheses, so each term is a factor and stands wherever a term may;
and between two parts of a text there is always a mark at which names and numerals stop, also where
a numeral is the last thing before the period of a clause.

The grammar derives trees of goals, while bodies are rows of them.  So what is derived is a tree with
one alternative, which is the body.

What is derived has the numbers that the texts of numbers are read as; whether these are the numbers
that were written is a question about numbers only.

Main definitions:

* `Term.Writable`, `Goal.Writable`, `Clause.Writable`, `Program.Writable` — what has a text that can
  be read;
* `reread` — the number that the text of a number is read as;
* `Term.mapNumbers`, `Clause.map`, `Program.map` — functions on the numbers of a term, and on the
  terms of a program.

Main results:

* `spells_separated` — **a row of parts with marks between them**;
* `Term.spells_factor`, `Goal.spells_unit`, `Clause.exists_lexed` — **terms, goals and clauses**;
* `Program.exists_lexed` — **the tokens of a program** derive its clauses.
-/

import Mathlib.Data.List.Induction
import RhythmLogic.Proofs.Goals
import RhythmLogic.Proofs.Grammar
import RhythmLogic.Proofs.Spelling
import RhythmLogic.Program.Reading

set_option autoImplicit false

namespace RhythmLogic

open Grammar (Factor Primary Expr Exprs Items Test Conjunction Goals Clauses)

/-! ### Functions on numbers and terms -/

namespace Term

mutual

/-- A term with a function applied to its numbers. -/
def mapNumbers (f : Float → Float) : Term → Term
  | number x => number (f x)
  | atom name => atom name
  | var name => var name
  | compound name args => compound name (mapAllNumbers f args)
  | list items => list (mapAllNumbers f items)
  | partialList items tail => partialList (mapAllNumbers f items) (mapNumbers f tail)
  | expr op l r => expr op (mapNumbers f l) (mapNumbers f r)

/-- Several terms with a function applied to their numbers. -/
def mapAllNumbers (f : Float → Float) : List Term → List Term
  | [] => []
  | t :: ts => mapNumbers f t :: mapAllNumbers f ts

end

@[simp] theorem mapAllNumbers_eq_map (f : Float → Float) (ts : List Term) :
    mapAllNumbers f ts = ts.map (mapNumbers f) := by
  induction ts with
  | nil => rfl
  | cons t ts ih => rw [mapAllNumbers, ih, List.map_cons]

/-- The texts of several terms are those of each, with commas between them. -/
theorem textAll_eq_separated (ts : List Term) : textAll ts = separated ", " (ts.map text) := by
  induction ts with
  | nil => rfl
  | cons t ts ih => cases ts <;> simp_all [textAll, separated]

end Term

/-- A clause with a function applied to its terms. -/
def Clause.map (h : Term → Term) (c : Clause) : Clause := ⟨h c.head, c.body.map (Goal.map h)⟩

/-- A program with a function applied to its terms. -/
def Program.map (h : Term → Term) (p : Program) : Program := ⟨p.clauses.map (Clause.map h)⟩

/-- The number that the text of a number is read as. -/
def reread (x : Float) : Float := (readFloat? (numberText x).toList).getD x

/-! ### What can be written and read -/

/-- **A term whose text can be read**, as far as it is not a matter of the terms in it: a finite
number, an atom with a name that starts with a small letter, a variable with a name of its own, a
compound with a name, and a list with items before its tail. -/
def Term.Writable : Term → Prop
  | .number x => x.isFinite = true
  | .atom name => IsName name ∧ Reader.isVariableName name = false
  | .var name => IsName name ∧ Reader.isVariableName name = true ∧ name ≠ "_"
  | .compound name _ => IsName name
  | .list _ | .expr _ _ _ => True
  | .partialList items _ => items ≠ []

/-- A goal whose text can be read: its terms are writable, and a negation has an alternative and no
empty one. -/
inductive Goal.Writable : Goal → Prop where
  | call {t : Term} : t.Everywhere Term.Writable → Writable (.call t)
  | negation {alternatives : List (List Goal)} : alternatives ≠ [] → (∀ b ∈ alternatives, b ≠ []) →
      (∀ b ∈ alternatives, ∀ g ∈ b, Writable g) → Writable (.negation alternatives)

/-- A clause whose text can be read: its head can be called, and its terms and goals are
writable. -/
structure Clause.Writable (c : Clause) : Prop where
  called : c.head.functor?.isSome = true
  head : c.head.Everywhere Term.Writable
  body : ∀ g ∈ c.body, g.Writable

/-- A program whose text can be read. -/
def Program.Writable (p : Program) : Prop := ∀ c ∈ p.clauses, c.Writable

/-! ### Marks -/

namespace Mark

/-- A text is a mark if names and numerals stop at its first character. -/
theorem of_chars {s : String} {c : Char} {cs : List Char} {ks : List TokenKind}
    (hs : s.toList = c :: cs) (hc : isNameChar c = false)
    (hpoint : c ≠ '.' ∨ cs ≠ [] ∧ cs.head?.any Char.isDigit = false)
    (h : ∀ rest more, Lexed rest more → Lexed (c :: cs ++ rest) (ks ++ more)) : Mark s ks := by
  refine ⟨fun rest => ?_, hs ▸ h⟩
  rw [hs, List.cons_append]
  refine ⟨hc, fun hdot => ?_⟩
  obtain ⟨hne, hdigit⟩ := hpoint.resolve_left (· hdot)
  obtain ⟨d, ds, rfl⟩ := List.exists_cons_of_ne_nil hne
  rintro _ ⟨⟩
  exact hdigit

/-- A symbol with nothing around it. -/
theorem alone (x : Sym) {c : Char} {cs : List Char} (htext : x.text.toList = c :: cs)
    (hc : isNameChar c = false) (hpoint : c ≠ '.')
    (hx : ∀ rest, symbolAt? (x.text.toList ++ rest) = some x) : Mark x.text [.symbol x] :=
  .of_chars htext hc (.inl hpoint) fun _ _ h => htext ▸ .symbol x hx h

theorem openParen : Mark "(" [.symbol .openParen] :=
  alone .openParen rfl rfl (by decide) fun _ => rfl

theorem closeParen : Mark ")" [.symbol .closeParen] :=
  alone .closeParen rfl rfl (by decide) fun _ => rfl

theorem openBracket : Mark "[" [.symbol .openBracket] :=
  alone .openBracket rfl rfl (by decide) fun _ => rfl

theorem closeBracket : Mark "]" [.symbol .closeBracket] :=
  alone .closeBracket rfl rfl (by decide) fun _ => rfl

theorem comma : Mark ", " [.symbol .comma] :=
  .of_chars rfl rfl (by decide) fun _ _ h => .symbol .comma (fun _ => rfl) (.blank rfl h)

/-- A symbol with a blank on both sides. -/
theorem spaced (x : Sym) (hx : ∀ rest, symbolAt? (x.text.toList ++ rest) = some x) :
    Mark (" " ++ x.text ++ " ") [.symbol x] := by
  have htext : (" " ++ x.text ++ " ").toList = ' ' :: (x.text.toList ++ [' ']) := by simp
  refine .of_chars htext rfl (.inl (by decide)) fun rest more h => ?_
  rw [List.cons_append, List.append_assoc]
  exact .blank rfl (.symbol x hx (.blank rfl h))

/-- A negation and the parenthesis of its group. -/
theorem negation : Mark "\\+ (" [.symbol .not, .symbol .openParen] :=
  .of_chars rfl rfl (by decide) fun _ _ h =>
    .symbol .not (fun _ => rfl) (.blank rfl (.symbol .openParen (fun _ => rfl) h))

/-- A period is no part of a numeral before the end of a line. -/
theorem period : Mark ".\n" [.symbol .period] :=
  .of_chars rfl rfl (by decide) fun _ _ h => .symbol .period (fun _ => rfl) (.blank rfl h)

/-- The operator of an expression is one between products or between factors. -/
theorem op (x : Op) : ∃ k, Mark (" " ++ x.symbol ++ " ") [k] ∧
    (Reader.sumOp? k = some x ∨ Reader.productOp? k = some x) := by
  cases x with
  | add => exact ⟨.symbol .plus, spaced .plus fun _ => rfl, .inl rfl⟩
  | sub => exact ⟨.symbol .minus, spaced .minus fun _ => rfl, .inl rfl⟩
  | mul => exact ⟨.symbol .star, spaced .star fun _ => rfl, .inr rfl⟩
  | div => exact ⟨.symbol .slash, spaced .slash fun _ => rfl, .inr rfl⟩

end Mark

/-! ### Rows of parts -/

theorem separated_concat (separator : String) {ts : List String} (hts : ts ≠ []) (t : String) :
    separated separator (ts ++ [t]) = separated separator ts ++ separator ++ t := by
  induction ts with
  | nil => exact absurd rfl hts
  | cons s ts ih =>
      rcases ts with _ | ⟨s', ts⟩
      · rfl
      · have hrest := ih (List.cons_ne_nil s' ts)
        simp only [List.cons_append, separated] at hrest ⊢
        rw [hrest]
        simp only [String.append_assoc]

/-- **A row of parts with marks between them** spells what the rule of rows makes of the parts. -/
theorem spells_separated {α : Type} {text : α → String} {separator : String}
    {marks : List TokenKind} (Item : List TokenKind → α → Prop)
    (Row : List TokenKind → List α → Prop) (hmark : Mark separator marks)
    (one : ∀ {ks x}, Item ks x → Row ks [x])
    (more : ∀ {ks ls xs x}, Row ks xs → Item ls x → Row (ks ++ (marks ++ ls)) (xs ++ [x]))
    {xs : List α} (hne : xs ≠ []) (hitems : ∀ x ∈ xs, ∃ ks, Spells (text x) ks ∧ Item ks x) :
    ∃ ks, Spells (separated separator (xs.map text)) ks ∧ Row ks xs := by
  induction xs using List.reverseRecOn with
  | nil => exact absurd rfl hne
  | append_singleton xs x ih =>
      obtain ⟨ls, hls, hx⟩ := hitems x (by simp)
      rcases eq_or_ne xs [] with rfl | hxs
      · exact ⟨ls, hls, one hx⟩
      · obtain ⟨ks, hks, hrow⟩ := ih hxs fun y hy => hitems y (by simp [hy])
        refine ⟨_, ?_, more hrow hx⟩
        rw [List.map_append, List.map_singleton, separated_concat _ (by simpa using hxs)]
        exact hks.between hmark hls

/-! ### Terms -/

/-- Commas between expressions. -/
theorem spells_exprs {ts : List Term} (hne : ts ≠ [])
    (h : ∀ t ∈ ts, ∃ ks, Spells t.text ks ∧ Factor ks (t.mapNumbers reread)) :
    ∃ ks, Spells (Term.textAll ts) ks ∧ Exprs ks (ts.map (Term.mapNumbers reread)) := by
  rw [Term.textAll_eq_separated]
  refine spells_separated (fun ks t => Factor ks (t.mapNumbers reread))
    (fun ks ts => Exprs ks (ts.map (Term.mapNumbers reread))) .comma ?_ ?_ hne h
  · exact fun ht => .one (.product (.factor ht))
  · intro ks ls ts t hts ht
    rw [List.map_append]
    exact .more hts (.product (.factor ht))

/-- Perhaps no expressions. -/
theorem spells_items {ts : List Term}
    (h : ∀ t ∈ ts, ∃ ks, Spells t.text ks ∧ Factor ks (t.mapNumbers reread)) :
    ∃ ks, Spells (Term.textAll ts) ks ∧ Items ks (ts.map (Term.mapNumbers reread)) := by
  rcases eq_or_ne ts [] with rfl | hne
  · exact ⟨[], spells_empty, .none⟩
  · obtain ⟨ks, hks, hts⟩ := spells_exprs hne h
    exact ⟨ks, hks, .some hts⟩

/-- **The text of a term** spells a factor. -/
theorem Term.spells_factor {t : Term} (ht : t.Everywhere Term.Writable) :
    ∃ ks, Spells t.text ks ∧ Factor ks (t.mapNumbers reread) := by
  induction t with
  | number x =>
      obtain ⟨ks, y, hread, hks, hy⟩ := numberText_spells (everywhere_number.1 ht)
      refine ⟨ks, hks, ?_⟩
      rw [mapNumbers, reread, hread, Option.getD_some]
      rcases hy with rfl | ⟨z, rfl, rfl⟩
      · exact .primary (.number y)
      · exact .literal z
  | atom name =>
      obtain ⟨hname, hatom⟩ := everywhere_atom.1 ht
      exact ⟨_, hname.spells, .primary (.name (.atom hatom))⟩
  | var name =>
      obtain ⟨hname, hvariable, hne⟩ := everywhere_var.1 ht
      exact ⟨_, hname.spells, .primary (.name (.variable hne hvariable))⟩
  | compound name args ih =>
      obtain ⟨hname, hargs⟩ := everywhere_compound.1 ht
      obtain ⟨ks, hks, hitems⟩ := spells_items fun a ha => ih a ha (hargs a ha)
      refine ⟨_, (IsName.spells hname).between .openParen hks |>.mark .closeParen, ?_⟩
      rw [mapNumbers, mapAllNumbers_eq_map]
      simpa using Factor.primary (.call hitems)
  | list items ih =>
      obtain ⟨-, hitems⟩ := everywhere_list.1 ht
      obtain ⟨ks, hks, hitems⟩ := spells_items fun a ha => ih a ha (hitems a ha)
      refine ⟨_, (Mark.openBracket.spells hks).mark .closeBracket, ?_⟩
      rw [mapNumbers, mapAllNumbers_eq_map]
      simpa using Factor.primary (.list hitems)
  | partialList items tail ih ih' =>
      obtain ⟨hne, hitems, htail⟩ := everywhere_partialList.1 ht
      obtain ⟨ks, hks, hitems⟩ := spells_exprs hne fun a ha => ih a ha (hitems a ha)
      obtain ⟨ls, hls, htail⟩ := ih' htail
      have hbar : Mark " | " [.symbol .bar] := .spaced .bar fun _ => rfl
      have htext : (partialList items tail).text =
          "[" ++ textAll items ++ " | " ++ tail.text ++ "]" := by
        rw [text, List.isEmpty_eq_false_iff.2 hne]
        rfl
      refine ⟨_, htext ▸ ((Mark.openBracket.spells hks).between hbar hls).mark .closeBracket, ?_⟩
      rw [mapNumbers, mapAllNumbers_eq_map]
      simpa using Factor.primary (.partialList hitems (.product (.factor htail)))
  | expr op l r ihl ihr =>
      obtain ⟨-, hl, hr⟩ := everywhere_expr.1 ht
      obtain ⟨ks, hks, hl⟩ := ihl hl
      obtain ⟨ls, hls, hr⟩ := ihr hr
      obtain ⟨k, hmark, hk⟩ := Mark.op op
      have hexpr : Expr (ks ++ ([k] ++ ls)) ((expr op l r).mapNumbers reread) := by
        rcases hk with hk | hk
        · exact .sum (.product (.factor hl)) hk (.factor hr)
        · exact .product (.product (.factor hl) hk hr)
      refine ⟨_, ?_, .primary (.group hexpr)⟩
      have htext : (expr op l r).text =
          "(" ++ (l.text ++ (" " ++ op.symbol ++ " ") ++ r.text) ++ ")" := by
        simp only [text, String.append_assoc]
      rw [htext]
      exact (Mark.openParen.spells (hks.between hmark hls)).mark .closeParen

/-! ### Goals -/

namespace Goal

theorem bodyText_eq_separated (goals : List Goal) :
    bodyText goals = separated ", " (goals.map text) := by
  induction goals with
  | nil => rfl
  | cons g goals ih => cases goals <;> simp_all [bodyText, separated]

theorem alternativesText_eq_separated (alternatives : List (List Goal)) :
    alternativesText alternatives = separated " ; " (alternatives.map bodyText) := by
  induction alternatives with
  | nil => rfl
  | cons b bs ih => cases bs <;> simp_all [alternativesText, separated]

/-- A goal with the numbers that the texts of its numbers are read as. -/
def reread (g : Goal) : Goal := g.map (Term.mapNumbers RhythmLogic.reread)

/-- Commas between goals: a conjunction, whose one alternative is the row. -/
theorem spells_conjunction {goals : List Goal} (hne : goals ≠ [])
    (h : ∀ g ∈ goals, ∃ ks, Spells g.text ks ∧
      ∃ tree, Grammar.Unit ks tree ∧ tree.alternatives = [[g.reread]]) :
    ∃ ks, Spells (bodyText goals) ks ∧
      ∃ tree, Conjunction ks tree ∧ tree.alternatives = [goals.map reread] := by
  rw [bodyText_eq_separated]
  refine spells_separated
    (fun ks g => ∃ tree, Grammar.Unit ks tree ∧ tree.alternatives = [[g.reread]])
    (fun ks goals => ∃ tree, Conjunction ks tree ∧ tree.alternatives = [goals.map reread])
    .comma ?_ ?_ hne h
  · rintro ks g ⟨tree, htree, hg⟩
    exact ⟨tree, .unit htree, hg⟩
  · rintro ks ls goals g ⟨left, hleft, hgoals⟩ ⟨right, hright, hg⟩
    refine ⟨.both left right, .both hleft hright, ?_⟩
    rw [GoalTree.alternatives, hgoals, hg, List.map_append]
    rfl

/-- Semicolons between conjunctions: goals, whose alternatives are the rows. -/
theorem spells_goals {alternatives : List (List Goal)} (hne : alternatives ≠ [])
    (h : ∀ b ∈ alternatives, ∃ ks, Spells (bodyText b) ks ∧
      ∃ tree, Conjunction ks tree ∧ tree.alternatives = [b.map reread]) :
    ∃ ks, Spells (alternativesText alternatives) ks ∧
      ∃ tree, Goals ks tree ∧ tree.alternatives = alternatives.map (List.map reread) := by
  have hmark : Mark " ; " [.symbol .semicolon] := .spaced .semicolon fun _ => rfl
  rw [alternativesText_eq_separated]
  refine spells_separated
    (fun ks b => ∃ tree, Conjunction ks tree ∧ tree.alternatives = [b.map reread])
    (fun ks bs => ∃ tree, Goals ks tree ∧ tree.alternatives = bs.map (List.map reread))
    hmark ?_ ?_ hne h
  · rintro ks b ⟨tree, htree, hb⟩
    exact ⟨tree, .conjunction htree, hb⟩
  · rintro ks ls bs b ⟨left, hleft, hbs⟩ ⟨right, hright, hb⟩
    refine ⟨.either left right, .either hleft hright, ?_⟩
    rw [GoalTree.alternatives, hbs, hb, List.map_append]
    rfl

/-- **The text of a goal** spells a unit, whose one alternative is the goal. -/
theorem spells_unit {g : Goal} (hg : g.Writable) : ∃ ks, Spells g.text ks ∧
    ∃ tree, Grammar.Unit ks tree ∧ tree.alternatives = [[g.reread]] := by
  induction g with
  | call t =>
      cases hg with
      | call ht =>
        obtain ⟨ks, hks, ht⟩ := t.spells_factor ht
        exact ⟨ks, hks, _, .test (.call (.product (.factor ht))), rfl⟩
  | negation alternatives ih =>
      cases hg with
      | negation hne hbodies hgoals =>
        obtain ⟨ks, hks, tree, htree, halternatives⟩ := spells_goals hne fun b hb =>
          spells_conjunction (hbodies b hb) fun g hg => ih b hb g hg (hgoals b hb g hg)
        refine ⟨_, (Mark.negation.spells hks).mark .closeParen, .negation tree, ?_, ?_⟩
        · simpa using Grammar.Unit.negation (.group htree)
        · rw [GoalTree.alternatives, halternatives, reread, map_negation]
          rfl

end Goal

/-! ### Clauses and programs -/

/-- A clause with the numbers that the texts of its numbers are read as. -/
def Clause.reread (c : Clause) : Clause := c.map (Term.mapNumbers RhythmLogic.reread)

theorem Term.functor?_mapNumbers (f : Float → Float) (t : Term) :
    (t.mapNumbers f).functor? = t.functor? := by
  cases t <;> simp [mapNumbers, functor?]

/-- **The line of a clause** spells a clause, of which the clause is kept. -/
theorem Clause.exists_lexed {c : Clause} (hc : c.Writable) :
    ∃ ks, (∀ rest more, Lexed rest more → Lexed ((c.text ++ "\n").toList ++ rest) (ks ++ more)) ∧
      ∃ source, Grammar.Clause ks source ∧ source.kept = c.reread := by
  obtain ⟨head, body⟩ := c
  obtain ⟨ks, hks, hhead⟩ := head.spells_factor hc.head
  have hcalled : (head.mapNumbers RhythmLogic.reread).functor?.isSome = true := by
    rw [Term.functor?_mapNumbers]
    exact hc.called
  rcases eq_or_ne body [] with rfl | hne
  · have htext : Clause.text ⟨head, []⟩ ++ "\n" = head.text ++ ".\n" := by
      rw [Clause.text, List.isEmpty_nil, if_pos rfl, String.append_assoc]
      rfl
    rw [htext]
    exact ⟨_, fun _ _ => hks.lexed_mark .period, _, .fact (.product (.factor hhead)) hcalled, rfl⟩
  · obtain ⟨ls, hls, tree, htree, hbody⟩ :=
      Goal.spells_conjunction hne fun g hg => Goal.spells_unit (hc.body g hg)
    have hneck : Mark " :- " [.symbol .neck] := .spaced .neck fun _ => rfl
    have htext : Clause.text ⟨head, body⟩ ++ "\n" =
        head.text ++ " :- " ++ Goal.bodyText body ++ ".\n" := by
      rw [Clause.text, List.isEmpty_eq_false_iff.2 hne, if_neg Bool.false_ne_true,
        String.append_assoc]
      rfl
    rw [htext]
    refine ⟨_, fun _ _ => (hks.between hneck hls).lexed_mark .period,
      ⟨head.mapNumbers RhythmLogic.reread, some tree⟩, ?_, ?_⟩
    · simpa using Grammar.Clause.rule (.product (.factor hhead)) hcalled (.conjunction htree)
    · simp only [Reader.SourceClause.kept, Reader.SourceClause.alternatives, hbody]
      rfl

/-- **The text of a program** has tokens that derive its clauses. -/
theorem Program.exists_lexed {p : Program} (hp : p.Writable) :
    ∃ ks, Lexed p.text.toList (ks ++ [.eof]) ∧
      ∃ sources, Clauses ks sources ∧ sources.map (·.kept) = p.clauses.map Clause.reread := by
  obtain ⟨clauses⟩ := p
  induction clauses with
  | nil => exact ⟨[], .nil, [], .nil, rfl⟩
  | cons c clauses ih =>
      obtain ⟨hc, hclauses⟩ := List.forall_mem_cons.1 hp
      obtain ⟨ks, hks, source, hsource, hkept⟩ := Clause.exists_lexed hc
      obtain ⟨ls, hls, sources, hsources, hkepts⟩ := ih hclauses
      refine ⟨ks ++ ls, ?_, source :: sources, .cons hsource hsources, ?_⟩
      · have hlexed := hks _ _ hls
        simpa [Program.text] using hlexed
      · rw [List.map_cons, List.map_cons, hkept, hkepts]

end RhythmLogic
