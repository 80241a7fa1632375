/-
**The body that is kept of a clause.**

A clause body may have several alternatives, but a program has room for one, and the first one is
kept.  The alternatives are put together from the leaves of a tree upwards, as all pairs of the
alternatives on both sides of a conjunction, so that the first one is not a part of the tree that
could be pointed at.  It is what is left of the tree when every disjunction outside negations is
decided for its left side.  A negation is decided nowhere: it is one goal, with all alternatives of
its operand.

Main definitions:

* `GoalTree.decided`, `GoalTree.row` — the tree with its disjunctions decided, and the goals of a
  tree from left to right;
* `GoalTree.choices`, `GoalTree.hasChoice` — how many alternatives there are to choose from, and
  whether a disjunction stands outside of all negations.

Main results:

* `alternatives_eq_cons` — **the first alternative is what is left of the decided tree**;
* `length_alternatives`, `one_lt_choices_iff` — the number of alternatives, and when it is told;
* `body_leftProjection` — **what is kept of the bodies of a text**, and what is told of the rest.
-/

import RhythmLogic.Program.Reading
import RhythmLogic.Proofs.Calls

set_option autoImplicit false

namespace RhythmLogic

namespace GoalTree

/-- **The tree with every disjunction outside negations decided** for its left side. -/
def decided : GoalTree → GoalTree
  | call t => call t
  | both l r => both l.decided r.decided
  | either l _ => l.decided
  | negation inner => negation inner

/-- The goals of a tree from left to right.  A negation is one goal, with all alternatives of its
operand. -/
def row : GoalTree → List Goal
  | call t => [.call t]
  | both l r | either l r => l.row ++ r.row
  | negation inner => [.negation inner.alternatives]

/-- How many alternatives there are to choose from: a disjunction has those of both sides, and a
conjunction one for each pair. -/
def choices : GoalTree → Nat
  | call _ | negation _ => 1
  | both l r => l.choices * r.choices
  | either l r => l.choices + r.choices

/-- A disjunction stands outside of all negations. -/
def hasChoice : GoalTree → Bool
  | call _ | negation _ => false
  | both l r => l.hasChoice || r.hasChoice
  | either _ _ => true

variable (tree : GoalTree)

/-! ### The first alternative -/

theorem firstChoice_eq : tree.firstChoice = tree.decided.row := by
  induction tree with
  | call t => rfl
  | both l r ihl ihr => rw [firstChoice, ihl, ihr, decided, row]
  | either l r ihl _ => exact ihl
  | negation inner => rfl

/-- **The first alternative** is what is left when all disjunctions are decided. -/
theorem alternatives_eq_cons : ∃ others, tree.alternatives = tree.firstChoice :: others := by
  induction tree with
  | call t => exact ⟨[], rfl⟩
  | both l r ihl ihr =>
      obtain ⟨ls, hl⟩ := ihl
      obtain ⟨rs, hr⟩ := ihr
      rw [alternatives, hl, hr]
      exact ⟨_, rfl⟩
  | either l r ihl _ =>
      obtain ⟨ls, hl⟩ := ihl
      exact ⟨ls ++ r.alternatives, by rw [alternatives, hl, List.cons_append, firstChoice]⟩
  | negation inner => exact ⟨[], rfl⟩

/-- The decided tree has nothing to choose. -/
theorem alternatives_decided : tree.decided.alternatives = [tree.firstChoice] := by
  induction tree with
  | call t => rfl
  | both l r ihl ihr =>
      rw [decided, alternatives, ihl, ihr]
      rfl
  | either l r ihl _ => exact ihl
  | negation inner => rfl

theorem hasChoice_decided : tree.decided.hasChoice = false := by
  induction tree with
  | call t => rfl
  | both l r ihl ihr => rw [decided, hasChoice, ihl, ihr, Bool.or_false]
  | either l r ihl _ => exact ihl
  | negation inner => rfl

/-- No alternative is empty. -/
theorem ne_nil_of_mem_alternatives {body : List Goal} (h : body ∈ tree.alternatives) :
    body ≠ [] := by
  induction tree generalizing body with
  | call t =>
      rw [alternatives, List.mem_singleton] at h
      rw [h]
      exact List.cons_ne_nil _ _
  | both l r ihl _ =>
      obtain ⟨first, hfirst, hpair⟩ := List.mem_flatMap.1 h
      obtain ⟨second, -, rfl⟩ := List.mem_map.1 hpair
      exact List.append_ne_nil_of_left_ne_nil (ihl hfirst) second
  | either l r ihl ihr => exact (List.mem_append.1 h).elim ihl ihr
  | negation inner =>
      rw [alternatives, List.mem_singleton] at h
      rw [h]
      exact List.cons_ne_nil _ _

/-! ### How many there are -/

theorem length_alternatives : tree.alternatives.length = tree.choices := by
  induction tree with
  | call t => rfl
  | both l r ihl ihr => rw [alternatives, length_paired, ihl, ihr, choices]
  | either l r ihl ihr => rw [alternatives, List.length_append, ihl, ihr, choices]
  | negation inner => rfl

theorem choices_pos : 0 < tree.choices := by
  obtain ⟨others, h⟩ := tree.alternatives_eq_cons
  rw [← length_alternatives, h]
  exact Nat.succ_pos _

/-- There is something to choose just if a disjunction stands outside of all negations. -/
theorem one_lt_choices_iff : 1 < tree.choices ↔ tree.hasChoice = true := by
  induction tree with
  | call t => simp [choices, hasChoice]
  | both l r ihl ihr =>
      rw [choices, hasChoice, Bool.or_eq_true, ← ihl, ← ihr]
      have hl := l.choices_pos
      have hr := r.choices_pos
      constructor
      · intro hproduct
        rcases Nat.lt_or_ge 1 l.choices with hone | hone
        · exact .inl hone
        · -- the left side has one alternative, so the product is that of the right side
          rw [show l.choices = 1 by omega, Nat.one_mul] at hproduct
          exact .inr hproduct
      · intro hsides
        rcases hsides with hone | hone
        · exact Nat.lt_of_lt_of_le hone (Nat.le_mul_of_pos_right _ hr)
        · exact Nat.lt_of_lt_of_le hone (Nat.le_mul_of_pos_left _ hl)
  | either l r _ _ =>
      have hl := l.choices_pos
      have hr := r.choices_pos
      simp only [choices, hasChoice, iff_true]
      omega
  | negation inner => simp [choices, hasChoice]

end GoalTree

/-! ### Clauses -/

namespace Reader.SourceClause

variable (c : SourceClause)

/-- **What is kept of a clause**: its body with all disjunctions decided. -/
theorem kept_eq : c.kept = ⟨c.head, (c.body.map GoalTree.firstChoice).getD []⟩ := by
  rw [kept, alternatives]
  cases c.body with
  | none => rfl
  | some tree =>
      obtain ⟨others, h⟩ := tree.alternatives_eq_cons
      dsimp only
      rw [h]
      rfl

/-- What is dropped of a clause is told just if there was a choice. -/
theorem dropped?_eq : c.dropped? = c.body.bind fun tree =>
    if tree.hasChoice then some (.alternatives c.head tree.choices) else none := by
  rw [dropped?, alternatives]
  cases c.body with
  | none => rfl
  | some tree => simp only [Option.bind_some, tree.length_alternatives, tree.one_lt_choices_iff]

end Reader.SourceClause

/-- What a text is read as keeps its clauses, in order, and tells what it drops of them. -/
theorem readProgram_clauses {text : String} {tokens : List Token}
    (htokens : tokenize text.toList = .ok tokens) :
    let clauses := (Reader.clausesF (tokens.length + 1) (.before tokens)).1
    (∀ p, (readProgram text).result = .ok p → p.clauses = clauses.map (·.kept)) ∧
      (readProgram text).notices = clauses.filterMap (·.dropped?) := by
  simp only [readProgram, htokens]
  refine ⟨fun p hp => ?_, trivial⟩
  split at hp
  · cases hp
  · cases hp
    rfl

/-- **The body that is kept of a clause is the left projection of its tree.**

* The alternatives of a tree are one or more, and none of them is empty.
* The first of them is the row of the goals of the tree, from left to right, in which every
  disjunction outside negations is decided for its left side; so decided, the tree has no other
  alternative.  A negation in the row has all alternatives of its operand.
* There are as many alternatives as a disjunction adds and a conjunction multiplies, and more than
  one just if a disjunction stands outside of all negations.
* Of a text that is read, each clause is kept with this row as its body, and a notice is told of
  those clauses that have a disjunction outside of all negations, and of no others. -/
theorem body_leftProjection :
    (∀ tree : GoalTree,
      (tree.alternatives ≠ [] ∧ [] ∉ tree.alternatives) ∧
      (tree.alternatives.head? = some tree.decided.row ∧
        tree.decided.alternatives = [tree.decided.row] ∧ tree.decided.hasChoice = false) ∧
      tree.alternatives.length = tree.choices ∧ (1 < tree.choices ↔ tree.hasChoice = true)) ∧
    ∀ text tokens, tokenize text.toList = .ok tokens →
      let clauses := (Reader.clausesF (tokens.length + 1) (.before tokens)).1
      (∀ p, (readProgram text).result = .ok p →
        p.clauses = clauses.map fun c => ⟨c.head, (c.body.map fun tree => tree.decided.row).getD []⟩) ∧
      (readProgram text).notices = clauses.filterMap fun c => c.body.bind fun tree =>
        if tree.hasChoice then some (.alternatives c.head tree.choices) else none := by
  refine ⟨fun tree => ?trees, fun text tokens htokens => ?texts⟩
  case trees =>
    obtain ⟨others, hfirst⟩ := tree.alternatives_eq_cons
    rw [← tree.firstChoice_eq]
    refine ⟨⟨by simp [hfirst], fun hempty => tree.ne_nil_of_mem_alternatives hempty rfl⟩,
      ⟨by simp [hfirst], tree.alternatives_decided, tree.hasChoice_decided⟩,
      tree.length_alternatives, tree.one_lt_choices_iff⟩
  case texts =>
    intro clauses
    obtain ⟨hkept, htold⟩ := readProgram_clauses htokens
    simp only [Reader.SourceClause.kept_eq, Reader.SourceClause.dropped?_eq] at hkept htold
    simpa only [← GoalTree.firstChoice_eq] using And.intro hkept htold

/-- A choice in parentheses, one inside of a conjunction, and one that only a negation has. -/
theorem body_leftProjection_nested :
    let text := "p(X) :- (a(X) ; b), (c, d ; e), \\+ (f ; g).\nq :- \\+ (a ; b), c.\nr.\n"
    ∃ tokens p, tokenize text.toList = .ok tokens ∧ (readProgram text).result = .ok p ∧
      let clauses := (Reader.clausesF (tokens.length + 1) (.before tokens)).1
      p.clauses = clauses.map (fun c => ⟨c.head, (c.body.map fun tree => tree.decided.row).getD []⟩) ∧
      p.text = "p(X) :- a(X), c, d, \\+ (f ; g).\nq :- \\+ (a ; b), c.\nr.\n" ∧
      (clauses.filterMap fun c => c.body.map fun tree => (tree.choices, tree.hasChoice)) =
        [(4, true), (1, false)] ∧
      (readProgram text).notices.map Notice.words =
        ["clause p(X) has 4 alternative bodies; only the first is kept"] := by
  intro text
  let choicesOf := fun tokens : List Token =>
    (Reader.clausesF (tokens.length + 1) (.before tokens)).1.filterMap fun c =>
      c.body.map fun tree => (tree.choices, tree.hasChoice)
  have hchoices : (tokenize text.toList).toOption.map choicesOf = some [(4, true), (1, false)] := by
    decide +kernel
  have hp : (parseProgram text).toOption.map Program.text =
      some "p(X) :- a(X), c, d, \\+ (f ; g).\nq :- \\+ (a ; b), c.\nr.\n" := by decide +kernel
  have htold : (readProgram text).notices.map Notice.words =
      ["clause p(X) has 4 alternative bodies; only the first is kept"] := by decide +kernel
  obtain ⟨tokens, htokens, hchoices⟩ := exists_ok hchoices
  obtain ⟨p, hp, htext⟩ := exists_ok hp
  obtain ⟨hkept, -⟩ := body_leftProjection.2 text tokens htokens
  exact ⟨tokens, p, htokens, hp, hkept p hp, htext, hchoices, htold⟩

end RhythmLogic
