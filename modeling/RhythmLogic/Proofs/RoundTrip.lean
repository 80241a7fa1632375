/-
**A program that is written is read back.**

The text of a program spells tokens that derive its clauses, and what is derived is read, up to the
numbers of anonymous variables.  A program that can be written has no anonymous variables, and so
nothing is lost: the clauses that are kept are those that were written, with the numbers that the
texts of their numbers are read as.

Two doubles compare as equal also if they are zeros with different signs, and a zero is written
without its sign.  So a program is read back as one that *agrees* with it, and as the same one if all
its numbers are read back as they are.

Main definitions:

* `Term.Agrees`, `Goal.Agrees`, `Clause.Agrees`, `Program.Agrees` — equality of terms and programs,
  with the equality of doubles for numbers;
* `ReadsBack` — the text of a number is read as an equal one.

Main results:

* `Reader.SourceClause.kept_unnumbered` — the alternatives of a tree do not depend on the numbers of
  anonymous variables;
* `Program.Writable.eq_of_unnumbered` — a program without anonymous variables is known up to their
  numbers;
* `parseProgram_reread` — a text is read as the program, up to its numbers;
* `parseProgram_text` — **reading inverts writing**.
-/

import Mathlib.Data.List.Forall2
import RhythmLogic.Proofs.Accepted
import RhythmLogic.Proofs.Printed

set_option autoImplicit false

namespace RhythmLogic

/-! ### Clauses up to the numbers of anonymous variables -/

/-- The alternatives of a tree do not depend on the numbers of anonymous variables. -/
theorem GoalTree.alternatives_unnumbered (tree : GoalTree) :
    tree.unnumbered.alternatives = tree.alternatives.map (List.map (Goal.map Term.unnumbered)) := by
  induction tree with
  | call t => rfl
  | both l r ihl ihr =>
      simp only [unnumbered, alternatives, ihl, ihr, paired, List.flatMap_map, List.map_flatMap,
        List.map_map]
      simp [Function.comp_def]
  | either l r ihl ihr => simp only [unnumbered, alternatives, ihl, ihr, List.map_append]
  | negation inner ih => simp [unnumbered, alternatives, ih]

/-- The clause that is kept does not depend on the numbers of anonymous variables. -/
theorem Reader.SourceClause.kept_unnumbered (c : SourceClause) :
    c.unnumbered.kept = c.kept.map Term.unnumbered := by
  obtain ⟨head, _ | tree⟩ := c
  · rfl
  · have halternatives := tree.alternatives_unnumbered
    rcases h : tree.alternatives with _ | ⟨b, bs⟩ <;> rw [h] at halternatives <;>
      simp [kept, unnumbered, SourceClause.alternatives, halternatives, h, Clause.map]

/-! ### Terms without anonymous variables -/

/-- An anonymous variable has no name of its own. -/
theorem IsName.not_isAnonymous {x : String} (hx : IsName x) : isAnonymous x = false := by
  obtain ⟨c, cs, hxs, -, hcs⟩ := hx
  rw [isAnonymous, beq_eq_false_iff_ne]
  intro heq
  have hchars := congrArg String.toList heq
  rw [hxs, Reader.anonymousName, String.toList_append, naturalText] at hchars
  have hhash : '#' ∈ cs := (List.cons.inj hchars).2 ▸ List.mem_cons_self
  exact absurd (hcs '#' hhash) (by decide)

theorem IsName.unnumber {x : String} (hx : IsName x) : RhythmLogic.unnumber x = x := by
  rw [RhythmLogic.unnumber, hx.not_isAnonymous, if_neg Bool.false_ne_true]

namespace Term

/-- **A term without `_` has only names of its own.** -/
theorem unnumbered_eq_self {t : Term} (h : t.unnumbered.Everywhere (· ≠ .var "_")) :
    t.unnumbered = t := by
  have hnames := everywhere_relabel.1 h
  refine (relabel_congr fun x hx => ?_).trans t.relabel_id
  have hne : var (unnumber x) ≠ var "_" := hnames _ hx
  unfold unnumber at hne ⊢
  split
  · next hanonymous => simp [hanonymous] at hne
  · rfl

/-- A writable term has no anonymous variables. -/
theorem unnumbered_named {t : Term} (f : Float → Float) (ht : t.Everywhere Writable) :
    (t.mapNumbers f).unnumbered.Everywhere (· ≠ .var "_") := by
  induction t with
  | number x => simp [mapNumbers, unnumbered]
  | atom name => simp [mapNumbers, unnumbered]
  | var name =>
      obtain ⟨hname, -, hne⟩ := everywhere_var.1 ht
      simpa [mapNumbers, unnumbered, hname.unnumber] using hne
  | compound name args ih =>
      obtain ⟨-, hargs⟩ := everywhere_compound.1 ht
      simpa [mapNumbers, unnumbered_compound] using fun a ha => ih a ha (hargs a ha)
  | list items ih =>
      obtain ⟨-, hitems⟩ := everywhere_list.1 ht
      simpa [mapNumbers, unnumbered_list] using fun a ha => ih a ha (hitems a ha)
  | partialList items tail ih ih' =>
      obtain ⟨-, hitems, htail⟩ := everywhere_partialList.1 ht
      simpa [mapNumbers, unnumbered_partialList] using
        And.intro (fun a ha => ih a ha (hitems a ha)) (ih' htail)
  | expr op l r ihl ihr =>
      obtain ⟨-, hl, hr⟩ := everywhere_expr.1 ht
      simpa [mapNumbers, unnumbered_expr] using And.intro (ihl hl) (ihr hr)

end Term

namespace Goal

/-- A goal without `_` has only names of its own. -/
theorem unnumbered_eq_self {g : Goal} (h : (g.map Term.unnumbered).Everywhere (· ≠ .var "_")) :
    g.map Term.unnumbered = g := by
  induction g with
  | call t => exact congrArg call (Term.unnumbered_eq_self (everywhere_call.1 h))
  | negation alternatives ih =>
      simp only [map_negation, everywhere_negation, List.forall_mem_map] at h
      rw [map_negation, negation.injEq]
      refine (List.map_congr_left fun b hb => ?_).trans (List.map_id _)
      exact (List.map_congr_left fun g hg => ih b hb g hg (h b hb g hg)).trans (List.map_id _)

/-- A writable goal has no anonymous variables. -/
theorem unnumbered_named {g : Goal} (hg : g.Writable) :
    (g.reread.map Term.unnumbered).Everywhere (· ≠ .var "_") := by
  induction g with
  | call t =>
      cases hg with
      | call ht => exact everywhere_call.2 (Term.unnumbered_named _ ht)
  | negation alternatives ih =>
      cases hg with
      | negation _ _ hgoals =>
        simp only [reread, map_negation, everywhere_negation, List.forall_mem_map]
        exact fun b hb g hg => ih b hb g hg (hgoals b hb g hg)

end Goal

/-- **A clause that looks like a writable one is that one**: it has no anonymous variables whose
numbers could be other ones. -/
theorem Clause.Writable.eq_of_unnumbered {c d : Clause} (hc : c.Writable)
    (h : d.map Term.unnumbered = c.reread.map Term.unnumbered) : d = c.reread := by
  have hclause : ∀ {e : Clause}, e.map Term.unnumbered = c.reread.map Term.unnumbered →
      e.map Term.unnumbered = e := by
    intro e he
    have hhead : e.head.unnumbered = c.reread.head.unnumbered := congrArg Clause.head he
    have hbody : e.body.map (Goal.map Term.unnumbered) =
        c.reread.body.map (Goal.map Term.unnumbered) := congrArg Clause.body he
    have hnamed : ∀ g ∈ e.body, (g.map Term.unnumbered).Everywhere (· ≠ .var "_") := by
      intro g hg
      have hmem := List.mem_map_of_mem (f := Goal.map Term.unnumbered) hg
      rw [hbody, reread, Clause.map, List.map_map] at hmem
      obtain ⟨g', hg', heq⟩ := List.mem_map.1 hmem
      rw [← heq]
      exact Goal.unnumbered_named (hc.body g' hg')
    obtain ⟨head, body⟩ := e
    rw [Clause.map, Clause.mk.injEq]
    refine ⟨Term.unnumbered_eq_self (hhead ▸ Term.unnumbered_named _ hc.head), ?_⟩
    exact (List.map_congr_left fun g hg => Goal.unnumbered_eq_self (hnamed g hg)).trans
      (List.map_id _)
  rw [← hclause h, h, hclause rfl]

/-- **A program that looks like a writable one is that one.** -/
theorem Program.Writable.eq_of_unnumbered {p : Program} (hp : p.Writable) {read : List Clause}
    (h : read.map (Clause.map Term.unnumbered) =
      (p.clauses.map Clause.reread).map (Clause.map Term.unnumbered)) :
    read = p.clauses.map Clause.reread := by
  obtain ⟨clauses⟩ := p
  induction clauses generalizing read with
  | nil => exact List.map_eq_nil_iff.1 h
  | cons c clauses ih =>
      obtain ⟨hc, hclauses⟩ := List.forall_mem_cons.1 hp
      rcases read with _ | ⟨d, read⟩
      · cases h
      · simp only [List.map_cons, List.cons.injEq] at h
        rw [List.map_cons, hc.eq_of_unnumbered h.1, ih hclauses h.2]

/-! ### Texts of programs -/

/-- **The text of a program is read as the program**, with the numbers that the texts of its numbers
are read as. -/
theorem parseProgram_reread {p : Program} (hp : p.Writable) :
    parseProgram p.text = .ok (p.map (Term.mapNumbers reread)) := by
  obtain ⟨ks, hlexed, sources, hsources, hkept⟩ := Program.exists_lexed hp
  obtain ⟨tokens, htokens, hkinds⟩ := hlexed (p.text.toList.length + 1) .start (Nat.lt_succ_self _)
  have hlength : ks.length < tokens.length + 1 := by
    have hlengths := congrArg List.length hkinds
    simp only [List.length_map, List.length_append, List.length_singleton] at hlengths
    omega
  obtain ⟨read, c, hread, hviews⟩ := hsources.reads (c := .before tokens) hkinds hlength
  have hkept' := congrArg (List.map Reader.SourceClause.kept) hviews
  simp only [List.map_map, Function.comp_def, Reader.SourceClause.kept_unnumbered] at hkept'
  have hclauses : read.map (·.kept) = p.clauses.map Clause.reread := by
    refine hp.eq_of_unnumbered ?_
    rw [← hkept]
    simpa only [List.map_map, Function.comp_def] using hkept'
  rw [parseProgram, readProgram, tokenize, htokens]
  dsimp only
  rw [hread]
  dsimp only
  rw [hclauses]
  rfl

/-! ### Numbers that are read back -/

/-- **The same term**, where corresponding numbers compare as equal. -/
inductive Term.Agrees : Term → Term → Prop where
  | number {x y : Float} : (x == y) = true → Agrees (.number x) (.number y)
  | atom {name : String} : Agrees (.atom name) (.atom name)
  | var {name : String} : Agrees (.var name) (.var name)
  | compound {f : String} {as bs : List Term} : List.Forall₂ Agrees as bs →
      Agrees (.compound f as) (.compound f bs)
  | list {as bs : List Term} : List.Forall₂ Agrees as bs → Agrees (.list as) (.list bs)
  | partialList {as bs : List Term} {s t : Term} : List.Forall₂ Agrees as bs → Agrees s t →
      Agrees (.partialList as s) (.partialList bs t)
  | expr {op : Op} {l l' r r' : Term} : Agrees l l' → Agrees r r' →
      Agrees (.expr op l r) (.expr op l' r')

/-- The same goal, where corresponding numbers compare as equal. -/
inductive Goal.Agrees : Goal → Goal → Prop where
  | call {s t : Term} : s.Agrees t → Agrees (.call s) (.call t)
  | negation {as bs : List (List Goal)} : List.Forall₂ (List.Forall₂ Agrees) as bs →
      Agrees (.negation as) (.negation bs)

/-- The same clause, where corresponding numbers compare as equal. -/
structure Clause.Agrees (c d : Clause) : Prop where
  head : c.head.Agrees d.head
  body : List.Forall₂ Goal.Agrees c.body d.body

/-- **The same program**, where corresponding numbers compare as equal. -/
def Program.Agrees (p q : Program) : Prop := List.Forall₂ Clause.Agrees p.clauses q.clauses

/-- All numbers of a term have a property. -/
def Term.Numbers (P : Float → Prop) (t : Term) : Prop :=
  t.Everywhere fun u => ∀ x, u = .number x → P x

/-- All numbers of a program have a property, also those inside negations. -/
def Program.Numbers (P : Float → Prop) (p : Program) : Prop :=
  ∀ c ∈ p.clauses, c.head.Numbers P ∧
    ∀ g ∈ c.body, g.Everywhere fun u => ∀ x, u = .number x → P x

section Numbers

variable {f : Float → Float}

/-- Numbers that are not moved leave a term as it is. -/
theorem Term.mapNumbers_eq_self {t : Term} (h : t.Numbers fun x => f x = x) :
    t.mapNumbers f = t := by
  induction t with
  | number x => exact congrArg number (everywhere_number.1 h x rfl)
  | atom | var => rfl
  | compound name args ih =>
      rw [mapNumbers, mapAllNumbers_eq_map]
      have hargs := (everywhere_compound.1 h).2
      rw [List.map_congr_left fun a ha => ih a ha (hargs a ha), List.map_id']
  | list items ih =>
      rw [mapNumbers, mapAllNumbers_eq_map]
      have hitems := (everywhere_list.1 h).2
      rw [List.map_congr_left fun a ha => ih a ha (hitems a ha), List.map_id']
  | partialList items tail ih ih' =>
      rw [mapNumbers, mapAllNumbers_eq_map]
      obtain ⟨-, hitems, htail⟩ := everywhere_partialList.1 h
      rw [List.map_congr_left fun a ha => ih a ha (hitems a ha), List.map_id', ih' htail]
  | expr op l r ihl ihr =>
      obtain ⟨-, hl, hr⟩ := everywhere_expr.1 h
      rw [mapNumbers, ihl hl, ihr hr]

/-- Numbers that are moved to equal ones give a term that agrees. -/
theorem Term.mapNumbers_agrees {t : Term} (h : t.Numbers fun x => (f x == x) = true) :
    (t.mapNumbers f).Agrees t := by
  induction t with
  | number x => exact .number (everywhere_number.1 h x rfl)
  | atom => exact .atom
  | var => exact .var
  | compound name args ih =>
      rw [mapNumbers, mapAllNumbers_eq_map]
      have hargs := (everywhere_compound.1 h).2
      exact .compound (List.forall₂_map_left_iff.2
        (List.forall₂_same.2 fun a ha => ih a ha (hargs a ha)))
  | list items ih =>
      rw [mapNumbers, mapAllNumbers_eq_map]
      have hitems := (everywhere_list.1 h).2
      exact .list (List.forall₂_map_left_iff.2
        (List.forall₂_same.2 fun a ha => ih a ha (hitems a ha)))
  | partialList items tail ih ih' =>
      rw [mapNumbers, mapAllNumbers_eq_map]
      obtain ⟨-, hitems, htail⟩ := everywhere_partialList.1 h
      exact .partialList (List.forall₂_map_left_iff.2
        (List.forall₂_same.2 fun a ha => ih a ha (hitems a ha))) (ih' htail)
  | expr op l r ihl ihr =>
      obtain ⟨-, hl, hr⟩ := everywhere_expr.1 h
      exact .expr (ihl hl) (ihr hr)

/-- Numbers that are moved to equal ones give a goal that agrees. -/
theorem Goal.map_agrees {g : Goal}
    (h : g.Everywhere fun u => ∀ x, u = .number x → (f x == x) = true) :
    (g.map (Term.mapNumbers f)).Agrees g := by
  induction g with
  | call t => exact .call (Term.mapNumbers_agrees (everywhere_call.1 h))
  | negation alternatives ih =>
      rw [map_negation]
      have hgoals := everywhere_negation.1 h
      refine .negation (List.forall₂_map_left_iff.2 (List.forall₂_same.2 fun b hb => ?_))
      exact List.forall₂_map_left_iff.2
        (List.forall₂_same.2 fun g hg => ih b hb g hg (hgoals b hb g hg))

/-- Numbers that are moved to equal ones give a program that agrees. -/
theorem Program.map_agrees {p : Program} (h : p.Numbers fun x => (f x == x) = true) :
    (p.map (Term.mapNumbers f)).Agrees p := by
  refine List.forall₂_map_left_iff.2 (List.forall₂_same.2 fun c hc => ?_)
  obtain ⟨hhead, hbody⟩ := h c hc
  exact ⟨Term.mapNumbers_agrees hhead,
    List.forall₂_map_left_iff.2 (List.forall₂_same.2 fun g hg => Goal.map_agrees (hbody g hg))⟩

/-- Numbers that are not moved leave a program as it is. -/
theorem Program.map_eq_self {p : Program} (h : p.Numbers fun x => f x = x) :
    p.map (Term.mapNumbers f) = p := by
  have hclause : ∀ c ∈ p.clauses, c.map (Term.mapNumbers f) = c := by
    intro c hc
    obtain ⟨hhead, hbody⟩ := h c hc
    have hgoal : ∀ g ∈ c.body, g.map (Term.mapNumbers f) = g := by
      intro g hg
      have hid : g.map (Term.mapNumbers f) = g.map id :=
        Goal.map_congr (fun t ht => Term.mapNumbers_eq_self ht) (hbody g hg)
      exact hid.trans (Goal.map_id (fun _ => rfl) g)
    rw [Clause.map, Term.mapNumbers_eq_self hhead, List.map_congr_left hgoal, List.map_id']
  rw [Program.map, List.map_congr_left hclause, List.map_id']

end Numbers

/-- The text of a number is read as a number that compares as equal. -/
def ReadsBack (x : Float) : Prop :=
  ∃ y, readFloat? (numberText x).toList = some y ∧ (y == x) = true

theorem Program.Numbers.mono {P Q : Float → Prop} {p : Program} (h : p.Numbers P)
    (hPQ : ∀ x, P x → Q x) : p.Numbers Q := fun c hc =>
  ⟨(h c hc).1.mono fun _ hu x hx => hPQ x (hu x hx), fun g hg =>
    ((h c hc).2 g hg).mono fun _ hu x hx => hPQ x (hu x hx)⟩

/-- **Reading inverts writing.**  The text of a writable program whose numbers are read back as equal
ones is read as a program that agrees with it, and as the program itself if its numbers are read back
as they are. -/
theorem parseProgram_text {p : Program} (hp : p.Writable) (hnumbers : p.Numbers ReadsBack) :
    ∃ q, parseProgram p.text = .ok q ∧ q.Agrees p ∧
      (p.Numbers (fun x => readFloat? (numberText x).toList = some x) → q = p) := by
  refine ⟨_, parseProgram_reread hp, Program.map_agrees (hnumbers.mono ?_), fun hexact =>
    Program.map_eq_self (hexact.mono ?_)⟩
  · rintro x ⟨y, hread, hy⟩
    rw [reread, hread]
    exact hy
  · intro x hread
    rw [reread, hread, Option.getD_some]

/-- A list with a list for its tail, a negative number after an operator in a goal that is an
expression, and a negation of alternatives. -/
theorem parseProgram_text_nested :
    let p : Program := ⟨[⟨.compound "p" [.partialList [.atom "a"] (.list [.var "X"])],
      [.call (.expr .sub (.var "X") (.number (-0.25))),
        .negation [[.call (.atom "q")], [.call (.compound "r" [])]]]⟩]⟩
    p.Writable ∧ p.Numbers ReadsBack ∧ ∃ q, parseProgram p.text = .ok q ∧ q.Agrees p := by
  intro p
  have hname : ∀ x ∈ ["p", "a", "X", "q", "r"], IsName x := by
    simp only [List.forall_mem_cons, List.not_mem_nil, false_imp_iff, implies_true, and_true]
    exact ⟨⟨'p', [], rfl, rfl, nofun⟩, ⟨'a', [], rfl, rfl, nofun⟩, ⟨'X', [], rfl, rfl, nofun⟩,
      ⟨'q', [], rfl, rfl, nofun⟩, ⟨'r', [], rfl, rfl, nofun⟩⟩
  have hX : (Term.var "X").Everywhere Term.Writable :=
    Term.everywhere_var.2 ⟨hname _ (by simp), by decide, by decide⟩
  have hwritable : p.Writable := by
    intro c hc
    obtain rfl := List.mem_singleton.1 hc
    refine ⟨rfl, ?_, ?_⟩
    · have ha : (Term.atom "a").Everywhere Term.Writable :=
        Term.everywhere_atom.2 ⟨hname _ (by simp), by decide⟩
      simpa [Term.Writable, ha, hX] using hname "p" (by simp)
    · have hcall : (Goal.call (.expr .sub (.var "X") (.number (-0.25)))).Writable := by
        have hfinite : (-0.25 : Float).isFinite = true := by decide +kernel
        exact .call (Term.everywhere_expr.2 ⟨trivial, hX, Term.everywhere_number.2 hfinite⟩)
      have hq : (Goal.call (.atom "q")).Writable :=
        .call (Term.everywhere_atom.2 ⟨hname _ (by simp), by decide⟩)
      have hr : (Goal.call (.compound "r" [])).Writable := by
        refine .call ?_
        simpa [Term.Writable] using hname "r" (by simp)
      simp only [List.forall_mem_cons, List.not_mem_nil, false_imp_iff, implies_true, and_true]
      exact ⟨hcall, .negation nofun (by simp) (by simp [hq, hr])⟩
  have hnumbers : p.Numbers ReadsBack := by
    have hback : ReadsBack (-0.25) := ⟨-0.25, by decide +kernel, by decide +kernel⟩
    intro c hc
    obtain rfl := List.mem_singleton.1 hc
    simp [Term.Numbers, hback]
  obtain ⟨q, hq, hagrees, -⟩ := parseProgram_text hwritable hnumbers
  exact ⟨hwritable, hnumbers, q, hq, hagrees⟩

end RhythmLogic
