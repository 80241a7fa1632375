/-
**Expanding connectives preserves meaning.**

A tree of goals can be interpreted as it stands: a conjunction goes on from each solution of its
left side, a disjunction puts the solutions of its sides together, and a negation keeps the bindings
when its operand has no solution.  What is searched instead are the alternatives of the tree, in
which conjunctions are distributed over disjunctions.  This proves shared goals several times, and
finds the solutions in another order, but it finds the same ones as often.

Both are compared with a third thing: the *meaning* of goals and of trees, a function from the class
of the bindings to the multiset of the classes of the solutions, where a class is all variants of
some bindings.  The meaning of a call is what some search for it comes to, and all searches that
come to an answer agree on it; the meaning of everything else is put together from its parts.  So
what expansion does is algebra of multisets, and what is left to show of the search and of the
interpreter is that they come to the meaning, each by an induction of its own.

Main definitions:

* `GoalTree.interpret` — **the direct interpreter of trees**;
* `Solution`, `classes` — bindings up to variants, and rows of them without their order;
* `Goal.meaning`, `Goal.rowMeaning`, `Goal.sumMeaning`, `GoalTree.meaning` — what goals, rows,
  alternatives and trees mean;
* `Means` — a run comes to a meaning, whenever it comes to an answer.

Main results:

* `solveF_variant` — searches from variants come to variants;
* `GoalTree.sumMeaning_alternatives` — **the alternatives of a tree mean what the tree means**;
* `means_solve`, `GoalTree.means_interpret` — searches and interpreters come to the meaning;
* `solve_alternatives` — **alternatives have the solutions of the tree**, in some order.
-/

import RhythmLogic.CommandLine.Mixer
import RhythmLogic.Proofs.Conjunction
import RhythmLogic.Proofs.Readable
import Mathlib.Data.Multiset.Bind

set_option autoImplicit false

namespace RhythmLogic

open Term (Numbered)

variable {k : Knowledge} {goals : List Goal} {e e' : Bindings} {s s' t t' : Progress} {m n fuel : ℕ}
  {found found' : List Bindings}

/-! ### The direct interpreter -/

/-- **The direct interpreter of trees.**  A conjunction goes on from each solution of its left side,
a disjunction appends the solutions of its sides, and a negation keeps the bindings exactly when its
operand has no solution. -/
def GoalTree.interpret (k : Knowledge) : GoalTree → Bindings → Progress → Found
  | .call t, e, s => solve k [.call t] e s
  | .both left right, e, s =>
      match left.interpret k e s with
      | .error h => .error h
      | .ok (mids, s) => gather (right.interpret k) mids s
  | .either left right, e, s =>
      match left.interpret k e s with
      | .error h => .error h
      | .ok (found, s) =>
          match right.interpret k e s with
          | .error h => .error h
          | .ok (more, s) => .ok (found ++ more, s)
  | .negation inner, e, s =>
      match inner.interpret k e s with
      | .error h => .error h
      | .ok (found, s) => .ok (if found.isEmpty then [e] else [], s)

/-- An interpreter that the guard does not change comes to the same without it. -/
theorem GoalTree.interpret_refines (k : Knowledge) (tree : GoalTree) (e : Bindings) :
    RunRefines (tree.interpret k e) (tree.interpret k.steady e) := by
  induction tree generalizing e with
  | call t => exact solve_refines_steady k [.call t] e
  | both left right ihl ihr =>
      intro s r h
      simp only [interpret] at h ⊢
      split at h
      · cases h
      next mids s₁ hmids =>
      rw [ihl e s _ hmids]
      exact gather_refines (fun mid _ => ihr mid) s₁ r h
  | either left right ihl ihr =>
      intro s r h
      simp only [interpret] at h ⊢
      split at h
      · cases h
      next found s₁ hfound =>
      rw [ihl e s _ hfound]
      split at h
      · cases h
      next more s₂ hmore =>
      rw [ihr e s₁ _ hmore]
      exact h
  | negation inner ih =>
      intro s r h
      simp only [interpret] at h ⊢
      split at h
      · cases h
      next found s₁ hfound =>
      rw [ih e s _ hfound]
      exact h

/-! ### Searches from variants -/

/-- **Searches from variants come to variants**, whatever was searched before them. -/
theorem solveF_variant (hk : k.Parametric) {pending : List Pending}
    (hpending : PendingEverywhere (Numbered (Set.Iio n)) pending) (hs : n ≤ s.fresh)
    (ht : n ≤ t.fresh) (he : e.Before s.fresh) (he' : e'.Before t.fresh) (h : e.Variant n e')
    (hrun : solveF k fuel pending e s = .ok (found, s')) :
    ∃ found' t', solveF k fuel pending e' t = .ok (found', t') ∧
      List.Forall₂ (Bindings.Variant n) found found' := by
  obtain ⟨σ, hσ, rfl⟩ := h
  -- the numbers in use are those before the one search that go before the other one
  let S : Set ℕ := {i | i < s.fresh ∧ σ i < t.fresh}
  have hnumbered : e.AllEntries (Numbered S) := by
    have hgoes := Bindings.allEntries_renumber.1 he'
    exact fun p hp => ⟨fun i w hw => ⟨(he p hp).1 i w hw, (hgoes p hp).1 i w hw⟩,
      fun u hu i w hw => ⟨(he p hp).2 u hu i w hw, (hgoes p hp).2 u hu i w hw⟩⟩
  have hS : Set.Iio n ⊆ S := fun i hi =>
    ⟨Nat.lt_of_lt_of_le hi hs, (hσ i hi).symm ▸ Nat.lt_of_lt_of_le hi ht⟩
  have hlinked : Linked S σ s.fresh t.fresh := ⟨fun i hi => hi.1, fun i hi => hi.2⟩
  have hfollows := solveF_follows hk fuel pending [] e S σ
    (hpending.mono fun u hu => hu.mono hS) hnumbered
  rw [List.append_nil, map_relabel_renumber_eq_self hσ hpending] at hfollows
  obtain ⟨found', t', ht, hspread⟩ := hfollows s t found s' hlinked hrun
  exact ⟨found', t', ht, hspread.variants hS hσ⟩

/-- The solutions of a search are bindings from before the next trial. -/
theorem solveF_before (hk : k.Parametric) {pending : List Pending}
    (hpending : PendingEverywhere (Numbered (Set.Iio s.fresh)) pending) (he : e.Before s.fresh)
    (h : solveF k fuel pending e s = .ok (found, s')) : ∀ a ∈ found, a.Before s'.fresh := by
  have hself : solveF k fuel (pending ++ []) e s = .ok (found, s') := by
    rwa [List.append_nil]
  obtain ⟨mids, s₁, hmids, hspread⟩ := solveF_follows_self hk hpending he hself
  obtain ⟨rfl, rfl⟩ : found = mids ∧ s' = s₁ := by
    rw [h] at hmids
    cases hmids
    exact ⟨rfl, rfl⟩
  intro a ha
  obtain ⟨part, hpart⟩ := hspread.exists_part ha
  obtain ⟨b, -, S, τ, -, -, hb, hτ, rfl⟩ := hpart.eq_singleton
  exact Bindings.allEntries_renumber.2 (Bindings.AllEntries.mono hb fun u hu => hu.mono hτ)

/-! ### Solutions up to variants -/

/-- Bindings up to variants. -/
abbrev Solution (n : ℕ) : Type := Quotient (Bindings.Variant.setoid n)

/-- The class of some bindings. -/
def Bindings.solution (n : ℕ) (e : Bindings) : Solution n := Quotient.mk _ e

/-- The classes of a row of solutions, without their order. -/
def classes (n : ℕ) (found : List Bindings) : Multiset (Solution n) :=
  (found : Multiset Bindings).map (Bindings.solution n)

@[simp] theorem classes_nil : classes n [] = 0 := rfl

@[simp] theorem classes_singleton : classes n [e] = {e.solution n} := rfl

@[simp] theorem classes_cons : classes n (e :: found) = e.solution n ::ₘ classes n found := rfl

@[simp] theorem classes_append :
    classes n (found ++ found') = classes n found + classes n found' := by
  rw [classes, ← Multiset.coe_add, Multiset.map_add]
  rfl

theorem classes_eq_zero : classes n found = 0 ↔ found = [] := by
  rw [classes, Multiset.map_eq_zero, Multiset.coe_eq_zero]

/-- Rows of variants have the same classes. -/
theorem classes_of_variants (h : List.Forall₂ (Bindings.Variant n) found found') :
    classes n found = classes n found' := by
  induction h with
  | nil => rfl
  | cons ha _ ih => rw [classes_cons, classes_cons, ih, Bindings.solution, Quotient.sound ha]; rfl

/-- Rows with the same classes are, in some order, rows of variants. -/
theorem rel_of_classes (h : classes n found = classes n found') :
    Multiset.Rel (Bindings.Variant n) (found : Multiset Bindings) found' := by
  rw [classes, classes, ← Multiset.rel_eq, Multiset.rel_map] at h
  exact h.mono fun a _ b _ hab => Quotient.exact hab

/-! ### Meaning -/

/-- A search for a call comes to solutions of some classes. -/
def Finds (k : Knowledge) (n : ℕ) (t : Term) (c : Solution n) (M : Multiset (Solution n)) : Prop :=
  ∃ fuel e s found s', n ≤ s.fresh ∧ e.Before s.fresh ∧ e.solution n = c ∧
    solveF k fuel (pendingAt 0 [.call t]) e s = .ok (found, s') ∧ M = classes n found

/-- All searches for a call that come to an answer find the same. -/
theorem Finds.unique (hk : k.Parametric) {t : Term} (ht : t.Everywhere (Numbered (Set.Iio n)))
    {c : Solution n} {M M' : Multiset (Solution n)} (h : Finds k n t c M) (h' : Finds k n t c M') :
    M = M' := by
  obtain ⟨fuel, e, s, found, s₁, hs, he, rfl, hrun, rfl⟩ := h
  obtain ⟨fuel', e', s', found', s₁', hs', he', hclass, hrun', rfl⟩ := h'
  have hpending : PendingEverywhere (Numbered (Set.Iio n)) (pendingAt 0 [.call t]) :=
    pendingEverywhere_pendingAt.2 (by simpa using ht)
  have hvariant : e.Variant n e' := Quotient.exact hclass.symm
  have hmore := solveF_refines (Restricts.refl k) (Nat.le_max_left fuel fuel') _ _ _ _ hrun
  have hmore' := solveF_refines (Restricts.refl k) (Nat.le_max_right fuel fuel') _ _ _ _ hrun'
  obtain ⟨found₂, s₂, hrun₂, hvariants⟩ :=
    solveF_variant hk hpending hs hs' he he' hvariant hmore
  rw [hmore'] at hrun₂
  cases hrun₂
  exact classes_of_variants hvariants

open Classical in
/-- **The meaning of a call**: what the searches for it find, if one comes to an answer. -/
noncomputable def callMeaning (k : Knowledge) (n : ℕ) (t : Term) (c : Solution n) :
    Multiset (Solution n) :=
  if h : ∃ M, Finds k n t c M then h.choose else 0

theorem Finds.callMeaning_eq (hk : k.Parametric) {t : Term}
    (ht : t.Everywhere (Numbered (Set.Iio n))) {c : Solution n} {M : Multiset (Solution n)}
    (h : Finds k n t c M) : callMeaning k n t c = M := by
  have hex : ∃ M, Finds k n t c M := ⟨M, h⟩
  rw [callMeaning, dif_pos hex]
  exact hex.choose_spec.unique hk ht h

open Classical in
/-- The bindings as they are, unless something is found. -/
noncomputable def unlessFound (M : Multiset (Solution n)) (c : Solution n) :
    Multiset (Solution n) := if M = 0 then {c} else 0

mutual

/-- **The meaning of a goal.** -/
noncomputable def Goal.meaning (k : Knowledge) (n : ℕ) : Goal → Solution n → Multiset (Solution n)
  | .call t, c => callMeaning k n t c
  | .negation alternatives, c => unlessFound (Goal.sumMeaning k n alternatives c) c

/-- The meaning of a row of goals: each goes on from what the goals before it come to. -/
noncomputable def Goal.rowMeaning (k : Knowledge) (n : ℕ) :
    List Goal → Solution n → Multiset (Solution n)
  | [], c => {c}
  | g :: gs, c => (Goal.meaning k n g c).bind (Goal.rowMeaning k n gs)

/-- The meaning of alternatives: what all of them come to. -/
noncomputable def Goal.sumMeaning (k : Knowledge) (n : ℕ) :
    List (List Goal) → Solution n → Multiset (Solution n)
  | [], _ => 0
  | b :: bs, c => Goal.rowMeaning k n b c + Goal.sumMeaning k n bs c

end

/-- **The meaning of a tree of goals.** -/
noncomputable def GoalTree.meaning (k : Knowledge) (n : ℕ) :
    GoalTree → Solution n → Multiset (Solution n)
  | .call t, c => callMeaning k n t c
  | .both left right, c => (left.meaning k n c).bind (right.meaning k n)
  | .either left right, c => left.meaning k n c + right.meaning k n c
  | .negation inner, c => unlessFound (inner.meaning k n c) c

/-! ### Alternatives mean what the tree means -/

section Algebra

variable {c : Solution n}

@[simp] theorem Goal.rowMeaning_singleton (g : Goal) :
    Goal.rowMeaning k n [g] c = g.meaning k n c := by
  rw [Goal.rowMeaning]
  exact (Multiset.bind_singleton _ fun c => c).trans (Multiset.map_id' _)

theorem Goal.rowMeaning_append (left right : List Goal) :
    Goal.rowMeaning k n (left ++ right) c =
      (Goal.rowMeaning k n left c).bind (Goal.rowMeaning k n right) := by
  induction left generalizing c with
  | nil => simp [Goal.rowMeaning]
  | cons g gs ih => simp only [List.cons_append, Goal.rowMeaning, Multiset.bind_assoc, ih]

theorem Goal.sumMeaning_append (bs bs' : List (List Goal)) :
    Goal.sumMeaning k n (bs ++ bs') c =
      Goal.sumMeaning k n bs c + Goal.sumMeaning k n bs' c := by
  induction bs with
  | nil => simp [Goal.sumMeaning]
  | cons b bs ih => simp only [List.cons_append, Goal.sumMeaning, ih, add_assoc]

/-- A row in front of all alternatives. -/
theorem Goal.sumMeaning_map_append (left : List Goal) (right : List (List Goal)) :
    Goal.sumMeaning k n (right.map fun r => left ++ r) c =
      (Goal.rowMeaning k n left c).bind (Goal.sumMeaning k n right) := by
  induction right with
  | nil => simp [Goal.sumMeaning]
  | cons r right ih =>
      simp only [List.map_cons, Goal.sumMeaning, Goal.rowMeaning_append, ih, Multiset.bind_add]

/-- **Pairing distributes**: all pairs of alternatives go on from what the left ones come to. -/
theorem GoalTree.sumMeaning_paired (left right : List (List Goal)) :
    Goal.sumMeaning k n (paired left right) c =
      (Goal.sumMeaning k n left c).bind (Goal.sumMeaning k n right) := by
  induction left with
  | nil => simp [paired, Goal.sumMeaning]
  | cons l left ih =>
      rw [paired] at ih
      simp only [paired, List.flatMap_cons, Goal.sumMeaning_append, Goal.sumMeaning_map_append, ih,
        Goal.sumMeaning, Multiset.add_bind]

/-- **The alternatives of a tree mean what the tree means.** -/
theorem GoalTree.sumMeaning_alternatives (tree : GoalTree) (c : Solution n) :
    Goal.sumMeaning k n tree.alternatives c = tree.meaning k n c := by
  induction tree generalizing c with
  | call t => simp [alternatives, Goal.sumMeaning, Goal.meaning, meaning]
  | both left right ihl ihr =>
      rw [alternatives, sumMeaning_paired, ihl, funext ihr, meaning]
  | either left right ihl ihr => rw [alternatives, Goal.sumMeaning_append, ihl, ihr, meaning]
  | negation inner ih =>
      simp [alternatives, Goal.sumMeaning, Goal.meaning, meaning, ih]

end Algebra

/-! ### Searches come to the meaning -/

/-- **A run comes to a meaning**: whenever it comes to an answer, it finds what the meaning says,
with names from before the next trial. -/
def Means (n : ℕ) (run : Bindings → Progress → Found)
    (F : Solution n → Multiset (Solution n)) : Prop :=
  ∀ e s found s', n ≤ s.fresh → e.Before s.fresh → run e s = .ok (found, s') →
    s.fresh ≤ s'.fresh ∧ (∀ a ∈ found, a.Before s'.fresh) ∧ F (e.solution n) = classes n found

/-- Runs that come to a meaning, from several bindings one after the other. -/
theorem Means.gather {run : Bindings → Progress → Found} {F : Solution n → Multiset (Solution n)}
    (h : Means n run F) {mids : List Bindings} (hs : n ≤ s.fresh)
    (hmids : ∀ a ∈ mids, a.Before s.fresh) (hrun : gather run mids s = .ok (found, s')) :
    s.fresh ≤ s'.fresh ∧ (∀ a ∈ found, a.Before s'.fresh) ∧
      (classes n mids).bind F = classes n found := by
  induction mids generalizing s found with
  | nil =>
      cases hrun
      exact ⟨Nat.le_refl _, fun a ha => (nomatch ha), rfl⟩
  | cons mid mids ih =>
      obtain ⟨part, s₁, more, hpart, hmore, rfl⟩ := gather_cons.1 hrun
      obtain ⟨hmid, hmids⟩ := List.forall_mem_cons.1 hmids
      obtain ⟨hle, hbefore, hmeaning⟩ := h mid s part s₁ hs hmid hpart
      obtain ⟨hle', hbefore', hmeaning'⟩ :=
        ih (hs.trans hle) (fun a ha => (hmids a ha).mono hle) hmore
      refine ⟨hle.trans hle', ?_, ?_⟩
      · exact List.forall_mem_append.2 ⟨fun a ha => (hbefore a ha).mono hle', hbefore'⟩
      · rw [classes_cons, Multiset.cons_bind, hmeaning, hmeaning', classes_append]

/-- A negation is decided by whether its alternatives mean anything. -/
theorem anyProof_meaning {alternatives : List (List Goal)}
    (h : ∀ b ∈ alternatives, Means n (solveF k fuel (pendingAt 0 b)) (Goal.rowMeaning k n b))
    (hs : n ≤ s.fresh) (he : e.Before s.fresh) {v : Bool}
    (hrun : anyProof (fun b => solveF k fuel (pendingAt 0 b) e) alternatives s = .ok (v, s')) :
    v = true ↔ Goal.sumMeaning k n alternatives (e.solution n) ≠ 0 := by
  induction alternatives generalizing s with
  | nil =>
      cases hrun
      simp [Goal.sumMeaning]
  | cons b alternatives ih =>
      obtain ⟨hb, hrest⟩ := List.forall_mem_cons.1 h
      simp only [anyProof] at hrun
      split at hrun
      · cases hrun
      next found s₁ hfound =>
      obtain ⟨hle, -, hmeaning⟩ := hb e s found s₁ hs he hfound
      rw [Goal.sumMeaning, hmeaning]
      split at hrun
      · next hempty =>
          rw [List.isEmpty_iff.1 hempty, classes_nil, zero_add]
          exact ih hrest (hs.trans hle) (he.mono hle) hrun
      · next hempty =>
          cases hrun
          refine ⟨fun _ hzero => hempty ?_, fun _ => rfl⟩
          have hle : classes n found ≤ 0 := hzero ▸ Multiset.le_add_right _ _
          exact List.isEmpty_iff.2 (classes_eq_zero.1 (Multiset.le_zero.1 hle))

section Searches

variable (hk : k.Parametric)
include hk

/-- A search comes to a meaning, if it finds it. -/
theorem means_of_eq {pending : List Pending}
    (hpending : PendingEverywhere (Numbered (Set.Iio n)) pending)
    {F : Solution n → Multiset (Solution n)}
    (h : ∀ e s found s', n ≤ s.fresh → e.Before s.fresh →
      solveF k fuel pending e s = .ok (found, s') → F (e.solution n) = classes n found) :
    Means n (solveF k fuel pending) F := by
  intro e s found s' hs he hrun
  have hpending' : PendingEverywhere (Numbered (Set.Iio s.fresh)) pending :=
    hpending.mono fun u hu => hu.mono (Set.Iio_subset_Iio hs)
  exact ⟨solveF_advances k fuel pending e s found s' hrun,
    solveF_before hk hpending' he hrun, h e s found s' hs he hrun⟩

theorem means_call {t : Term} (ht : t.Everywhere (Numbered (Set.Iio n))) :
    Means n (solveF k fuel (pendingAt 0 [.call t])) (callMeaning k n t) := by
  refine means_of_eq hk (pendingEverywhere_pendingAt.2 (by simpa using ht)) ?_
  intro e s found s' hs he hrun
  exact Finds.callMeaning_eq hk ht ⟨fuel, e, s, found, s', hs, he, rfl, hrun, rfl⟩

/-- Rows come to their meaning, if each of their goals does. -/
theorem means_row {b : List Goal} (hb : ∀ g ∈ b, g.Everywhere (Numbered (Set.Iio n)))
    (hgoals : ∀ g ∈ b, ∀ fuel, Means n (solveF k fuel (pendingAt 0 [g])) (g.meaning k n)) :
    ∀ fuel, Means n (solveF k fuel (pendingAt 0 b)) (Goal.rowMeaning k n b) := by
  intro fuel
  induction b with
  | nil =>
      refine means_of_eq hk pendingEverywhere_nil ?_
      intro e s found s' hs he hrun
      cases fuel with
      | zero => cases hrun
      | succ fuel =>
          cases hrun
          rw [Goal.rowMeaning, classes_singleton]
  | cons g b ih =>
      obtain ⟨hg, hrest⟩ := List.forall_mem_cons.1 hgoals
      obtain ⟨hgNumbered, hbNumbered⟩ := List.forall_mem_cons.1 hb
      refine means_of_eq hk (pendingEverywhere_pendingAt.2 hb) ?_
      intro e s found s' hs he hrun
      -- the search for the row is the search for the first goal, and then those for the others
      have hfirst : PendingEverywhere (Numbered (Set.Iio n)) (pendingAt 0 [g]) :=
        pendingEverywhere_pendingAt.2 (by simpa using hgNumbered)
      have hmore : PendingEverywhere (Numbered (Set.Iio n)) (pendingAt 0 b) :=
        pendingEverywhere_pendingAt.2 hbNumbered
      have hsub : ∀ u : Term, u.Numbered (Set.Iio n) → u.Numbered (Set.Iio s.fresh) :=
        fun u hu => hu.mono (Set.Iio_subset_Iio hs)
      have hsplit : solveF k fuel (pendingAt 0 [g] ++ pendingAt 0 b) e s = .ok (found, s') := hrun
      obtain ⟨mids, s₁, hmids, hspread⟩ := solveF_follows_self hk (hfirst.mono hsub) he hsplit
      obtain ⟨found', s₂, hfound, hvariants⟩ := hspread.exists_gather
        (solveF_advances k fuel (pendingAt 0 b))
        (fun part mid hc t hle => hc.exists_run hk (hmore.mono hsub) hle) (Nat.le_refl _)
      obtain ⟨hle, hbefore, hmeaning⟩ := hg fuel e s mids s₁ hs he hmids
      obtain ⟨-, -, hmeaning'⟩ :=
        (ih hbNumbered hrest).gather (hs.trans hle) hbefore hfound
      rw [Goal.rowMeaning, hmeaning, hmeaning']
      exact (classes_of_variants (hvariants.imp fun a b h => h.mono hs)).symm

/-- **The search for a goal comes to its meaning.** -/
theorem means_goal {g : Goal} (hg : g.Everywhere (Numbered (Set.Iio n))) (fuel : ℕ) :
    Means n (solveF k fuel (pendingAt 0 [g])) (g.meaning k n) := by
  induction g generalizing fuel with
  | call t => exact means_call hk (Goal.everywhere_call.1 hg)
  | negation alternatives ih =>
      refine means_of_eq hk (pendingEverywhere_pendingAt.2 (by simpa using hg)) ?_
      rw [Goal.everywhere_negation] at hg
      intro e s found s' hs he hrun
      cases fuel with
      | zero => cases hrun
      | succ fuel =>
          have hrows : ∀ b ∈ alternatives,
              Means n (solveF k fuel (pendingAt 0 b)) (Goal.rowMeaning k n b) := fun b hb =>
            means_row hk (hg b hb) (fun g hgb fuel => ih b hb g hgb (hg b hb g hgb) fuel) fuel
          have hany : ∀ v s₁, anyProof (fun b => solveF k fuel (pendingAt 0 b) e) alternatives s =
              .ok (v, s₁) → (v = true ↔ Goal.sumMeaning k n alternatives (e.solution n) ≠ 0) :=
            fun _ _ => anyProof_meaning hrows hs he
          simp only [pendingAt, List.map_cons, List.map_nil, solveF] at hrun
          rw [Goal.meaning]
          split at hrun
          · cases hrun
          · next s₁ hs₁ =>
              cases hrun
              rw [unlessFound, if_neg ((hany _ _ hs₁).1 rfl), classes_nil]
          · next s₁ hs₁ =>
              have hzero : Goal.sumMeaning k n alternatives (e.solution n) = 0 := by
                by_contra hne
                exact Bool.false_ne_true ((hany _ _ hs₁).2 hne)
              rw [unlessFound, if_pos hzero]
              cases fuel with
              | zero => cases hrun
              | succ fuel =>
                  cases hrun
                  rfl

/-- **The search for a row comes to its meaning.** -/
theorem means_solve (hgoals : GoalsBefore n goals) :
    Means n (solve k goals) (Goal.rowMeaning k n goals) := fun e s found s' =>
  means_row hk hgoals (fun _ hg fuel => means_goal hk (hgoals _ hg) fuel) searchBudget e
    { s with warned := false } found s'

/-- Searches for alternatives, one after the other, come to their meaning. -/
theorem sumMeaning_of_gather {alternatives : List (List Goal)}
    (halternatives : ∀ b ∈ alternatives, GoalsBefore n b) (hs : n ≤ s.fresh)
    (he : e.Before s.fresh)
    (hrun : gather (fun b => solve k b e) alternatives s = .ok (found, s')) :
    Goal.sumMeaning k n alternatives (e.solution n) = classes n found := by
  induction alternatives generalizing s found with
  | nil =>
      cases hrun
      rfl
  | cons b alternatives ih =>
      obtain ⟨part, s₁, more, hpart, hmore, rfl⟩ := gather_cons.1 hrun
      obtain ⟨hb, hrest⟩ := List.forall_mem_cons.1 halternatives
      obtain ⟨hle, -, hmeaning⟩ := means_solve hk hb e s part s₁ hs he hpart
      have hmeaning' := ih hrest (hs.trans hle) (he.mono hle) hmore
      rw [Goal.sumMeaning, hmeaning, hmeaning', classes_append]

/-! ### The interpreter comes to the meaning -/

/-- **The interpreter of a tree comes to its meaning.** -/
theorem GoalTree.means_interpret {tree : GoalTree}
    (htree : tree.Everywhere (Numbered (Set.Iio n))) :
    Means n (tree.interpret k) (tree.meaning k n) := by
  induction tree with
  | call t =>
      have hgoals : GoalsBefore n [.call t] := by
        simpa [GoalsBefore] using show t.Everywhere _ from htree
      intro e s found s' hs he hrun
      obtain ⟨hle, hbefore, hmeaning⟩ := means_solve hk hgoals e s found s' hs he hrun
      exact ⟨hle, hbefore, by rwa [Goal.rowMeaning_singleton] at hmeaning⟩
  | both left right ihl ihr =>
      intro e s found s' hs he hrun
      simp only [interpret] at hrun
      split at hrun
      · cases hrun
      next mids s₁ hmids =>
      obtain ⟨hle, hbefore, hmeaning⟩ := ihl htree.1 e s mids s₁ hs he hmids
      obtain ⟨hle', hbefore', hmeaning'⟩ := (ihr htree.2).gather (hs.trans hle) hbefore hrun
      exact ⟨hle.trans hle', hbefore', by rw [meaning, hmeaning, hmeaning']⟩
  | either left right ihl ihr =>
      intro e s found s' hs he hrun
      simp only [interpret] at hrun
      split at hrun
      · cases hrun
      next part s₁ hpart =>
      split at hrun
      · cases hrun
      next more s₂ hmore =>
      cases hrun
      obtain ⟨hle, hbefore, hmeaning⟩ := ihl htree.1 e s part s₁ hs he hpart
      obtain ⟨hle', hbefore', hmeaning'⟩ :=
        ihr htree.2 _ _ _ _ (hs.trans hle) (he.mono hle) hmore
      refine ⟨hle.trans hle', ?_, by rw [meaning, hmeaning, hmeaning', classes_append]⟩
      exact List.forall_mem_append.2 ⟨fun a ha => (hbefore a ha).mono hle', hbefore'⟩
  | negation inner ih =>
      intro e s found s' hs he hrun
      simp only [interpret] at hrun
      split at hrun
      · cases hrun
      next part s₁ hpart =>
      cases hrun
      obtain ⟨hle, -, hmeaning⟩ := ih htree _ _ _ _ hs he hpart
      rw [meaning, hmeaning]
      cases part with
      | nil =>
          refine ⟨hle, ?_, ?_⟩
          · simpa using he.mono hle
          · simp [unlessFound]
      | cons a part =>
          refine ⟨hle, ?_, ?_⟩
          · simp
          · simp [unlessFound]

end Searches

/-! ### Alternatives have the solutions of the tree -/

theorem GoalTree.Everywhere.mono {P Q : Term → Prop} {tree : GoalTree} (h : tree.Everywhere P)
    (hPQ : ∀ u, P u → Q u) : tree.Everywhere Q := by
  induction tree with
  | call t => exact Term.Everywhere.mono h hPQ
  | both _ _ ihl ihr | either _ _ ihl ihr => exact ⟨ihl h.1, ihr h.2⟩
  | negation _ ih => exact ih h

/-- What holds everywhere in a tree holds everywhere in the goals of its alternatives. -/
theorem GoalTree.Everywhere.rows {P : Term → Prop} {tree : GoalTree} (h : tree.Everywhere P) :
    ∀ b ∈ tree.alternatives, ∀ g ∈ b, g.Everywhere P := by
  induction tree with
  | call t => simpa [GoalTree.alternatives] using show t.Everywhere P from h
  | both left right ihl ihr =>
      intro b hb g hg
      simp only [GoalTree.alternatives, GoalTree.paired, List.mem_flatMap, List.mem_map] at hb
      obtain ⟨l, hl, r, hr, rfl⟩ := hb
      exact (List.mem_append.1 hg).elim (ihl h.1 l hl g) (ihr h.2 r hr g)
  | either left right ihl ihr =>
      intro b hb
      exact (List.mem_append.1 hb).elim (ihl h.1 b) (ihr h.2 b)
  | negation inner ih => simpa [GoalTree.alternatives] using ih h

/-- Where all builtins are parametric, the alternatives of a tree have the solutions that the
interpreter finds. -/
theorem rel_of_interpret (hk : k.Parametric) {tree : GoalTree}
    (htree : tree.Everywhere (Numbered (Set.Iio n))) (he : e.Before n) (hs : n ≤ s.fresh)
    (ht : n ≤ t.fresh)
    (h : gather (fun b => solve k b e) tree.alternatives s = .ok (found, s'))
    (h' : tree.interpret k e t = .ok (found', t')) :
    Multiset.Rel (Bindings.Variant n) (found : Multiset Bindings) found' := by
  obtain ⟨-, -, hmeaning⟩ := GoalTree.means_interpret hk htree e t found' t' ht (he.mono ht) h'
  refine rel_of_classes ?_
  calc classes n found = Goal.sumMeaning k n tree.alternatives (e.solution n) :=
        (sumMeaning_of_gather hk htree.rows hs (he.mono hs) h).symm
    _ = tree.meaning k n (e.solution n) := GoalTree.sumMeaning_alternatives tree _
    _ = classes n found' := hmeaning

/-- **Expanding connectives preserves meaning.**  Let a tree of goals, and bindings, have no name of
the trial `n` or of a later one, and let the alternatives of the tree be searched one after the
other and the tree be interpreted as it stands, each from some state in which the next trial is `n`
or a later one.  If both come to an answer without a builtin that remembers or draws, then they find
the same solutions as often, up to their order and to the numbers of the trials that were made. -/
theorem solve_alternatives (hk : ∀ b ∈ k.builtins.builtins, b ∈ Builtin.standard) {tree : GoalTree}
    (htree : tree.Everywhere (Numbered (Set.Iio n))) (he : e.Before n) (hs : n ≤ s.fresh)
    (ht : n ≤ t.fresh)
    (hsteady : gather (fun b => solve k.steady b e) tree.alternatives s =
      gather (fun b => solve k b e) tree.alternatives s)
    (hsteady' : tree.interpret k.steady e t = tree.interpret k e t)
    (h : gather (fun b => solve k b e) tree.alternatives s = .ok (found, s'))
    (h' : tree.interpret k e t = .ok (found', t')) :
    Multiset.Rel (Bindings.Variant n) (found : Multiset Bindings) found' :=
  rel_of_interpret (parametric_steady hk) htree he hs ht (hsteady.trans h) (hsteady'.trans h')

/-- A conjunction over a disjunction with a negated disjunction in it: the alternatives find the
three solutions in another order than the interpreter does. -/
theorem solve_alternatives_reordered :
    let k : Knowledge :=
      ⟨⟨[⟨.compound "p" [.atom "a"], []⟩, ⟨.compound "p" [.var "X"],
          [.call (.compound "=" [.var "X", .atom "b"])]⟩]⟩, .standard, 2, 120⟩
    let tree : GoalTree :=
      .both (.call (.compound "p" [.var "U"]))
        (.either (.call (.compound "=" [.var "V", .var "Z"]))
          (.negation (.either (.call (.compound "=" [.var "U", .atom "c"]))
            (.call (.compound "=" [.var "U", .var "Z"])))))
    let e : Bindings := Bindings.empty.bind "Z" (.atom "b")
    let s : Progress := ⟨⟨.empty, .ofSeed 0, []⟩, 0, false⟩
    ∃ found s' found' t',
      gather (fun b => solve k b e) tree.alternatives s = .ok (found, s') ∧
      tree.interpret k e s = .ok (found', t') ∧ found.length = 3 ∧
      Multiset.Rel (Bindings.Variant s.fresh) (found : Multiset Bindings) found' := by
  intro k tree e s
  have hcount : ((gather (fun b => solve k.steady b e) tree.alternatives s).toOption.map
      fun r => r.1.length) = some 3 := by
    decide +kernel
  have hcount' : ((tree.interpret k.steady e s).toOption.map fun r => r.1.length) = some 3 := by
    decide +kernel
  -- both come to an answer under the guard, and so to the same one without it
  obtain ⟨⟨found, s'⟩, hguarded, hlength⟩ := exists_ok hcount
  obtain ⟨⟨found', t'⟩, hguarded', -⟩ := exists_ok hcount'
  have h := gather_refines (fun b _ => solve_refines_steady k b e) s _ hguarded
  have h' := tree.interpret_refines k e s _ hguarded'
  let P : Term → Prop := Term.NamedIn ["U", "V", "Z"]
  have hP : ∀ u, P u → u.Numbered (Set.Iio s.fresh) := fun u hu => hu.numbered (by decide) _
  have htree : tree.Everywhere P := by simp [tree, GoalTree.Everywhere, P, Term.NamedIn]
  have he : e.AllEntries P :=
    .bind Bindings.allEntries_empty (by simp [P, Term.NamedIn]) (by simp [P, Term.NamedIn])
  have hrel := solve_alternatives (fun _ hb => hb) (htree.mono hP) (he.mono hP)
    (Nat.le_refl s.fresh) (Nat.le_refl s.fresh) (hguarded.trans h.symm) (hguarded'.trans h'.symm)
    h h'
  exact ⟨found, s', found', t', h, h', hlength, hrel⟩

end RhythmLogic
