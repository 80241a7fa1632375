/-
**Conjunction composes.**

The search never puts solutions together: it works on one row of goals, and what is left of the row
waits behind the bodies of clauses.  That the solutions of two rows, one after the other, are those
of the second row from each solution of the first one is therefore a theorem.  It is an instance of
following: the search for the first row follows the search for both, and wherever that one takes up
the second row, a search for the second row follows it in turn.

Solutions come in the same order and as often; only the numbers in names differ, since the trials
are made in another order.  A builtin that remembers or draws would see that order, so the search
must use none of them.

Main results:

* `solveF_follows_self` — the search for the first goals follows the search for all of them;
* `Continues.exists_run` — a search for the goals that were left follows in turn;
* `solve_append` — **solving two rows is solving the second one from each solution of the first**.
-/

import RhythmLogic.CommandLine.Mixer
import RhythmLogic.Proofs.Following

set_option autoImplicit false

namespace RhythmLogic

open Term (Numbered)

variable {k : Knowledge} {g₁ g₂ goals : List Goal} {e e' : Bindings} {s s' t : Progress} {m n : ℕ}
  {found mids : List Bindings}

/-! ### Variants -/

/-- Bindings whose numbers go to others, and those before `n` to themselves, are variants. -/
theorem variant_relabel {τ : Equiv.Perm ℕ} (hτ : ∀ i < n, τ i = i) (e : Bindings) :
    e.Variant n (e.relabel (renumber τ)) := ⟨τ, hτ, rfl⟩

/-- A search without goals left over is followed to variants. -/
theorem Spread.variants {S : Set ℕ} {σ : Equiv.Perm ℕ} {fuel : ℕ} (hS : Set.Iio n ⊆ S)
    (hσ : ∀ i < n, σ i = i) (h : Spread (Continues k fuel [] S σ m) found mids) :
    List.Forall₂ (Bindings.Variant n) found mids := by
  refine h.forall₂ fun part mid hc => ?_
  obtain ⟨a, rfl, S', τ, -, hτ, -, -, rfl⟩ := hc.eq_singleton
  exact ⟨a, rfl, variant_relabel (fun i hi => (hτ i (hS hi)).trans (hσ i hi)) a⟩

/-! ### One row after the other -/

section Rows

variable {fuel : ℕ} {pending more : List Pending}

/-- **The search for the first goals follows the search for all of them,** from one state. -/
theorem solveF_follows_self (hk : k.Parametric)
    (hpending : PendingEverywhere (Numbered (Set.Iio s.fresh)) pending) (he : e.Before s.fresh)
    (h : solveF k fuel (pending ++ more) e s = .ok (found, s')) :
    ∃ mids s₁, solveF k fuel pending e s = .ok (mids, s₁) ∧
      Spread (Continues k fuel more (Set.Iio s.fresh) (Equiv.refl ℕ) s₁.fresh) found mids := by
  have hself : ∀ i ∈ Set.Iio s.fresh, Equiv.refl ℕ i = i := fun _ _ => rfl
  have hlinked : Linked (Set.Iio s.fresh) (Equiv.refl ℕ) s.fresh s.fresh :=
    ⟨fun _ hi => hi, fun _ hi => hi⟩
  have hfollows := solveF_follows hk fuel pending more e _ (Equiv.refl ℕ) hpending he
  rw [map_relabel_renumber_eq_self hself hpending, Bindings.relabel_renumber_eq_self hself he]
    at hfollows
  exact hfollows s s found s' hlinked h

/-- **A search for the goals that were left** comes to variants of what the search for all goals
goes on to. -/
theorem Continues.exists_run (hk : k.Parametric)
    (hmore : PendingEverywhere (Numbered (Set.Iio n)) more) {part : List Bindings} {mid : Bindings}
    (h : Continues k fuel more (Set.Iio n) (Equiv.refl ℕ) m part mid) (hle : m ≤ t.fresh) :
    ∃ part' t', solveF k fuel more mid t = .ok (part', t') ∧
      List.Forall₂ (Bindings.Variant n) part part' := by
  obtain @⟨fuel', S, τ, e, s, s', part, hfuel, hS, hτ, hlinked, he, hrun⟩ := h
  -- with all of the fuel the search that goes on comes to the same
  have hrun' : solveF k fuel (more ++ []) e s = .ok (part, s') := by
    rw [List.append_nil]
    exact solveF_refines (Restricts.refl k) hfuel _ e s _ hrun
  have hfollows := solveF_follows hk fuel more [] e S τ (hmore.mono fun u hu => hu.mono hS) he
  rw [map_relabel_renumber_eq_self hτ hmore] at hfollows
  obtain ⟨part', t', ht, hspread⟩ := hfollows s t part s' (hlinked.mono (Nat.le_refl _) hle) hrun'
  exact ⟨part', t', ht, hspread.variants hS hτ⟩

end Rows

/-- A search does not take the number of trials back. -/
theorem solve_advances (k : Knowledge) (goals : List Goal) (e : Bindings) :
    Advances (solve k goals e) :=
  fun s found s' h => solveF_advances k searchBudget _ e { s with warned := false } found s' h

/-- Where the parts of spread solutions are found by runs from the bindings that they belong to,
all of them are found by these runs together. -/
theorem Spread.exists_gather {R : List Bindings → Bindings → Prop}
    {Q : Bindings → Bindings → Prop} {run : Bindings → Progress → Found} (h : Spread R found mids)
    (hadvances : ∀ mid, Advances (run mid))
    (hrun : ∀ part mid, R part mid → ∀ t : Progress, m ≤ t.fresh →
      ∃ part' t', run mid t = .ok (part', t') ∧ List.Forall₂ Q part part')
    (hle : m ≤ t.fresh) :
    ∃ found' t', gather run mids t = .ok (found', t') ∧ List.Forall₂ Q found found' := by
  induction h generalizing t with
  | nil => exact ⟨[], t, rfl, .nil⟩
  | cons hpart _ ih =>
      obtain ⟨part', t₁, hmid, hvariants⟩ := hrun _ _ hpart t hle
      obtain ⟨found', t₂, hmids, hvariants'⟩ := ih (hle.trans (hadvances _ _ _ _ hmid))
      exact ⟨part' ++ found', t₂, gather_cons.2 ⟨part', t₁, found', hmid, hmids, rfl⟩,
        List.rel_append hvariants hvariants'⟩

/-- Two rows one after the other, where all builtins are parametric. -/
theorem solve_append_of_parametric (hk : k.Parametric) (hg₁ : GoalsBefore s.fresh g₁)
    (hg₂ : GoalsBefore s.fresh g₂) (he : e.Before s.fresh)
    (h : solve k (g₁ ++ g₂) e s = .ok (found, s')) :
    ∃ mids s₁ found' s₂, solve k g₁ e s = .ok (mids, s₁) ∧
      gather (solve k g₂) mids s₁ = .ok (found', s₂) ∧
      List.Forall₂ (Bindings.Variant s.fresh) found found' := by
  rw [solve, pendingAt_append] at h
  obtain ⟨mids, s₁, hmids, hspread⟩ :=
    solveF_follows_self (s := { s with warned := false }) hk
      (pendingEverywhere_pendingAt.2 hg₁) he h
  have hrun : ∀ part mid, Continues k searchBudget (pendingAt 0 g₂) (Set.Iio s.fresh)
      (Equiv.refl ℕ) s₁.fresh part mid → ∀ t : Progress, s₁.fresh ≤ t.fresh →
      ∃ part' t', solve k g₂ mid t = .ok (part', t') ∧
        List.Forall₂ (Bindings.Variant s.fresh) part part' := by
    intro part mid hc t hle
    obtain ⟨part', t', ht, hvariants⟩ :=
      hc.exists_run (t := { t with warned := false }) hk (pendingEverywhere_pendingAt.2 hg₂) hle
    exact ⟨part', t', ht, hvariants⟩
  obtain ⟨found', s₂, hfound, hvariants⟩ :=
    hspread.exists_gather (solve_advances k g₂) hrun (Nat.le_refl _)
  exact ⟨mids, s₁, found', s₂, hmids, hfound, hvariants⟩

/-- **Conjunction composes.**  Let a search with the standard builtins solve two rows of goals, one
behind the other, and use no builtin that remembers or draws: it does not change when these are made
to halt it.  Let no name in the goals or bindings be that of a trial to come.  If the search comes
to an answer, then so does the search for the first row, and so does the one for the second row from
each solution of the first one in turn; and the solutions are the same, in the same order and as
often, up to the numbers of the trials that were made. -/
theorem solve_append (hk : ∀ b ∈ k.builtins.builtins, b ∈ Builtin.standard)
    (hg₁ : GoalsBefore s.fresh g₁) (hg₂ : GoalsBefore s.fresh g₂) (he : e.Before s.fresh)
    (hsteady : solve k.steady (g₁ ++ g₂) e s = solve k (g₁ ++ g₂) e s)
    (h : solve k (g₁ ++ g₂) e s = .ok (found, s')) :
    ∃ mids s₁ found' s₂, solve k g₁ e s = .ok (mids, s₁) ∧
      gather (solve k g₂) mids s₁ = .ok (found', s₂) ∧
      List.Forall₂ (Bindings.Variant s.fresh) found found' := by
  have h' : solve k.steady (g₁ ++ g₂) e s = .ok (found, s') := hsteady.trans h
  obtain ⟨mids, s₁, found', s₂, hmids, hfound, hvariants⟩ :=
    solve_append_of_parametric (parametric_steady hk) hg₁ hg₂ he h'
  exact ⟨mids, s₁, found', s₂, solve_refines_steady k g₁ e s _ hmids,
    gather_refines (fun mid _ => solve_refines_steady k g₂ mid) s₁ _ hfound, hvariants⟩

/-- A row is put behind one with a negation, from bindings with an entry; the program has a negation
too, and both rows make trials, so that the numbers of the solutions differ. -/
theorem solve_append_negations :
    let k : Knowledge :=
      ⟨⟨[⟨.compound "p" [.atom "a"], []⟩, ⟨.compound "p" [.atom "b"], []⟩,
          ⟨.compound "q" [.var "X", .var "Y"],
            [.call (.compound "p" [.var "Y"]),
              .negation [[.call (.compound "=" [.var "X", .var "Y"])]]]⟩]⟩,
        .standard, 8, 120⟩
    let g₁ : List Goal :=
      [.call (.compound "p" [.var "U"]), .negation [[.call (.compound "=" [.var "U", .var "Z"])]]]
    let g₂ : List Goal := [.call (.compound "q" [.var "U", .var "V"])]
    let e : Bindings := Bindings.empty.bind "Z" (.atom "b")
    let s : Progress := ⟨⟨.empty, .ofSeed 0, []⟩, 0, false⟩
    ∃ found s' mids s₁ found' s₂, solve k (g₁ ++ g₂) e s = .ok (found, s') ∧ found.length = 1 ∧
      solve k g₁ e s = .ok (mids, s₁) ∧ gather (solve k g₂) mids s₁ = .ok (found', s₂) ∧
      List.Forall₂ (Bindings.Variant s.fresh) found found' := by
  intro k g₁ g₂ e s
  obtain ⟨found, s', h, hlength⟩ :
      ∃ found s', solve k (g₁ ++ g₂) e s = .ok (found, s') ∧ found.length = 1 := by
    simp only [k, g₁, g₂, e, s]
    refine ⟨_, _, rfl, ?_⟩
    rfl
  have hsteady : solve k.steady (g₁ ++ g₂) e s = solve k (g₁ ++ g₂) e s := by
    simp only [k, g₁, g₂, e, s]
    rfl
  let P : Term → Prop := Term.NamedIn ["U", "V", "Z"]
  have hP : ∀ u, P u → u.Numbered (Set.Iio s.fresh) := fun u hu => hu.numbered (by decide) _
  have hg₁ : ∀ g ∈ g₁, g.Everywhere P := by simp [g₁, P, Term.NamedIn]
  have hg₂ : ∀ g ∈ g₂, g.Everywhere P := by simp [g₂, P, Term.NamedIn]
  have he : e.AllEntries P :=
    .bind Bindings.allEntries_empty (by simp [P, Term.NamedIn]) (by simp [P, Term.NamedIn])
  obtain ⟨mids, s₁, found', s₂, hmids, hfound, hvariants⟩ :=
    solve_append (fun _ hb => hb) (fun g hg => (hg₁ g hg).mono hP) (fun g hg => (hg₂ g hg).mono hP)
      (he.mono hP) hsteady h
  exact ⟨found, s', mids, s₁, found', s₂, h, hlength, hmids, hfound, hvariants⟩

end RhythmLogic
