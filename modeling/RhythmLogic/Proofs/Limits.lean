/-
**Limits: a depth limit that was not hit cannot be observed.**

A search prunes what is nested too deep, and then its answer is not that of the program: solutions
may be missing, and a negation may hold that does not.  It tells so the first time.  Where it did
not tell, nothing was pruned, and the search with a greater limit makes the same steps: it comes to
the same solutions, and it leaves the memory, the chance, the number of trials and all that was told
as the first search does.

The smaller limit is a restriction, and it spoils the answers that have the mark of the warning.
The mark is never taken back, so that an answer without it comes from runs without it; this is what
refinement asks of the answers that are kept.

Main definitions:

* `Knowledge.limited` — the same knowledge with another depth limit;
* `Progress.Unmarked` — no warning was given of a call that was nested too deep.

Main results:

* `restrictsWhere_limited` — a smaller limit restricts, and spoils what it marks;
* `solve_limited` — **a depth limit that was not told of cannot be observed**.
-/

import RhythmLogic.CommandLine.Mixer
import RhythmLogic.Proofs.Notices
import RhythmLogic.Proofs.Refinement

set_option autoImplicit false

namespace RhythmLogic

variable {k : Knowledge} {d d' : Nat}

/-- What a search works with, under another depth limit. -/
def Knowledge.limited (k : Knowledge) (d : Nat) : Knowledge := { k with maxDepth := d }

/-! ### The mark stays -/

/-- The mark that the limit was hit is not set. -/
def Progress.Unmarked (s : Progress) : Prop := s.warned = false

/-- A call that is nested too deep leaves the mark. -/
theorem not_unmarked_prune (limit : Nat) (call : Term) (s : Progress) :
    ¬ (prune limit call s).Unmarked := by
  have hmark : (prune limit call s).warned = true := by
    rw [prune]
    split
    · next hs => exact hs
    · rfl
  exact fun h => Bool.false_ne_true (h.symm.trans hmark)

/-- What a search does takes no mark back. -/
theorem allows_unmarked (k : Knowledge) : Allows k (Progress.Backward Progress.Unmarked) where
  refl := .refl
  trans := .trans
  trial _ := id
  tell _ _ := id
  prune s limit call h := absurd h (not_unmarked_prune limit call s)
  builtin _ _ _ _ := id

/-- **A smaller limit is a restriction**, and answers with the mark are spoiled. -/
theorem restrictsWhere_limited (k : Knowledge) (hle : d ≤ d') :
    RestrictsWhere Progress.Unmarked (k.limited d) (k.limited d') where
  program := rfl
  bpm := rfl
  builtins _ _ := .inl rfl
  maxDepth := hle
  pruned := .inr not_unmarked_prune
  backward := allows_unmarked (k.limited d)

/-! ### Greater limits -/

/-- **A depth limit that was not told of cannot be observed.**  Let builtins take no notice back, as
the standard ones do not; they may remember and draw, and the program may have negations.  If a
search with the limit `d` comes to an answer and tells of no call that was nested too deep, then the
search with any greater limit comes to the same: to the same solutions under the same names, with
the same memory, chance, number of trials and notices. -/
theorem solve_limited (hk : k.OnlyTells) (hle : d ≤ d') {goals : List Goal} {e : Bindings}
    {s s' : Progress} {found : List Bindings}
    (h : solve (k.limited d) goals e s = .ok (found, s'))
    (hquiet : ∀ n ∈ s.told s', n.isDepthLimit = false) :
    solve (k.limited d') goals e s = .ok (found, s') := by
  have hadds : Progress.Adds { s with warned := false } s' :=
    solveF_adds (k := k.limited d) hk searchBudget _ e _ _ _ h
  exact solveF_refinesWhere (restrictsWhere_limited k hle) (Nat.le_refl _) _ e _ _ _ h
    (hadds.warned_eq_false rfl hquiet)

/-- Two notes, each found by a step of a cycle and a negation that draws a number: all calls are
nested at most twice, and the limit of two says what any greater one says. -/
theorem solve_limited_twoNotes :
    let k : Knowledge :=
      ⟨⟨[⟨.compound "step" [.var "X"],
            [.call (.compound "cycle" [.list [.atom "a", .atom "b"], .var "X"])]⟩,
          ⟨.compound "rare" [.atom "b"], [.call (.compound "prob" [.number 0])]⟩,
          ⟨.compound "note" [.var "X"],
            [.call (.compound "step" [.var "X"]),
              .negation [[.call (.compound "rare" [.var "X"])]]]⟩]⟩, .standard, 0, 120⟩
    let goals : List Goal :=
      [.call (.compound "note" [.var "U"]), .call (.compound "note" [.var "V"])]
    let s : Progress := ⟨⟨.empty, .ofSeed 0, []⟩, 0, false⟩
    ∃ found s', solve (k.limited 2) goals .empty s = .ok (found, s') ∧
      (∀ n ∈ s.told s', n.isDepthLimit = false) ∧ found.length = 1 ∧ s'.fresh = 6 ∧
      solve (k.limited defaultDepth) goals .empty s = .ok (found, s') := by
  intro k goals s
  have hcount : ((solve (k.limited 2) goals .empty s).toOption.map fun r =>
      (r.1.length, r.2.fresh, (s.told r.2).any Notice.isDepthLimit)) = some (1, 6, false) := by
    decide +kernel
  obtain ⟨⟨found, s'⟩, h, hfound⟩ := exists_ok hcount
  obtain ⟨hlength, hfresh, htold⟩ :
      found.length = 1 ∧ s'.fresh = 6 ∧ (s.told s').any Notice.isDepthLimit = false := by
    simpa using hfound
  have hquiet : ∀ n ∈ s.told s', n.isDepthLimit = false := by
    simpa using htold
  have hlimited : solve (k.limited defaultDepth) goals .empty s = .ok (found, s') :=
    solve_limited (k := k) onlyTells_of_mem_standard (by decide) h hquiet
  exact ⟨found, s', h, hquiet, hlength, hfresh, hlimited⟩

end RhythmLogic
