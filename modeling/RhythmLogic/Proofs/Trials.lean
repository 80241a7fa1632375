/-
**Trials: every clause is tried, and under names of its own.**

A search counts its trials, and the number of a trial makes the names of its clause fresh.  Whatever
a search does, builtins and negations included, it never takes the number back.  So the runs that
are gathered for a call are all made, at numbers that were not used before the call.

Main definitions:

* `Progress.NotBefore`, `Advances` — a run that does not take the number of trials back.

Main results:

* `solveF_advances` — **no search takes the number of trials back**;
* `gather_run_of_mem` — every run is made, at a number that is not used yet.
-/

import RhythmLogic.Proofs.Changes

set_option autoImplicit false

namespace RhythmLogic

/-- No number of a trial is taken back between two progresses. -/
def Progress.NotBefore (s s' : Progress) : Prop := s.fresh ≤ s'.fresh

/-- A run does not take the number of trials back. -/
def Advances (run : Progress → Found) : Prop :=
  ∀ s found s', run s = .ok (found, s') → s.fresh ≤ s'.fresh

/-- What a search does to its progress takes no number back. -/
theorem allows_notBefore (k : Knowledge) : Allows k Progress.NotBefore where
  refl s := Nat.le_refl s.fresh
  trans := Nat.le_trans
  trial s := Nat.le_succ s.fresh
  tell s _ := Nat.le_refl s.fresh
  prune s limit call := by
    rw [prune]
    split <;> exact Nat.le_refl s.fresh
  builtin _ _ _ s := Nat.le_refl s.fresh

/-- **No search takes the number of trials back**, so the names of a trial are never used again. -/
theorem solveF_advances (k : Knowledge) (fuel : Nat) (goals : List Pending) (e : Bindings) :
    Advances (solveF k fuel goals e) := solveF_moves (allows_notBefore k) fuel goals e

theorem tryClause_advances (k : Knowledge) (fuel : Nat) (call : Term) (depth : Nat)
    (rest : List Pending) (e : Bindings) (c : Clause) :
    Advances (tryClause (solveF k fuel) call depth rest e c) :=
  tryClause_moves (allows_notBefore k) (solveF_advances k fuel) call depth rest e c

section Loops

variable {α : Type} {run : α → Progress → Found} (h : ∀ x, Advances (run x))
include h

theorem gather_advances (xs : List α) : Advances (gather run xs) :=
  gather_moves (R := Progress.NotBefore) (fun s => Nat.le_refl s.fresh) Nat.le_trans h xs

theorem anyProof_fresh_le {xs : List α} {s s' : Progress} {b : Bool}
    (hs : anyProof run xs s = .ok (b, s')) : s.fresh ≤ s'.fresh :=
  anyProof_moves (R := Progress.NotBefore) (fun s => Nat.le_refl s.fresh) Nat.le_trans h hs

/-- **Every run is made**, at a number of trials that is not smaller than at the start, and its
solutions are kept. -/
theorem gather_run_of_mem {x : α} {xs : List α} (hx : x ∈ xs) {s s' : Progress}
    {found : List Bindings} (hs : gather run xs s = .ok (found, s')) :
    ∃ s₁ part s₂, s.fresh ≤ s₁.fresh ∧ run x s₁ = .ok (part, s₂) ∧ ∀ e ∈ part, e ∈ found := by
  induction xs generalizing s found with
  | nil => cases hx
  | cons y ys ih =>
      obtain ⟨part, s₁, more, hy, hys, rfl⟩ := gather_cons.1 hs
      rcases List.mem_cons.1 hx with rfl | hx
      · exact ⟨s, part, s₁, Nat.le_refl _, hy, fun e he => List.mem_append_left more he⟩
      · obtain ⟨s₂, part', s₃, hle, hrun, hsub⟩ := ih hx hys
        exact ⟨s₂, part', s₃, Nat.le_trans (h y _ _ _ hy) hle, hrun,
          fun e he => List.mem_append_right part (hsub e he)⟩

end Loops

end RhythmLogic
