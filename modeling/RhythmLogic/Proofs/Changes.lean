/-
**Changes: what a search does to its progress.**

A search hands its progress from run to run.  On the way it counts trials and tells notices, a call
that is nested too deep is told once, and the builtins that it calls change the world; it does
nothing else.  So a relation between progresses that allows each of these, and that goes on from run
to run, holds between the start of a search and its answer, whatever the search is for.

What is true of every search is said here once.  That trials are only counted up, that notices are
only added and that the warning stays set are instances, with no search in their proofs.

Main definitions:

* `Moves` — a run whose answer is related to its start;
* `Allows` — **a relation that allows everything that a search does** to its progress.

Main results:

* `gather_moves`, `anyProof_moves` — runs one after the other;
* `solveF_moves` — every search keeps to a relation that allows what it does.
-/

import RhythmLogic.Proofs.Calls

set_option autoImplicit false

namespace RhythmLogic

variable {k : Knowledge} {R : Progress → Progress → Prop}

/-- A run is related to where it starts by what it comes to. -/
def Moves (R : Progress → Progress → Prop) (run : Progress → Found) : Prop :=
  ∀ s found s', run s = .ok (found, s') → R s s'

/-! ### One after the other -/

section Loops

variable {α : Type} {run : α → Progress → Found} (hrefl : ∀ s, R s s)
  (htrans : ∀ {s s₁ s₂}, R s s₁ → R s₁ s₂ → R s s₂) (hrun : ∀ x, Moves R (run x))
include hrefl htrans hrun

theorem gather_moves (xs : List α) : Moves R (gather run xs) := by
  induction xs with
  | nil =>
      intro s found s' h
      cases h
      exact hrefl s
  | cons x xs ih =>
      intro s found s' h
      obtain ⟨part, s₁, more, hx, hxs, -⟩ := gather_cons.1 h
      exact htrans (hrun x _ _ _ hx) (ih _ _ _ hxs)

theorem anyProof_moves {xs : List α} {s s' : Progress} {b : Bool}
    (h : anyProof run xs s = .ok (b, s')) : R s s' := by
  induction xs generalizing s with
  | nil =>
      cases h
      exact hrefl _
  | cons x xs ih =>
      simp only [anyProof] at h
      split at h
      · cases h
      next found s₁ hx =>
      have hmove := hrun x _ _ _ hx
      split at h
      · exact htrans hmove (ih h)
      · cases h
        exact hmove

end Loops

/-! ### What a search does -/

/-- **A relation that allows everything that a search does** to its progress, one thing a field. -/
structure Allows (k : Knowledge) (R : Progress → Progress → Prop) : Prop where
  refl : ∀ s, R s s
  trans : ∀ {s s₁ s₂}, R s s₁ → R s₁ s₂ → R s s₂
  /-- A clause is tried. -/
  trial : ∀ s, R s { s with fresh := s.fresh + 1 }
  /-- Something is told. -/
  tell : ∀ s n, R s (s.tell n)
  /-- A call is nested too deep. -/
  prune : ∀ s limit call, R s (prune limit call s)
  /-- A builtin is called. -/
  builtin : ∀ {name arity b}, k.builtins.find? name arity = some b → ∀ args e s,
    R s { s with world := (b.call k.bpm args e s.world).world }

section Calls

variable {run : List Pending → Bindings → Progress → Found} (hR : Allows k R)
  (hrun : ∀ goals e, Moves R (run goals e))
include hR hrun

theorem tryClause_moves (call : Term) (depth : Nat) (rest : List Pending) (e : Bindings)
    (c : Clause) : Moves R (tryClause run call depth rest e c) := by
  intro s found s' h
  obtain ⟨r, -, hr⟩ := tryClause_eq_ok h
  cases r with
  | none =>
      cases hr
      exact hR.trial s
  | some e₁ => exact hR.trans (hR.trial s) (hrun _ _ _ _ _ hr)

theorem callBuiltin_moves {name : String} {arity : Nat} {b : Builtin}
    (hb : k.builtins.find? name arity = some b) (args : List Term) (rest : List Pending)
    (e : Bindings) : Moves R (callBuiltin run b k.bpm name args rest e) := by
  intro s found s' h
  have hgather := gather_moves hR.refl hR.trans (hrun rest) (b.call k.bpm args e s.world).solutions
  have hcall := hR.builtin hb args e s
  simp only [callBuiltin] at h
  split at h
  · cases h
  · exact hR.trans (hR.trans hcall (hR.tell _ _)) (hgather _ _ _ h)
  · exact hR.trans hcall (hgather _ _ _ h)

theorem callTerm_moves (t : Term) (depth : Nat) (rest : List Pending) (e : Bindings) :
    Moves R (callTerm k run t depth rest e) := by
  intro s found s' h
  simp only [callTerm] at h
  split at h
  · cases h
    exact hR.tell _ _
  split at h
  · next hb => exact callBuiltin_moves hR hrun hb _ _ _ _ _ _ h
  split at h
  · cases h
    exact hR.prune _ _ _
  · have hgather := gather_moves hR.refl hR.trans (tryClause_moves hR hrun _ _ _ _) _ _ _ _ h
    split at hgather
    · exact hR.trans (hR.tell _ _) hgather
    · exact hgather

end Calls

/-- **Every search keeps to a relation that allows what it does.** -/
theorem solveF_moves (hR : Allows k R) (fuel : Nat) (goals : List Pending) (e : Bindings) :
    Moves R (solveF k fuel goals e) := by
  induction fuel generalizing goals e with
  | zero =>
      intro s found s' h
      cases h
  | succ fuel ih =>
      intro s found s' h
      rcases goals with _ | ⟨⟨t | alternatives, depth⟩, rest⟩ <;> simp only [solveF] at h
      · cases h
        exact hR.refl s
      · exact callTerm_moves hR ih t depth rest e _ _ _ h
      · have hany : ∀ {b s₁},
            anyProof (fun b => solveF k fuel (pendingAt depth b) e) alternatives s = .ok (b, s₁) →
              R s s₁ :=
          anyProof_moves hR.refl hR.trans fun b => ih (pendingAt depth b) e
        split at h
        · cases h
        · next s₁ hs =>
            cases h
            exact hany hs
        · next s₁ hs => exact hR.trans (hany hs) (ih _ _ _ _ _ h)

end RhythmLogic
