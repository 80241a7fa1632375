/-
**Refused calls leave nothing but a notice.**

A builtin that refuses its arguments has done nothing, and the search tells of it.  That is all that
is left of the call, and nothing goes by what was told before: no builtin sees it, and so neither
does a search.  Two searches that start alike but for what was told before run in lockstep, with the
same solutions, trials and further notices.  So whatever is searched for after a refused call is
searched for as if the call had not been made.

Main definitions:

* `Progress.Onto`, `SameOnto` — progress, and answers, that differ in what was told before;
* `Unseeing` — **a run does not see what was told before**.

Main results:

* `Builtin.call_onto` — no standard builtin sees what was told before;
* `solveF_unseeing` — no search with standard builtins does;
* `refused_call_no_effect` — **a refused call has no solution and no effect** on anything later.
-/

import RhythmLogic.CommandLine.Mixer
import RhythmLogic.Proofs.Notices
import RhythmLogic.Proofs.Refusals

set_option autoImplicit false

namespace RhythmLogic

/-! ### Builtins do not see what was told before -/

/-- What a standard builtin does, it does whatever was told before. -/
theorem Builtin.call_onto {b : Builtin} (hb : b ∈ Builtin.standard) (bpm : Float)
    (args : List Term) (e : Bindings) {before before' : List Notice} {w w' : World}
    (hw : w.Onto before before' w') :
    (b.call bpm args e w').solutions = (b.call bpm args e w).solutions ∧
      (b.call bpm args e w').stop = (b.call bpm args e w).stop ∧
        (b.call bpm args e w).world.Onto before before' (b.call bpm args e w').world := by
  have hkeeps : b.Keeps Eq Eq (World.Onto before before') :=
    keeps_of_mem_standard matching_eq (seenAlike_onto before before') (fun _ _ h => h) b hb
  have hagree := hkeeps bpm args args e e (List.forall₂_same.2 fun _ _ => rfl) rfl
  obtain ⟨hsolutions, hstop, hworld⟩ := Builtin.call_agree hagree hw
  rw [List.forall₂_eq_eq_eq] at hsolutions
  refine ⟨hsolutions.symm, ?_, hworld⟩
  rcases hend : (b.call bpm args e w).stop with _ | error | cause
  · rw [hend] at hstop
    generalize (b.call bpm args e w').stop = stop' at hstop ⊢
    cases hstop
    rfl
  · rw [Builtin.call_of_refused (Builtin.decides_of_mem_standard b hb) hend w']
  · rw [hend] at hstop
    generalize (b.call bpm args e w').stop = stop' at hstop ⊢
    cases hstop
    rfl

/-! ### Searches do not see what was told before -/

variable {k : Knowledge} {s s' : Progress} {before before' : List Notice} {e : Bindings}

/-- **Progress that differs in what was told before**: the same is told on top of it, and all else is
alike. -/
structure Progress.Onto (before before' : List Notice) (s s' : Progress) : Prop where
  world : s.world.Onto before before' s'.world
  fresh : s.fresh = s'.fresh
  warned : s.warned = s'.warned

/-- A notice makes a difference in what was told before. -/
theorem Progress.onto_tell (s : Progress) (n : Notice) :
    s.Onto s.world.notices (n :: s.world.notices) (s.tell n) :=
  ⟨⟨rfl, rfl, [], rfl, rfl⟩, rfl, rfl⟩

theorem Progress.Onto.tell (h : s.Onto before before' s') (n : Notice) :
    (s.tell n).Onto before before' (s'.tell n) :=
  ⟨(seenAlike_onto before before').tells n _ _ h.world, h.fresh, h.warned⟩

theorem Progress.Onto.trial (h : s.Onto before before' s') :
    Progress.Onto before before' { s with fresh := s.fresh + 1 }
      { s' with fresh := s'.fresh + 1 } :=
  ⟨h.world, congrArg (· + 1) h.fresh, h.warned⟩

theorem Progress.Onto.prune (h : s.Onto before before' s') (limit : Nat) (call : Term) :
    (prune limit call s).Onto before before' (prune limit call s') := by
  simp only [RhythmLogic.prune, h.warned]
  split
  · exact h
  · exact ⟨(h.tell _).world, h.fresh, rfl⟩

/-- **Two runs come to the same**, but for what was told before: to the same result, or to none for
one cause. -/
inductive SameOnto {α : Type} (before before' : List Notice) :
    Except Halt (α × Progress) → Except Halt (α × Progress) → Prop where
  | halted (cause : Halt) : SameOnto before before' (.error cause) (.error cause)
  | answered (a : α) {s s' : Progress} :
      s.Onto before before' s' → SameOnto before before' (.ok (a, s)) (.ok (a, s'))

/-- A run does not see what was told before. -/
def Unseeing {α : Type} (run : Progress → Except Halt (α × Progress)) : Prop :=
  ∀ {before before' : List Notice} {s s' : Progress}, s.Onto before before' s' →
    SameOnto before before' (run s) (run s')

section Loops

variable {α : Type} {run : α → Progress → Found} (hrun : ∀ x, Unseeing (run x))
include hrun

theorem gather_unseeing (xs : List α) : Unseeing (gather run xs) := by
  induction xs with
  | nil => exact fun hs => .answered [] hs
  | cons x xs ih =>
      intro before before' s s' hs
      have hpart := hrun x hs
      simp only [gather]
      generalize run x s = r at hpart ⊢
      generalize run x s' = r' at hpart ⊢
      cases hpart with
      | halted cause => exact .halted cause
      | @answered part s₁ s₁' hs₁ =>
          have hmore := ih hs₁
          dsimp only
          generalize gather run xs s₁ = r at hmore ⊢
          generalize gather run xs s₁' = r' at hmore ⊢
          cases hmore with
          | halted cause => exact .halted cause
          | answered more hs₂ => exact .answered _ hs₂

theorem anyProof_unseeing (xs : List α) : Unseeing (anyProof run xs) := by
  induction xs with
  | nil => exact fun hs => .answered false hs
  | cons x xs ih =>
      intro before before' s s' hs
      have hpart := hrun x hs
      simp only [anyProof]
      generalize run x s = r at hpart ⊢
      generalize run x s' = r' at hpart ⊢
      cases hpart with
      | halted cause => exact .halted cause
      | answered part hs₁ =>
          dsimp only
          split
          · exact ih hs₁
          · exact .answered true hs₁

end Loops

section Steps

variable {run : List Pending → Bindings → Progress → Found} (hrun : ∀ goals e, Unseeing (run goals e))
include hrun

theorem tryClause_unseeing (call : Term) (depth : Nat) (rest : List Pending) (e : Bindings)
    (c : Clause) : Unseeing (tryClause run call depth rest e c) := by
  intro before before' s s' hs
  simp only [tryClause, hs.fresh]
  have hs₁ := hs.trial
  rw [hs.fresh] at hs₁
  rcases unify call (c.rename s'.fresh).head e with cause | _ | e₁
  · exact .halted cause
  · exact .answered [] hs₁
  · exact hrun _ e₁ hs₁

theorem callBuiltin_unseeing {b : Builtin} (hb : b ∈ Builtin.standard) (bpm : Float)
    (name : String) (args : List Term) (rest : List Pending) (e : Bindings) :
    Unseeing (callBuiltin run b bpm name args rest e) := by
  intro before before' s s' hs
  obtain ⟨hsolutions, hstop, hworld⟩ := Builtin.call_onto hb bpm args e hs.world
  simp only [callBuiltin, hsolutions, hstop]
  have hs₁ : Progress.Onto before before' { s with world := (b.call bpm args e s.world).world }
      { s' with world := (b.call bpm args e s'.world).world } := ⟨hworld, hs.fresh, hs.warned⟩
  have hgather : Unseeing (gather (run rest) (b.call bpm args e s.world).solutions) :=
    gather_unseeing (hrun rest) _
  split
  · exact .halted _
  · exact hgather (hs₁.tell _)
  · exact hgather hs₁

theorem callTerm_unseeing (hk : ∀ b ∈ k.builtins.builtins, b ∈ Builtin.standard) (t : Term)
    (depth : Nat) (rest : List Pending) (e : Bindings) :
    Unseeing (callTerm k run t depth rest e) := by
  intro before before' s s' hs
  simp only [callTerm]
  split
  · exact .answered [] (hs.tell _)
  split
  · next hb => exact callBuiltin_unseeing hrun (hk _ (List.mem_of_find?_eq_some hb)) _ _ _ _ _ hs
  split
  · exact .answered [] (hs.prune _ _)
  · refine gather_unseeing (tryClause_unseeing hrun _ _ _ _) _ ?_
    split
    · exact hs.tell _
    · exact hs

end Steps

/-- **No search with standard builtins sees what was told before.** -/
theorem solveF_unseeing (hk : ∀ b ∈ k.builtins.builtins, b ∈ Builtin.standard) (fuel : Nat)
    (goals : List Pending) (e : Bindings) : Unseeing (solveF k fuel goals e) := by
  induction fuel generalizing goals e with
  | zero => exact fun _ => .halted .search
  | succ fuel ih =>
      intro before before' s s' hs
      rcases goals with _ | ⟨⟨t | alternatives, depth⟩, rest⟩ <;> simp only [solveF]
      · exact .answered [e] hs
      · exact callTerm_unseeing ih hk t depth rest e hs
      · have hany := anyProof_unseeing (fun b => ih (pendingAt depth b) e) alternatives hs
        generalize anyProof (fun b => solveF k fuel (pendingAt depth b) e) alternatives s = r
          at hany ⊢
        generalize anyProof (fun b => solveF k fuel (pendingAt depth b) e) alternatives s' = r'
          at hany ⊢
        cases hany with
        | halted cause => exact .halted cause
        | answered proved hs₁ =>
            cases proved with
            | true => exact .answered [] hs₁
            | false => exact ih rest e hs₁

/-! ### Refused calls -/

open Builtin in
/-- The standard table has each of its builtins under its own name and arity. -/
theorem find?_of_mem_standard :
    ∀ b ∈ standard, BuiltinTable.standard.find? b.name b.arity = some b := by
  simp only [standard, comparisons, List.forall_mem_append, List.forall_mem_cons]
  exact ⟨⟨⟨rfl, rfl, rfl, by simp⟩, rfl, rfl, rfl, rfl, rfl, rfl, rfl, rfl, rfl, rfl, by simp⟩,
    rfl, rfl, rfl, rfl, rfl, rfl, rfl, rfl, rfl, rfl, rfl, rfl, rfl, rfl, rfl, rfl, rfl, rfl, rfl,
    by simp⟩

/-- **A refused call has no effect.**  Let a standard builtin refuse its arguments, as many as it
takes, in some world.  Then it has no solution, and memory, chance and what was told are as before.
A search that comes to this call, in whatever world and with whatever goals behind, has no solution
there and tells of the refusal; and with one notice more, all later goals and all later searches, of
whatever program, come to the same solutions, memory, chance, counts and further notices as without
it, or to no answer for the same cause. -/
theorem refused_call_no_effect {b : Builtin} (hb : b ∈ Builtin.standard) {bpm : Float}
    {args : List Term} (hargs : args.length = b.arity) {e : Bindings} {w : World}
    {error : ArgumentError} (hstop : (b.call bpm args e w).stop = some (.refused error)) :
    ((b.call bpm args e w).solutions = [] ∧ (b.call bpm args e w).world = w) ∧
    (∀ (k : Knowledge), k.builtins = .standard → k.bpm = bpm →
      ∀ (t : Term), e.walk t = .compound b.name args →
      ∀ (fuel depth : Nat) (rest : List Pending) (s : Progress),
        solveF k (fuel + 1) (⟨.call t, depth⟩ :: rest) e s =
          .ok ([], s.tell (.refused b.name b.arity error))) ∧
    ∀ (k : Knowledge), k.builtins = .standard → ∀ (s : Progress),
      let told := Notice.refused b.name b.arity error
      (∀ (fuel : Nat) (goals : List Pending) (e : Bindings),
        SameOnto s.world.notices (told :: s.world.notices) (solveF k fuel goals e s)
          (solveF k fuel goals e (s.tell told))) ∧
      ∀ (goals : List Goal) (e : Bindings),
        SameOnto s.world.notices (told :: s.world.notices) (solve k goals e s)
          (solve k goals e (s.tell told)) := by
  have hcall := Builtin.call_of_refused (Builtin.decides_of_mem_standard b hb) hstop
  refine ⟨by simp [hcall w], ?_, ?_⟩
  · rintro k hk rfl t ht fuel depth rest s
    have hfind : k.builtins.find? b.name args.length = some b := by
      rw [hk, hargs]
      exact find?_of_mem_standard b hb
    rw [hargs] at hfind
    simp only [solveF, callTerm, ht, Term.functor?, hfind, Term.args, callBuiltin, hcall, hargs]
    rfl
  · intro k hk s told
    have hstandard : ∀ b ∈ k.builtins.builtins, b ∈ Builtin.standard := by
      rw [hk]
      exact fun _ h => h
    refine ⟨fun fuel goals e => solveF_unseeing hstandard fuel goals e (s.onto_tell told), ?_⟩
    intro goals e
    exact solveF_unseeing hstandard searchBudget (pendingAt 0 goals) e
      (Progress.onto_tell { s with warned := false } told)

/-- A cycle through a list whose end is open, at a counter that stands at two, with a draw of chance
behind. -/
theorem refused_call_no_effect_openList :
    let args : List Term := [.partialList [.atom "a", .atom "b"] (.var "T"), .var "X"]
    let w : World := ⟨⟨[("[a, b]", 2)], []⟩, .ofSeed 7, []⟩
    let error : ArgumentError := .list (.partialList [.atom "a", .atom "b"] (.var "T"))
    let k : Knowledge := ⟨⟨[]⟩, .standard, 8, 120⟩
    Builtin.cycle ∈ Builtin.standard ∧ args.length = Builtin.cycle.arity ∧
      (Builtin.cycle.call 120 args .empty w).stop = some (.refused error) ∧
      (Builtin.cycle.call 120 args .empty w).world = w ∧
      solveF k 2 [⟨.call (.compound "cycle" args), 0⟩,
          ⟨.call (.compound "pick" [.list [.atom "c"], .var "Y"]), 0⟩] .empty ⟨w, 0, false⟩ =
        .ok ([], ⟨w.tell (.refused "cycle" 2 error), 0, false⟩) := by
  intro args w error k
  have hb : Builtin.cycle ∈ Builtin.standard := by simp [Builtin.standard]
  have hstop : (Builtin.cycle.call 120 args .empty w).stop = some (.refused error) := rfl
  obtain ⟨⟨-, hworld⟩, hsearch, -⟩ := refused_call_no_effect hb rfl hstop
  exact ⟨hb, rfl, hstop, hworld, hsearch k rfl rfl _ rfl 1 0 _ ⟨w, 0, false⟩⟩

end RhythmLogic
