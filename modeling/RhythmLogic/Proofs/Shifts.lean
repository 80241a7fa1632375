/-
**Shifts: a search that counts its trials on.**

A search that goes on counting where other searches have stopped makes the same trials as one that
starts to count, under larger numbers.  Nothing in it compares two names but for equality, so it
goes the same way and comes to the same solutions, with every number larger by the trials that were
made before.  This is a lockstep: the two searches are at the same goals and bindings up to the
shift, and their worlds have the same memory and the same chance.

One builtin looks at names.  `cycle` remembers its progress under the text of its list, and in the
body of a clause a list that has a variable is written with the number of the trial.  There the two
searches step different counters, and from then on they may go different ways.  So the lockstep is
proved up to the first such call, and a guard tells it: a table in which `cycle` ends the search
with an alarm when its list has a name of a trial.

Main definitions:

* `Term.isUnmarked` — no variable has the sign that goes before the number of a trial;
* `BuiltinTable.literal`, `Knowledge.literal` — the guard;
* `Progress.Ahead` — more trials were counted, and memory and chance are the same;
* `Shifted` — **two runs that come to the same, up to a shift**.

Main results:

* `rename_eq_self_of_isUnmarked` — what is written without such a name in the copy for a trial is
  written as in the clause;
* `solveF_shifts` — the lockstep;
* `solve_shifted` — **no search that the guard lets pass sees how many trials were made before**;
* `solve_not_shifted` — a list that is passed through a variable is remembered a trial at a time.
-/

import RhythmLogic.CommandLine.Mixer
import RhythmLogic.Proofs.Numbers
import RhythmLogic.Proofs.Calls

set_option autoImplicit false

namespace RhythmLogic

variable {k : Knowledge} {alarm : Halt} {d n depth : ℕ} {e : Bindings} {s s' : Progress}

/-! ### Names without a number -/

namespace Term

variable {t : Term} {x : String}

theorem notMem_allVariablesAfter {ts : List Term}
    (h : ∀ t ∈ ts, ∀ seen, x ∉ variablesAfter seen t ↔ x ∉ seen ∧ t.Everywhere (· ≠ var x))
    (seen : List String) :
    x ∉ allVariablesAfter seen ts ↔ x ∉ seen ∧ ∀ t ∈ ts, t.Everywhere (· ≠ var x) := by
  induction ts generalizing seen with
  | nil => simp [allVariablesAfter]
  | cons t ts ih =>
      obtain ⟨ht, hts⟩ := List.forall_mem_cons.1 h
      rw [allVariablesAfter, ih hts, ht, List.forall_mem_cons, and_assoc]

theorem notMem_variablesAfter (t : Term) (seen : List String) :
    x ∉ variablesAfter seen t ↔ x ∉ seen ∧ t.Everywhere (· ≠ var x) := by
  induction t generalizing seen with
  | number | atom => simp [variablesAfter]
  | var y =>
      simp only [variablesAfter, everywhere_var, ne_eq, var.injEq]
      split
      · next hy =>
          have hmem : y ∈ seen := by simpa using hy
          exact ⟨fun hx => ⟨hx, fun hyx => hx (hyx ▸ hmem)⟩, And.left⟩
      · simp [eq_comm]
  | compound f args ih => simp [variablesAfter, notMem_allVariablesAfter ih]
  | list items ih => simp [variablesAfter, notMem_allVariablesAfter ih]
  | partialList items tail ih ih' =>
      simp [variablesAfter, notMem_allVariablesAfter ih, ih', and_assoc]
  | expr op l r ihl ihr => simp [variablesAfter, ihl, ihr, and_assoc]

/-- **The variable names of a term are those that occur in it.** -/
theorem mem_variableNames : x ∈ t.variableNames ↔ (var x).Occurs t := by
  have hnot := (notMem_variablesAfter (x := x) t []).not
  simpa [variableNames, Everywhere] using hnot

/-- No variable of the term has the sign that goes before the number of a trial. -/
def isUnmarked (t : Term) : Bool := t.variableNames.all fun x => !x.toList.contains '$'

theorem isUnmarked_iff : t.isUnmarked = true ↔ ∀ x, (var x).Occurs t → '$' ∉ x.toList := by
  simp [isUnmarked, mem_variableNames]

/-- Other numbers do not change a term that has none. -/
theorem relabel_renumber_of_isUnmarked (ht : t.isUnmarked = true) (σ : ℕ → ℕ) :
    t.relabel (renumber σ) = t := by
  have hname : ∀ x, (var x).Occurs t → renumber σ x = id x := fun x hx =>
    renumber_of_ne fun n w hnw =>
      isUnmarked_iff.1 ht x hx (hnw ▸ dollar_mem_renamed n w)
  rw [relabel_congr hname, relabel_id]

/-- **A copy for a trial without a name of a trial** is written as in the clause. -/
theorem rename_eq_self_of_isUnmarked (ht : (t.rename n).isUnmarked = true) : t.rename n = t := by
  have hmarks : (t.rename n).Everywhere fun u => ∀ x, u = var x → '$' ∉ x.toList := by
    rintro _ hu x rfl
    exact isUnmarked_iff.1 ht x hu
  rw [everywhere_rename] at hmarks
  have hnone : ∀ x, (var x).Occurs t → renamed n x = id x := fun x hx =>
    absurd (dollar_mem_renamed n x) (hmarks (var x) hx (renamed n x) rfl)
  rw [rename_eq_relabel, relabel_congr hnone, relabel_id]

end Term

/-! ### The guard -/

/-- A builtin; `cycle` ends the search with an alarm when its list has a name of a trial. -/
def Builtin.literal (alarm : Halt) (b : Builtin) : Builtin :=
  if b.name = "cycle" ∧ b.arity = 2 then
    { b with run := fun bpm args e =>
        if args.head?.all Term.isUnmarked then b.run bpm args e else Body.halt alarm }
  else b

/-- **The guard**: a table in which `cycle` ends a search with an alarm, when its list has a name of
a trial and so is not written as in the program. -/
def BuiltinTable.literal (table : BuiltinTable) (alarm : Halt) : BuiltinTable :=
  ⟨table.builtins.map (Builtin.literal alarm)⟩

/-- What a search works with, under the guard. -/
def Knowledge.literal (k : Knowledge) (alarm : Halt) : Knowledge :=
  { k with builtins := k.builtins.literal alarm }

theorem find?_literal (table : BuiltinTable) (alarm : Halt) (name : String) (arity : Nat) :
    (table.literal alarm).find? name arity =
      (table.find? name arity).map (Builtin.literal alarm) := by
  refine find?_map (fun b => ?_) (fun b => ?_) table name arity <;>
    · unfold Builtin.literal
      split <;> rfl

/-- A builtin under the guard raises the alarm, or it runs as it does; and `cycle` only runs when its
list has no name of a trial. -/
theorem literal_run (alarm : Halt) (b : Builtin) (bpm : Float) (args : List Term) (e : Bindings) :
    (b.literal alarm).run bpm args e = Body.halt alarm ∨
      (b.literal alarm).run bpm args e = b.run bpm args e ∧
        (b.name = "cycle" ∧ b.arity = 2 → args.head?.all Term.isUnmarked = true) := by
  by_cases hcycle : b.name = "cycle" ∧ b.arity = 2
  · rw [Builtin.literal, if_pos hcycle]
    by_cases hargs : args.head?.all Term.isUnmarked = true
    · exact .inr ⟨if_pos hargs, fun _ => hargs⟩
    · exact .inl (if_neg hargs)
  · rw [Builtin.literal, if_neg hcycle]
    exact .inr ⟨rfl, fun h => absurd h hcycle⟩

/-! ### Runs up to a shift -/

/-- The names of a search that starts `d` trials later. -/
noncomputable def shift (d : ℕ) : String → String := renumber (· + d)

theorem shift_injective (d : ℕ) : Function.Injective (shift d) :=
  renumber_injective fun _ _ h => Nat.add_right_cancel h

/-- Worlds with the same memory and the same chance. -/
def World.SameState (w w' : World) : Prop := w'.memory = w.memory ∧ w'.chance = w.chance

theorem seenAlike_sameState : Body.SeenAlike World.SameState where
  tells _ _ _ h := h
  memory h := h.1.symm
  chance h := h.2.symm
  setMemory h _ := ⟨rfl, h.2⟩
  setChance h _ := ⟨h.1, rfl⟩

/-- **`s'` has counted `d` more trials than `s`**, and has the same memory and the same chance. -/
structure Progress.Ahead (d : ℕ) (s s' : Progress) : Prop where
  fresh : s'.fresh = s.fresh + d
  state : s.world.SameState s'.world

/-- **Two runs that come to the same, up to a shift**: to related results, with progress that is
ahead by `d` trials, or to no result for one cause. -/
inductive Shifted {α : Type} (d : ℕ) (R : α → α → Prop) :
    Except Halt (α × Progress) → Except Halt (α × Progress) → Prop where
  | halted (cause : Halt) : Shifted d R (.error cause) (.error cause)
  | answered {a a' : α} {s s' : Progress} :
      R a a' → s.Ahead d s' → Shifted d R (.ok (a, s)) (.ok (a', s'))

/-- The solutions of a search that starts `d` trials later. -/
def ShiftedSolutions (d : ℕ) (found found' : List Bindings) : Prop :=
  found' = found.map (Bindings.relabel (shift d))

/-- Two runs come to the same up to a shift, but for the alarm of the first one. -/
def Shifts {α : Type} (alarm : Halt) (d : ℕ) (R : α → α → Prop)
    (run run' : Progress → Except Halt (α × Progress)) : Prop :=
  ∀ s s', s.Ahead d s' → run s = .error alarm ∨ Shifted d R (run s) (run' s')

theorem isEmpty_of_shiftedSolutions {found found' : List Bindings}
    (h : ShiftedSolutions d found found') : found'.isEmpty = found.isEmpty := by
  rw [h, List.isEmpty_map]

theorem Progress.Ahead.tell (h : s.Ahead d s') (m m' : Notice) :
    (s.tell m).Ahead d (s'.tell m') := ⟨h.fresh, h.state⟩

theorem Progress.Ahead.prune (h : s.Ahead d s') (limit : Nat) (call call' : Term) :
    (prune limit call s).Ahead d (prune limit call' s') := by
  simp only [RhythmLogic.prune]
  split <;> split <;> exact ⟨h.fresh, h.state⟩

theorem Progress.Ahead.trial (h : s.Ahead d s') :
    Progress.Ahead d { s with fresh := s.fresh + 1 } { s' with fresh := s'.fresh + 1 } :=
  ⟨by simp only [h.fresh]; omega, h.state⟩

section Loops

variable {α α' : Type} {run : α → Progress → Found} {run' : α' → Progress → Found}
  {xs : List α} {xs' : List α'}
  (h : List.Forall₂ (fun x x' => Shifts alarm d (ShiftedSolutions d) (run x) (run' x')) xs xs')
include h

/-- Runs one after the other. -/
theorem gather_shifts :
    Shifts alarm d (ShiftedSolutions d) (gather run xs) (gather run' xs') := by
  induction h with
  | nil => exact fun s s' hs => .inr (.answered rfl hs)
  | @cons x x' xs xs' hx _ ih =>
      intro s s' hs
      simp only [gather]
      rcases hx s s' hs with halarm | hpart
      · exact .inl (by rw [halarm])
      generalize run x s = r at hpart ⊢
      generalize run' x' s' = r' at hpart ⊢
      cases hpart with
      | halted cause => exact .inr (.halted cause)
      | @answered part _ s₁ s₁' hpart hs₁ =>
          cases hpart
          rcases ih s₁ s₁' hs₁ with halarm | hmore
          · exact .inl (by simp only [halarm])
          dsimp only
          generalize gather run xs s₁ = r at hmore ⊢
          generalize gather run' xs' s₁' = r' at hmore ⊢
          cases hmore with
          | halted cause => exact .inr (.halted cause)
          | answered hmore hs₂ =>
              cases hmore
              exact .inr (.answered (List.map_append).symm hs₂)

/-- A negation is decided alike. -/
theorem anyProof_shifts : Shifts alarm d Eq (anyProof run xs) (anyProof run' xs') := by
  induction h with
  | nil => exact fun s s' hs => .inr (.answered rfl hs)
  | @cons x x' xs xs' hx _ ih =>
      intro s s' hs
      simp only [anyProof]
      rcases hx s s' hs with halarm | hpart
      · exact .inl (by rw [halarm])
      generalize run x s = r at hpart ⊢
      generalize run' x' s' = r' at hpart ⊢
      cases hpart with
      | halted cause => exact .inr (.halted cause)
      | answered hpart hs₁ =>
          dsimp only
          rw [isEmpty_of_shiftedSolutions hpart]
          split
          · exact ih _ _ hs₁
          · exact .inr (.answered rfl hs₁)

end Loops

/-! ### The lockstep -/

/-- A run of the guarded search, and one of the search itself that starts `d` trials later, come to
the same up to the shift, wherever they start. -/
def ShiftsEverywhere (alarm : Halt) (d : ℕ)
    (run run' : List Pending → Bindings → Progress → Found) : Prop :=
  ∀ goals e, Shifts alarm d (ShiftedSolutions d) (run goals e)
    (run' (goals.map (.map (Term.relabel (shift d)))) (e.relabel (shift d)))

/-- Related rows, where being related is being the shifted one. -/
theorem forall₂_map_right {α β : Type} {R : α → β → Prop} {g : α → β} {as : List α}
    (h : ∀ a ∈ as, R a (g a)) : List.Forall₂ R as (as.map g) := by
  rw [List.forall₂_map_right_iff]
  exact List.forall₂_same.2 h

section Steps

variable {run run' : List Pending → Bindings → Progress → Found}
  (hrun : ShiftsEverywhere alarm d run run')
include hrun

/-- **A trial in each of the searches**: the copies of a clause differ by the shift. -/
theorem tryClause_shifts (call : Term) (depth : ℕ) (rest : List Pending) (e : Bindings)
    (c : Clause) : Shifts alarm d (ShiftedSolutions d) (tryClause run call depth rest e c)
      (tryClause run' (call.relabel (shift d)) depth (rest.map (.map (Term.relabel (shift d))))
        (e.relabel (shift d)) c) := by
  intro s s' hs
  have hhead : (c.rename s'.fresh).head = (c.rename s.fresh).head.relabel (shift d) := by
    rw [hs.fresh]
    exact (rename_renumber (· + d) s.fresh c.head).symm
  have hbody : ∀ rest : List Pending, pendingAt (depth + 1) (c.rename s'.fresh).body ++
      rest.map (.map (Term.relabel (shift d))) =
        (pendingAt (depth + 1) (c.rename s.fresh).body ++ rest).map
          (.map (Term.relabel (shift d))) := by
    intro rest
    rw [List.map_append, hs.fresh, shift, pendingAt_rename_renumber]
  simp only [tryClause, hhead, unify_relabel (shift_injective d), hbody]
  rcases unify call (c.rename s.fresh).head e with cause | _ | e₁
  · exact .inr (.halted cause)
  · exact .inr (.answered rfl hs.trial)
  · exact hrun _ e₁ _ _ hs.trial

end Steps

/-- Relabelling with a shift is a matching. -/
theorem matching_shift (d : ℕ) : Matching (fun t t' => t' = t.relabel (shift d))
    (fun e e' => e' = e.relabel (shift d)) := by
  have hmatching := matching_relabel (P := fun _ => True) (shift_injective d) fun _ _ => trivial
  simpa [Term.Everywhere, Bindings.AllEntries] using hmatching

/-- **A builtin under the guard** raises the alarm, or it runs alike in both searches. -/
theorem literal_agrees {b : Builtin} (hb : b ∈ Builtin.standard) (alarm : Halt) (d : ℕ)
    (bpm : Float) (args : List Term) (e : Bindings) :
    (b.literal alarm).run bpm args e = Body.halt alarm ∨
      Body.Agree World.SameState (fun e e' => e' = e.relabel (shift d)) (fun _ _ => True)
        ((b.literal alarm).run bpm args e)
        (b.run bpm (args.map (Term.relabel (shift d))) (e.relabel (shift d))) := by
  obtain halarm | ⟨hrun, hguard⟩ := literal_run alarm b bpm args e
  · exact .inl halarm
  refine .inr ?_
  rw [hrun]
  have hargs : List.Forall₂ (fun t t' => t' = t.relabel (shift d)) args
      (args.map (Term.relabel (shift d))) := forall₂_map_right fun _ _ => rfl
  obtain rfl | hkeeps := eq_cycle_or_keeps (matching_shift d) seenAlike_sameState b hb
  · -- a list without a name of a trial has the same text in both searches
    have hmarks := hguard ⟨rfl, rfl⟩
    refine Builtin.cycle_agree (matching_shift d) seenAlike_sameState bpm hargs rfl ?_
    cases args with
    | nil => rfl
    | cons list rest =>
        have hlist : list.relabel (shift d) = list :=
          Term.relabel_renumber_of_isUnmarked hmarks (· + d)
        rw [List.map_cons, List.head?_cons, List.head?_cons, hlist]
  · exact hkeeps bpm args _ e _ hargs rfl

section Steps

variable {run run' : List Pending → Bindings → Progress → Found}
  (hrun : ShiftsEverywhere alarm d run run')
include hrun

/-- A row of solutions is gone on from. -/
theorem solutions_shifts (rest : List Pending) (solutions : List Bindings) :
    Shifts alarm d (ShiftedSolutions d) (gather (run rest) solutions)
      (gather (run' (rest.map (.map (Term.relabel (shift d)))))
        (solutions.map (Bindings.relabel (shift d)))) :=
  gather_shifts (forall₂_map_right fun e _ => hrun rest e)

/-- **A builtin is called in each of the searches.** -/
theorem callBuiltin_shifts {b : Builtin} (hb : b ∈ Builtin.standard) (bpm : Float) (name : String)
    (args : List Term) (rest : List Pending) (e : Bindings) :
    Shifts alarm d (ShiftedSolutions d) (callBuiltin run (b.literal alarm) bpm name args rest e)
      (callBuiltin run' b bpm name (args.map (Term.relabel (shift d)))
        (rest.map (.map (Term.relabel (shift d)))) (e.relabel (shift d))) := by
  intro s s' hs
  obtain halarm | hagree := literal_agrees hb alarm d bpm args e
  · refine .inl ?_
    simp only [callBuiltin, Builtin.call, halarm]
    rfl
  obtain ⟨hsolutions, hstop, hstate⟩ := Builtin.call_agree hagree hs.state
  simp only [callBuiltin]
  generalize (b.literal alarm).call bpm args e s.world = o at hsolutions hstop hstate ⊢
  generalize b.call bpm (args.map (Term.relabel (shift d))) (e.relabel (shift d)) s'.world = o'
    at hsolutions hstop hstate ⊢
  obtain ⟨solutions, world, stop⟩ := o
  obtain ⟨solutions', world', stop'⟩ := o'
  obtain rfl : solutions' = solutions.map (Bindings.relabel (shift d)) := by
    rw [← List.forall₂_eq_eq_eq, List.forall₂_map_right_iff]
    exact hsolutions.flip
  have hs₁ : Progress.Ahead d { s with world := world } { s' with world := world' } :=
    ⟨hs.fresh, hstate⟩
  have hnext := solutions_shifts hrun rest solutions
  cases hstop with
  | halted => exact .inr (.halted _)
  | ended => exact hnext _ _ hs₁
  | refused => exact hnext _ _ (hs₁.tell _ _)

/-- **A call in each of the searches.** -/
theorem callTerm_shifts (hk : ∀ b ∈ k.builtins.builtins, b ∈ Builtin.standard) (t : Term)
    (depth : ℕ) (rest : List Pending) (e : Bindings) :
    Shifts alarm d (ShiftedSolutions d) (callTerm (k.literal alarm) run t depth rest e)
      (callTerm k run' (t.relabel (shift d)) depth (rest.map (.map (Term.relabel (shift d))))
        (e.relabel (shift d))) := by
  intro s s' hs
  simp only [callTerm, Bindings.walk_relabel (shift_injective d), Term.functor?_relabel,
    Term.args_relabel, Knowledge.literal, find?_literal]
  generalize e.walk t = call
  rcases call.functor? with _ | ⟨name, arity⟩
  · exact .inr (.answered rfl (hs.tell _ _))
  have htrials : Shifts alarm d (ShiftedSolutions d)
      (gather (tryClause run call depth rest e) (k.program.clausesOf name arity))
      (gather (tryClause run' (call.relabel (shift d)) depth
        (rest.map (.map (Term.relabel (shift d)))) (e.relabel (shift d)))
        (k.program.clausesOf name arity)) :=
    gather_shifts (List.forall₂_same.2 fun c _ => tryClause_shifts hrun call depth rest e c)
  rcases hb : k.builtins.find? name arity with _ | b
  · simp only [hb, Option.map_none]
    by_cases hdeep : k.maxDepth ≤ depth
    · simp only [hdeep, if_true]
      exact .inr (.answered rfl (hs.prune _ _ _))
    · simp only [hdeep, if_false]
      refine htrials _ _ ?_
      by_cases hnone : (k.program.clausesOf name arity).isEmpty = true
      · simp only [hnone, if_true]
        exact hs.tell _ _
      · simp only [hnone]
        exact hs
  · simp only [hb, Option.map_some]
    exact callBuiltin_shifts hrun (hk b (List.mem_of_find?_eq_some hb)) _ _ _ _ _ _ _ hs

end Steps

/-- **The lockstep**: whatever the guarded search comes to without an alarm, the search itself comes
to when it starts at later trials, up to the shift. -/
theorem solveF_shifts (hk : ∀ b ∈ k.builtins.builtins, b ∈ Builtin.standard) (alarm : Halt) (d : ℕ)
    (fuel : ℕ) : ShiftsEverywhere alarm d (solveF (k.literal alarm) fuel) (solveF k fuel) := by
  induction fuel with
  | zero => exact fun _ _ _ _ _ => .inr (.halted _)
  | succ fuel ih =>
      intro goals e s s' hs
      rcases goals with _ | ⟨⟨t | alternatives, depth⟩, rest⟩
      · exact .inr (.answered rfl hs)
      · exact callTerm_shifts ih hk t depth rest e s s' hs
      · have halternatives : List.Forall₂ (fun b b' : List Goal => Shifts alarm d
            (ShiftedSolutions d) (solveF (k.literal alarm) fuel (pendingAt depth b) e)
            (solveF k fuel (pendingAt depth b') (e.relabel (shift d)))) alternatives
            (alternatives.map fun b => b.map (Goal.map (Term.relabel (shift d)))) := by
          refine forall₂_map_right fun b _ => ?_
          rw [← map_pendingAt]
          exact ih (pendingAt depth b) e
        simp only [solveF, List.map_cons, Pending.map, Goal.map_negation]
        rcases anyProof_shifts halternatives s s' hs with halarm | hany
        · exact .inl (by rw [halarm])
        generalize anyProof (fun b => solveF (k.literal alarm) fuel (pendingAt depth b) e)
          alternatives s = r at hany ⊢
        generalize anyProof (fun b => solveF k fuel (pendingAt depth b) (e.relabel (shift d)))
          (alternatives.map fun b => b.map (Goal.map (Term.relabel (shift d)))) s' = r' at hany ⊢
        cases hany with
        | halted cause => exact .inr (.halted cause)
        | @answered proved _ _ _ hproved hs₁ =>
            cases hproved
            cases proved with
            | true => exact .inr (.answered rfl hs₁)
            | false => exact ih rest e _ _ hs₁

/-! ### Searches -/

/-- A shift by nothing leaves solutions as they are. -/
theorem shiftedSolutions_zero {found found' : List Bindings} (h : ShiftedSolutions 0 found found') :
    found' = found := by
  have hself : Bindings.relabel (shift 0) = id := by
    funext e
    exact (congrArg (Bindings.relabel · e) renumber_id).trans (Bindings.relabel_id e)
  rw [h, hself, List.map_id]

section Search

variable (hk : ∀ b ∈ k.builtins.builtins, b ∈ Builtin.standard) {goals : List Goal}
  (hgoals : GoalsBefore 0 goals) (he : e.Before 0)
include hk hgoals he

/-- Goals and bindings without names of trials are the same for both searches. -/
theorem solve_shifts (alarm : Halt) (d : ℕ) :
    Shifts alarm d (ShiftedSolutions d) (solve (k.literal alarm) goals e) (solve k goals e) := by
  intro s s' hs
  have hfixed : ∀ i ∈ Set.Iio 0, i + d = i := fun i hi => absurd hi (Nat.not_lt_zero i)
  have hpending : (pendingAt 0 goals).map (.map (Term.relabel (shift d))) = pendingAt 0 goals :=
    map_relabel_renumber_eq_self hfixed (pendingEverywhere_pendingAt.2 hgoals)
  have hbindings : e.relabel (shift d) = e := Bindings.relabel_renumber_eq_self hfixed he
  have hlockstep := solveF_shifts hk alarm d searchBudget (pendingAt 0 goals) e
    { s with warned := false } { s' with warned := false } ⟨hs.fresh, hs.state⟩
  rwa [hpending, hbindings] at hlockstep

/-- **How many trials were made before is not seen**: let no `cycle` of a search with the standard
builtins be called with a list that has a name of a trial, which is told by the guard.  Then the
search that starts after `n` more trials, with the same memory and chance, comes to the same
solutions up to the shift, and leaves the same memory and chance; or both come to no answer, for one
cause. -/
theorem solve_shifted (hsilent : solve (k.literal alarm) goals e s ≠ .error alarm) (n : ℕ) :
    Shifted n (ShiftedSolutions n) (solve k goals e s)
      (solve k goals e { s with fresh := s.fresh + n }) := by
  -- both searches come to what the guarded one comes to
  have hself := (solve_shifts hk hgoals he alarm 0 s s ⟨rfl, rfl, rfl⟩).resolve_left hsilent
  have hlater := (solve_shifts hk hgoals he alarm n s { s with fresh := s.fresh + n }
    ⟨rfl, rfl, rfl⟩).resolve_left hsilent
  generalize solve (k.literal alarm) goals e s = r at hself hlater
  generalize solve k goals e s = r₀ at hself ⊢
  generalize solve k goals e { s with fresh := s.fresh + n } = r₁ at hlater ⊢
  cases hself with
  | halted cause =>
      cases hlater
      exact .halted cause
  | answered hfound hs₀ =>
      cases hlater with
      | answered hfound' hs₁ =>
          rw [shiftedSolutions_zero hfound]
          refine .answered hfound' ⟨?_, ?_, ?_⟩
          · rw [hs₁.fresh, hs₀.fresh, Nat.add_zero]
          · rw [hs₁.state.1, hs₀.state.1]
          · rw [hs₁.state.2, hs₀.state.2]

end Search

/-- A cycle through a list that is written in the body of a clause, after seven other trials. -/
theorem solve_shifted_writtenList :
    let k : Knowledge :=
      ⟨⟨[⟨.compound "step" [.var "X"],
        [.call (.compound "cycle" [.list [.atom "a", .atom "b"], .var "X"])]⟩]⟩, .standard,
        defaultDepth, 120⟩
    let goals : List Goal :=
      [.call (.compound "step" [.var "U"]), .call (.compound "step" [.var "V"])]
    let s : Progress := ⟨⟨.empty, .ofSeed 0, []⟩, 0, false⟩
    solve (k.literal .grid) goals .empty s ≠ .error .grid ∧
      Shifted 7 (ShiftedSolutions 7) (solve k goals .empty s)
        (solve k goals .empty { s with fresh := 7 }) := by
  intro k goals s
  have hnames : ∀ g ∈ goals, g.Everywhere (Term.NamedIn ["U", "V"]) := by
    simp [goals, Term.NamedIn]
  have hgoals : GoalsBefore 0 goals := fun g hg =>
    (hnames g hg).mono fun u hu => hu.numbered (by decide) _
  have hanswer : ((solve (k.literal .grid) goals .empty s).toOption.map fun r =>
      (r.1.map (answerLine ["U", "V"]), r.2.world.memory.cycles)) =
        some (["U = a, V = b"], [("[a, b]", 0)]) := by
    decide +kernel
  obtain ⟨r, hr, -⟩ := exists_ok hanswer
  have hsilent : solve (k.literal .grid) goals .empty s ≠ .error .grid := by simp [hr]
  exact ⟨hsilent,
    solve_shifted (fun _ hb => hb) hgoals Bindings.allEntries_empty hsilent 7⟩

/-- **A list that is passed through a variable is remembered a trial at a time**: from the same
memory, a search that starts after one more trial steps another counter, finds another solution and
leaves another memory. -/
theorem solve_not_shifted :
    let k : Knowledge :=
      ⟨⟨[⟨.compound "step" [.var "X"],
        [.call (.compound "=" [.var "L", .list [.atom "a", .atom "b"]]),
          .call (.compound "cycle" [.var "L", .var "X"])]⟩]⟩, .standard, defaultDepth, 120⟩
    let goals : List Goal := [.call (.compound "step" [.var "U"])]
    let s : Progress := ⟨⟨⟨[("L$0", 1)], []⟩, .ofSeed 0, []⟩, 0, false⟩
    (∃ found s₁, solve k goals .empty s = .ok (found, s₁) ∧
        found.map (answerLine ["U"]) = ["U = b"] ∧ s₁.world.memory.cycles = [("L$0", 0)]) ∧
      ∃ found s₁, solve k goals .empty { s with fresh := 1 } = .ok (found, s₁) ∧
        found.map (answerLine ["U"]) = ["U = a"] ∧
          s₁.world.memory.cycles = [("L$0", 1), ("L$1", 1)] := by
  intro k goals s
  have hfirst : ((solve k goals .empty s).toOption.map fun r =>
      (r.1.map (answerLine ["U"]), r.2.world.memory.cycles)) =
        some (["U = b"], [("L$0", 0)]) := by
    decide +kernel
  have hlater : ((solve k goals .empty { s with fresh := 1 }).toOption.map fun r =>
      (r.1.map (answerLine ["U"]), r.2.world.memory.cycles)) =
        some (["U = a"], [("L$0", 1), ("L$1", 1)]) := by
    decide +kernel
  obtain ⟨⟨found, s₁⟩, hrun, hseen⟩ := exists_ok hfirst
  obtain ⟨⟨found', s₁'⟩, hrun', hseen'⟩ := exists_ok hlater
  exact ⟨⟨found, s₁, hrun, Prod.mk.inj hseen⟩, found', s₁', hrun', Prod.mk.inj hseen'⟩

end RhythmLogic
