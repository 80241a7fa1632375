/-
**Steady searches: no builtin that remembers or draws.**

What a builtin that steps a counter or draws a number answers hangs on what was searched before.  A
search that uses none of them can be told by a guard, as for the builtins other than unification:
in the guarded table the builtins that remember or draw halt the search, and a search that comes to
an answer under the guard comes to the same answer without it.

Main definitions:

* `BuiltinTable.steady`, `Knowledge.steady` — the guard;
* `Knowledge.Parametric` — all builtins keep all matchings.

Main results:

* `parametric_steady` — guarded standard builtins are parametric;
* `solve_refines_steady` — **answers under the guard are answers without it**.
-/

import RhythmLogic.Proofs.Parametric
import RhythmLogic.Proofs.Refinement

set_option autoImplicit false

namespace RhythmLogic

variable {k : Knowledge}

/-! ### The guard -/

/-- A builtin has the name and arity of one that remembers or draws. -/
def Builtin.isUnsteady (b : Builtin) : Bool :=
  Builtin.unsteady.any fun u => u.name == b.name && u.arity == b.arity

/-- A builtin, or one that halts if it remembers or draws. -/
def Builtin.steady (b : Builtin) : Builtin :=
  if b.isUnsteady then { b with run := fun _ _ _ => Body.misused } else b

/-- **The guard**: a table in which `cycle`, `pick`, `prob`, `rand` and `randint` halt a search. -/
def BuiltinTable.steady (table : BuiltinTable) : BuiltinTable :=
  ⟨table.builtins.map Builtin.steady⟩

/-- What a search works with, when every builtin that remembers or draws halts it. -/
def Knowledge.steady (k : Knowledge) : Knowledge := { k with builtins := k.builtins.steady }

theorem find?_steady (table : BuiltinTable) (name : String) (arity : Nat) :
    table.steady.find? name arity = (table.find? name arity).map Builtin.steady := by
  refine find?_map (fun b => ?_) (fun b => ?_) table name arity <;>
    · unfold Builtin.steady
      split <;> rfl

/-- All builtins keep all matchings, whatever the worlds are. -/
def Knowledge.Parametric (k : Knowledge) : Prop :=
  ∀ {T : Term → Term → Prop} {E : Bindings → Bindings → Prop}, Matching T E →
    ∀ {name : String} {arity : Nat} {b : Builtin}, k.builtins.find? name arity = some b →
      b.Keeps T E fun _ _ => True

/-- A builtin that halts keeps everything. -/
theorem keeps_misused {T : Term → Term → Prop} {E : Bindings → Bindings → Prop}
    {W : World → World → Prop} {b : Builtin} (hb : b.run = fun _ _ _ => Body.misused) :
    b.Keeps T E W := by
  intro bpm args args' e e' _ _
  rw [hb]
  exact .halt _

/-- **Guarded standard builtins are parametric.** -/
theorem parametric_steady (hk : ∀ b ∈ k.builtins.builtins, b ∈ Builtin.standard) :
    k.steady.Parametric := by
  intro T E hM name arity b hb
  rw [Knowledge.steady, find?_steady] at hb
  obtain ⟨b', hb', rfl⟩ := Option.map_eq_some_iff.1 hb
  rw [Builtin.steady]
  split
  · exact keeps_misused rfl
  · next hsteady =>
      have hstandard := hk b' (List.mem_of_find?_eq_some hb')
      refine (unsteady_or_keeps hM (fun _ _ _ _ => trivial) b' hstandard).resolve_left fun h => ?_
      exact hsteady (List.any_eq_true.2 ⟨b', h, by simp⟩)

/-! ### Answers under the guard -/

/-- The guard is a restriction. -/
theorem restricts_steady (k : Knowledge) : Restricts k.steady k := by
  refine ⟨rfl, rfl, rfl, fun name arity => ?_⟩
  rw [Knowledge.steady, find?_steady]
  cases k.builtins.find? name arity with
  | none => exact .inl rfl
  | some b =>
      simp only [Option.map_some, Builtin.steady]
      split
      · exact .inr ⟨_, rfl, rfl⟩
      · exact .inl rfl

/-- **A search that comes to an answer under the guard** comes to the same without it. -/
theorem solve_refines_steady (k : Knowledge) (goals : List Goal) (e : Bindings) :
    RunRefines (solve k goals e) (solve k.steady goals e) := fun s r h =>
  solveF_refines (restricts_steady k) (Nat.le_refl _) (pendingAt 0 goals) e
    { s with warned := false } r h

end RhythmLogic
