/-
**Renaming: the fresh copies of clauses.**

A clause is tried under names of its own.  Renaming is a special instance, the one that gives every
variable a variable with the number of the trial in its name; so what is known of instances is known
of renamed terms.  The number can be read off a renamed name, so trials with different numbers share
no variable, and a trial does not join two variables of its clause.

Main results:

* `Term.rename_eq_inst` — renaming is an instance;
* `Term.inst_rename` — the instances of a renamed term are instances of the term;
* `Term.everywhere_rename` — the parts of a renamed term are the renamed parts;
* `renamed_inj` — **number and name can be read off a renamed name**.
-/

import RhythmLogic.Proofs.Unifiers
import RhythmLogic.Program.Basic

set_option autoImplicit false

namespace RhythmLogic

namespace Term

variable {ν : Float → Float} {θ σ : String → Term} {P : Term → Prop} {n : Nat}

/-! ### Renamed terms -/

@[simp] theorem renameAll_eq_map (n : Nat) (ts : List Term) :
    renameAll n ts = ts.map (rename n) := by
  induction ts with
  | nil => rfl
  | cons t ts ih => simp [renameAll, ih]

/-- **Renaming is an instance.** -/
theorem rename_eq_inst (n : Nat) (t : Term) :
    t.rename n = t.inst fun x => .var (renamed n x) := by
  induction t with
  | number | atom | var => rfl
  | compound f args ih =>
      simp only [rename, inst, renameAll_eq_map, instAll_eq_map, List.map_congr_left ih]
  | list items ih =>
      simp only [rename, inst, renameAll_eq_map, instAll_eq_map, List.map_congr_left ih]
  | partialList items tail ih ih' =>
      simp only [rename, inst, renameAll_eq_map, instAll_eq_map, List.map_congr_left ih, ih']
  | expr op l r ihl ihr => simp only [rename, inst, ihl, ihr]

/-- The instance of an instance is one instance. -/
theorem inst_inst (t : Term) : (t.inst σ).inst θ = t.inst fun x => (σ x).inst θ := by
  induction t with
  | number | atom | var => rfl
  | compound f args ih =>
      simp only [inst, instAll_eq_map, List.map_map, compound.injEq, true_and]
      exact List.map_congr_left ih
  | list items ih =>
      simp only [inst, instAll_eq_map, List.map_map, list.injEq]
      exact List.map_congr_left ih
  | partialList items tail ih ih' =>
      simp only [inst, instAll_eq_map, List.map_map, ih', partialList.injEq, and_true]
      exact List.map_congr_left ih
  | expr op l r ihl ihr => simp only [inst, ihl, ihr]

/-- **The instance of a renamed term** is the instance of the term, under the assignment that looks
the renamed names up. -/
theorem inst_rename (n : Nat) (t : Term) :
    (t.rename n).inst θ = t.inst fun x => θ (renamed n x) := by
  rw [rename_eq_inst, inst_inst]
  rfl

theorem value_rename (n : Nat) (t : Term) :
    (t.rename n).value ν θ = t.value ν fun x => θ (renamed n x) :=
  congrArg (joined ν) (inst_rename n t)

theorem functor?_rename (n : Nat) (t : Term) : (t.rename n).functor? = t.functor? := by
  cases t <;> simp [rename, functor?]

/-- **The parts of a renamed term are the renamed parts.** -/
theorem everywhere_rename {t : Term} :
    (t.rename n).Everywhere P ↔ t.Everywhere fun u => P (u.rename n) := by
  induction t with
  | number | atom | var => simp [rename]
  | compound f args ih =>
      simp only [rename, renameAll_eq_map, everywhere_compound, List.forall_mem_map]
      exact and_congr_right fun _ => forall₂_congr ih
  | list items ih =>
      simp only [rename, renameAll_eq_map, everywhere_list, List.forall_mem_map]
      exact and_congr_right fun _ => forall₂_congr ih
  | partialList items tail ih ih' =>
      simp only [rename, renameAll_eq_map, everywhere_partialList, List.forall_mem_map, ih']
      exact and_congr_right fun _ => and_congr_left fun _ => forall₂_congr ih
  | expr op l r ihl ihr =>
      simp only [rename, everywhere_expr, ihl, ihr]

/-- Renaming changes no number. -/
theorem Everywhere.inRange_rename {N : Float → Prop} {t : Term}
    (h : t.Everywhere (InRange N)) (n : Nat) : (t.rename n).Everywhere (InRange N) :=
  everywhere_rename.2 <| h.mono fun u hu x hx => by
    cases u <;> simp only [rename, reduceCtorEq] at hx
    exact hu x hx

/-- Renaming empties no list. -/
theorem Everywhere.regular_rename {N : Float → Prop} {t : Term}
    (h : t.Everywhere (Regular N)) (n : Nat) : (t.rename n).Everywhere (Regular N) := by
  have hnumbers := (h.mono fun u hu => hu.2).inRange_rename n
  have hitems : (t.rename n).Everywhere HasItems :=
    everywhere_rename.2 <| h.mono fun u hu tail hut => by
      cases u <;> simp only [rename, renameAll_eq_map, partialList.injEq, List.map_eq_nil_iff,
        reduceCtorEq] at hut
      obtain ⟨rfl, -⟩ := hut
      exact hu.1 _ rfl
  exact fun u hu => ⟨hitems u hu, hnumbers u hu⟩

end Term

/-! ### Renamed bodies -/

theorem renameBody_eq_map (n : Nat) (goals : List Goal) :
    Goal.renameBody n goals = goals.map (Goal.rename n) := by
  induction goals with
  | nil => rfl
  | cons g goals ih => simp [Goal.renameBody, ih]

/-- What a renamed body calls is what the body calls, renamed. -/
theorem call_mem_renameBody {n : Nat} {goals : List Goal} {t : Term} :
    .call t ∈ Goal.renameBody n goals ↔ ∃ u, .call u ∈ goals ∧ t = u.rename n := by
  rw [renameBody_eq_map, List.mem_map]
  constructor
  · rintro ⟨g, hg, h⟩
    cases g with
    | call u =>
        rw [Goal.rename, Goal.call.injEq] at h
        exact ⟨u, hg, h.symm⟩
    | negation alternatives => cases h
  · rintro ⟨u, hu, rfl⟩
    exact ⟨.call u, hu, rfl⟩

/-! ### Fresh names -/

theorem dollar_notMem_decimalText (n : Nat) : '$' ∉ decimalText n := fun h => by
  have hdigit := Nat.isDigit_of_mem_toDigits (by decide) (by decide) h
  revert hdigit
  decide

/-- A number can be read off its digits. -/
theorem decimalText_inj {m n : Nat} (h : decimalText m = decimalText n) : m = n := by
  have hvalue := congrArg (fun cs => Nat.ofDigitChars 10 cs 0) h
  simpa [decimalText, Nat.ofDigitChars_ten_toDigits] using hvalue

/-- A renamed name has the sign that goes before the number. -/
theorem dollar_mem_renamed (n : Nat) (x : String) : '$' ∈ (renamed n x).toList := by
  simp [renamed]

/-- Two rows with a mark that does not occur behind it have the same parts around it. -/
theorem append_mark_inj {as as' bs bs' : List Char} {c : Char} (hb : c ∉ bs) (hb' : c ∉ bs')
    (h : as ++ c :: bs = as' ++ c :: bs') : as = as' ∧ bs = bs' := by
  rcases List.append_eq_append_iff.1 h with ⟨mid, rfl, hmid⟩ | ⟨mid, rfl, hmid⟩
  · cases mid with
    | nil => simp_all
    | cons d mid =>
        rw [List.cons_append, List.cons.injEq] at hmid
        exact absurd (hmid.2 ▸ List.mem_append_right mid List.mem_cons_self) hb
  · cases mid with
    | nil => simp_all
    | cons d mid =>
        rw [List.cons_append, List.cons.injEq] at hmid
        exact absurd (hmid.2 ▸ List.mem_append_right mid List.mem_cons_self) hb'

/-- **Number and name can be read off a renamed name.** -/
theorem renamed_inj {m n : Nat} {x y : String} (h : renamed m x = renamed n y) :
    m = n ∧ x = y := by
  have hlist : x.toList ++ '$' :: decimalText m = y.toList ++ '$' :: decimalText n := by
    simpa [renamed, naturalText] using congrArg String.toList h
  obtain ⟨hname, hnumber⟩ :=
    append_mark_inj (dollar_notMem_decimalText m) (dollar_notMem_decimalText n) hlist
  exact ⟨decimalText_inj hnumber, String.toList_inj.1 hname⟩

end RhythmLogic
