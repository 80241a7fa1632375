/-
**Derivations: what follows from the clauses of a program.**

The meaning of a program without negation is given apart from the search.  A term is *derivable*
when it equals an instance of the head of a clause, and the same instances of all terms that the
body calls are derivable; and an equation `s = t` is derivable when its sides are equal.  The height
of a derivation counts the clauses that are used one inside the other.

Main definitions:

* `Definite`, `Program.Definite` — goals and programs without a negation;
* `CallsMention`, `Program.Mentions` — the parts of the terms of goals and of a program;
* `Derivable` — **what follows from the clauses**, with a bound for the height;
* `Clause.Derives` — an instance of a clause that derives a term.

Main results:

* `Derivable.mono` — a derivation is one of every greater height;
* `Derivable.congr` — equal terms have the same derivations;
* `Derivable.equal`, `Derivable.exists_clause` — equations are derivable by equality only, and
  other calls by clauses with their name and arity only.
-/

import RhythmLogic.Proofs.Values
import RhythmLogic.Program.Basic

set_option autoImplicit false

namespace RhythmLogic

open Term

/-! ### Programs without a negation -/

/-- No goal is a negation. -/
def Definite (goals : List Goal) : Prop := ∀ g ∈ goals, ∃ t, g = .call t

/-- No body has a negation. -/
def Program.Definite (p : Program) : Prop := ∀ c ∈ p.clauses, RhythmLogic.Definite c.body

/-- A term occurs in one that is called. -/
def CallsMention (goals : List Goal) (u : Term) : Prop := ∃ t, .call t ∈ goals ∧ u.Occurs t

/-- A term occurs in the head of a clause, or in a term that its body calls. -/
def Program.Mentions (p : Program) (u : Term) : Prop :=
  ∃ c ∈ p.clauses, u.Occurs c.head ∨ CallsMention c.body u

section Mentions

variable {P : Term → Prop} {p : Program} {c : Clause} {goals : List Goal} {t : Term}

/-- What holds of all that goals mention holds everywhere in the terms that they call. -/
theorem forall_callsMention :
    (∀ u, CallsMention goals u → P u) ↔ ∀ t, .call t ∈ goals → t.Everywhere P :=
  ⟨fun h t ht u hu => h u ⟨t, ht, hu⟩, fun h u ⟨t, ht, hu⟩ => h t ht u hu⟩

/-- What holds of all that a program mentions holds everywhere in its heads and in what its bodies
call. -/
theorem Program.forall_mentions : (∀ u, p.Mentions u → P u) ↔
    ∀ c ∈ p.clauses, c.head.Everywhere P ∧ ∀ t, .call t ∈ c.body → t.Everywhere P := by
  constructor
  · intro h c hc
    exact ⟨fun u hu => h u ⟨c, hc, .inl hu⟩, forall_callsMention.1 fun u hu => h u ⟨c, hc, .inr hu⟩⟩
  · rintro h u ⟨c, hc, hu | hu⟩
    · exact (h c hc).1 u hu
    · exact forall_callsMention.2 (h c hc).2 u hu

theorem Program.everywhere_head (h : ∀ u, p.Mentions u → P u) (hc : c ∈ p.clauses) :
    c.head.Everywhere P := (forall_mentions.1 h c hc).1

theorem Program.everywhere_body (h : ∀ u, p.Mentions u → P u) (hc : c ∈ p.clauses)
    (ht : .call t ∈ c.body) : t.Everywhere P := (forall_mentions.1 h c hc).2 t ht

end Mentions

/-! ### Derivations -/

/-- **What follows from the clauses of a program,** by derivations of a height of at most `h`.  The
instances are taken with terms of a universe `U`.  Equations hold by equality alone, and not by
clauses. -/
inductive Derivable (ν : Float → Float) (p : Program) (U : Term → Prop) : Nat → Term → Prop where
  | equality {h : Nat} {s t : Term} : Equal ν s t → Derivable ν p U h (.compound "=" [s, t])
  | clause {h : Nat} {g : Term} {c : Clause} {f : String × Nat} {σ : String → Term} :
      c ∈ p.clauses → c.head.functor? = some f → f ≠ ("=", 2) → (∀ x, U (σ x)) →
      Equal ν g (c.head.inst σ) → (∀ t, .call t ∈ c.body → Derivable ν p U h (t.inst σ)) →
      Derivable ν p U (h + 1) g

variable {ν : Float → Float} {p : Program} {U : Term → Prop} {h m : Nat} {g g' : Term}

/-- **A derivation is one of every greater height.** -/
theorem Derivable.mono (hg : Derivable ν p U h g) (hle : h ≤ m) : Derivable ν p U m g := by
  induction hg generalizing m with
  | equality heq => exact .equality heq
  | clause hc hf hne hσ heq _ ih =>
      obtain ⟨m, rfl⟩ : ∃ k, m = k + 1 := ⟨m - 1, by omega⟩
      exact .clause hc hf hne hσ heq fun t ht => ih t ht (Nat.le_of_succ_le_succ hle)

/-- A term is a compound if it is one once joined. -/
theorem eq_compound_of_joined {f : String} {args : List Term} {t : Term}
    (ht : t.joined ν = .compound f args) :
    ∃ ts, t = .compound f ts ∧ ts.map (joined ν) = args := by
  cases t with
  | compound f' ts =>
      simp only [joined, joinedAll_eq_map, compound.injEq] at ht
      obtain ⟨rfl, hargs⟩ := ht
      exact ⟨ts, rfl, hargs⟩
  | partialList items tail =>
      rw [joined, joinTail_eq_listOf] at ht
      have hlist := congrArg Term.list? ht
      rw [list?_listOf] at hlist
      cases hlist
  | _ => cases ht

/-- An equation is one of two terms once joined. -/
theorem eq_equation_of_joined {f : String} {s t u : Term}
    (hu : u.joined ν = .compound f [s, t]) :
    ∃ a b, u = .compound f [a, b] ∧ a.joined ν = s ∧ b.joined ν = t := by
  obtain ⟨ts, rfl, hts⟩ := eq_compound_of_joined hu
  rcases ts with _ | ⟨a, _ | ⟨b, _ | ⟨c, ts⟩⟩⟩ <;> simp at hts
  exact ⟨a, b, rfl, hts.1, hts.2⟩

/-- **Equal terms have the same derivations.** -/
theorem Derivable.congr (hg : Derivable ν p U h g) (heq : Equal ν g g') :
    Derivable ν p U h g' := by
  cases hg with
  | @equality _ s t hst =>
      have hjoined : g'.joined ν = .compound "=" [s.joined ν, t.joined ν] := by
        rw [← (heq : _ = g'.joined ν)]
        rfl
      obtain ⟨a, b, rfl, ha, hb⟩ := eq_equation_of_joined hjoined
      exact .equality (ha.trans (hst.trans hb.symm))
  | clause hc hf hne hσ hhead hbody =>
      exact .clause hc hf hne hσ (heq.symm.trans hhead) hbody

/-! ### What is called -/

/-- Joining keeps name and arity. -/
theorem functor?_joined (t : Term) : (t.joined ν).functor? = t.functor? := by
  cases t with
  | partialList items tail =>
      rw [joined, joinTail_eq_listOf]
      cases (tail.joined ν).back <;> rfl
  | _ => simp [joined, functor?]

/-- An instance of a head has the name and arity of the head, and so has a term that equals it. -/
theorem functor?_of_head {head : Term} {f : String × Nat} {σ : String → Term}
    (hf : head.functor? = some f) (heq : Equal ν g (head.inst σ)) : g.functor? = some f := by
  have hvar : head.isVar = false := by
    cases head <;> first | rfl | cases hf
  calc g.functor? = (g.joined ν).functor? := (functor?_joined g).symm
    _ = ((head.inst σ).joined ν).functor? := congrArg Term.functor? heq
    _ = head.functor? := (functor?_joined _).trans (functor?_inst hvar)
    _ = some f := hf

/-- A derivable equation has equal sides. -/
theorem Derivable.equal {s t : Term} (hd : Derivable ν p U h (.compound "=" [s, t])) :
    Equal ν s t := by
  cases hd with
  | equality heq => exact heq
  | clause _ hf hne _ heq _ =>
      have hname := functor?_of_head hf heq
      exact absurd (Option.some.inj hname).symm hne

/-- **An instance of a clause derives a term**, and derivations of a height of at most `h` are
enough for its body. -/
structure Clause.Derives (ν : Float → Float) (p : Program) (U : Term → Prop) (c : Clause)
    (σ : String → Term) (h : Nat) (g : Term) : Prop where
  values : ∀ x, U (σ x)
  head : Equal ν g (c.head.inst σ)
  body : ∀ t, .call t ∈ c.body → Derivable ν p U h (t.inst σ)

theorem Clause.Derives.derivable {c : Clause} {σ : String → Term} {f : String × Nat}
    (hd : c.Derives ν p U σ h g) (hc : c ∈ p.clauses) (hf : c.head.functor? = some f)
    (hne : f ≠ ("=", 2)) : Derivable ν p U (h + 1) g :=
  .clause hc hf hne hd.values hd.head hd.body

/-- A derivable call is derived by an instance of a clause with its name and arity. -/
theorem Derivable.exists_clause {f : String × Nat} (hd : Derivable ν p U h g)
    (hf : g.functor? = some f) (hne : f ≠ ("=", 2)) :
    ∃ c ∈ p.clauses, c.head.functor? = some f ∧ ∃ σ n, h = n + 1 ∧ c.Derives ν p U σ n g := by
  cases hd with
  | equality _ => exact absurd (Option.some.inj hf).symm hne
  | @clause n _ c f' σ hc hhead _ hσ heq hbody =>
      obtain rfl : f' = f := Option.some.inj ((functor?_of_head hhead heq).symm.trans hf)
      exact ⟨c, hc, hhead, σ, n, rfl, hσ, heq, hbody⟩

end RhythmLogic
