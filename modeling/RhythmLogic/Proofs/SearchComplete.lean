/-
**What follows from the program is found.**

An assignment under which all goals are derivable *promises* a solution.  The search keeps the
promise: where it unifies the sides of an equation, they have one value, so that the unification
succeeds and the assignment satisfies what it binds; and where a call is derivable by a clause, the
search tries that clause, and the assignment is extended to the fresh names of the trial by what the
derivation gives to the variables of the clause.  The depth that is left to a goal is never smaller
than the height of its derivation, so that no call on the way is pruned.

Fresh names must be fresh.  The number of trials only grows, so it is enough that the goals at the
start do not use a name of a trial that is to come.  Texts do not: no name in a text has the sign
that goes before the number (`Term.Readable.ne_renamed`).

Main definitions:

* `Term.OldName` — no variable has the name of a trial to come;
* `extend` — an assignment with new values for the names of one trial;
* `Promises` — **the assignment promises a solution** of the pending goals.

Main results:

* `Promises.equality`, `Promises.head`, `Promises.body` — the promise is kept by each step;
* `exists_solution` — a search keeps the promise;
* `solve_complete` — **resolution is complete up to the depth limit**.
-/

import RhythmLogic.CommandLine.Mixer
import RhythmLogic.Proofs.Collapse
import RhythmLogic.Proofs.SearchSound
import RhythmLogic.Proofs.Trials

set_option autoImplicit false

namespace RhythmLogic

open Term

variable {k : Knowledge} {ν : Float → Float} {N : Float → Prop} {U : Term → Prop}
  {θ θ' σ : String → Term} {e : Bindings} {s s' : Progress} {t : Term} {m n depth : Nat}
  {rest : List Pending}

/-! ### Old names -/

/-- A variable does not have a name of the trial `m` or of a later one. -/
def Term.OldName (m : Nat) (t : Term) : Prop :=
  ∀ x, t = .var x → ∀ n, m ≤ n → ∀ w, x ≠ renamed n w

theorem stable_oldName (m : Nat) : Stable (OldName m) where
  nil x := by simp
  cons a items tail x := by cases tail <;> simp [listOf]

theorem Term.OldName.mono {u : Term} (h : u.OldName m) (hle : m ≤ n) : u.OldName n :=
  fun x hx i hi => h x hx i (Nat.le_trans hle hi)

/-- The names of a trial are old after the trial. -/
theorem oldName_rename (n : Nat) (t : Term) : (t.rename n).Everywhere (OldName (n + 1)) := by
  refine everywhere_rename.2 fun u _ x hx i hi w hw => ?_
  cases u <;> simp only [rename, Term.var.injEq, reduceCtorEq] at hx
  subst hx
  have := (renamed_inj hw).1
  omega

/-! ### Extended assignments -/

open Classical in
/-- An assignment with the values of `σ` for the names of the trial `n`. -/
noncomputable def extend (θ : String → Term) (n : Nat) (σ : String → Term) : String → Term :=
  fun x => if h : ∃ w, x = renamed n w then σ h.choose else θ x

theorem extend_renamed (θ : String → Term) (n : Nat) (σ : String → Term) (w : String) :
    extend θ n σ (renamed n w) = σ w := by
  have h : ∃ v, renamed n w = renamed n v := ⟨w, rfl⟩
  rw [extend, dif_pos h, ← (renamed_inj h.choose_spec).2]

theorem extend_of_ne (σ : String → Term) {x : String} (h : ∀ w, x ≠ renamed n w) :
    extend θ n σ x = θ x := by
  rw [extend, dif_neg fun ⟨w, hw⟩ => h w hw]

/-- What holds of all values holds of all values of the extended assignment. -/
theorem extend_all (hθ : ∀ x, U (θ x)) (hσ : ∀ x, U (σ x)) (x : String) :
    U (extend θ n σ x) := by
  by_cases h : ∃ w, x = renamed n w
  · obtain ⟨w, rfl⟩ := h
    exact (extend_renamed θ n σ w).symm ▸ hσ w
  · exact (extend_of_ne (n := n) σ fun w hw => h ⟨w, hw⟩).symm ▸ hθ x

/-- The instances of a renamed term under the extended assignment. -/
theorem inst_extend_rename (θ : String → Term) (n : Nat) (σ : String → Term) (t : Term) :
    (t.rename n).inst (extend θ n σ) = t.inst σ := by
  rw [inst_rename]
  exact inst_congr fun x _ => extend_renamed θ n σ x

/-- The extended assignment changes no instance of a term with old names. -/
theorem inst_extend_of_old (σ : String → Term) (h : t.Everywhere (OldName m)) (hle : m ≤ n) :
    t.inst (extend θ n σ) = t.inst θ :=
  inst_congr fun x hx => extend_of_ne σ fun w => h _ hx x rfl n hle w

theorem Bindings.SatisfiedBy.extend (h : e.SatisfiedBy ν θ) (he : e.Everywhere (OldName m))
    (hle : m ≤ n) (σ : String → Term) : e.SatisfiedBy ν (extend θ n σ) := by
  intro x t hx
  obtain ⟨hvar, ht⟩ := he x t hx
  have hθx : RhythmLogic.extend θ n σ x = θ x := extend_of_ne σ fun w => hvar x rfl n hle w
  rw [hθx, inst_extend_of_old σ ht hle]
  exact h x t hx

/-! ### Promises -/

/-- **The assignment promises a solution** of the pending goals from the bindings `e`, in which no
name of the trial `m` or of a later one is used. -/
structure Promises (k : Knowledge) (ν : Float → Float) (N : Float → Prop) (U : Term → Prop)
    (θ : String → Term) (goals : List Pending) (e : Bindings) (m : Nat) : Prop where
  provable : PendingProvable k goals
  regular : PendingIn (Regular N) goals
  old : PendingIn (OldName m) goals
  models : e.Models ν N θ
  boundOld : e.Everywhere (OldName m)
  values : ∀ x, U (θ x)
  /-- All goals are derivable, each within the depth that is left to it. -/
  derivable : ∀ t depth, ⟨.call t, depth⟩ ∈ goals →
    Derivable ν k.program U (k.maxDepth - depth) (t.inst θ)

theorem Promises.tail {g : Pending} (h : Promises k ν N U θ (g :: rest) e m) :
    Promises k ν N U θ rest e m where
  provable := h.provable.tail
  regular := h.regular.tail
  old := h.old.tail
  models := h.models
  boundOld := h.boundOld
  values := h.values
  derivable t depth ht := h.derivable t depth (List.mem_cons_of_mem g ht)

/-- A call that is promised is derived by an instance of a clause. -/
theorem Promises.exists_clause {f : String × Nat}
    (h : Promises k ν N U θ (⟨.call t, depth⟩ :: rest) e m) (hf : t.functor? = some f)
    (hne : f ≠ ("=", 2)) : ∃ c ∈ k.program.clauses, c.head.functor? = some f ∧
      ∃ σ n, k.maxDepth - depth = n + 1 ∧ c.Derives ν k.program U σ n (t.inst θ) := by
  have hvar : t.isVar = false := by
    cases t <;> first | rfl | cases hf
  exact (h.derivable t depth List.mem_cons_self).exists_clause ((functor?_inst hvar).trans hf) hne

/-- **The body of a clause that derives a call is promised**, by what the derivation gives to the
variables of the clause, and the goals that are left stay promised. -/
theorem Promises.body {c : Clause} {height : Nat} {e₁ : Bindings}
    (h : Promises k ν N U θ rest e m) (hn : m ≤ n)
    (hc : c.Derives ν k.program U σ height t) (hheight : height ≤ k.maxDepth - (depth + 1))
    (hcalls : k.AllProvable c.body) (hregular : ∀ u, .call u ∈ c.body → u.Everywhere (Regular N))
    (hmodels : e₁.Models ν N (extend θ n σ)) (hold : e₁.Everywhere (OldName (n + 1))) :
    Promises k ν N U (extend θ n σ) (pendingAt (depth + 1) (c.rename n).body ++ rest) e₁
      (n + 1) where
  provable := h.provable.body hcalls
  regular := h.regular.body fun u hu => (hregular u hu).regular_rename n
  old := by
    have hrest : PendingIn (OldName (n + 1)) rest := fun u d hu =>
      (h.old u d hu).mono fun v hv => hv.mono (Nat.le_succ_of_le hn)
    exact hrest.body fun u _ => oldName_rename n u
  models := hmodels
  boundOld := hold
  values := extend_all h.values hc.values
  derivable u d hu := by
    rcases List.mem_append.1 hu with hu | hu
    · obtain ⟨hgoal, hdepth⟩ := mem_pendingAt.1 hu
      obtain ⟨v, hv, rfl⟩ := call_mem_renameBody.1 hgoal
      obtain rfl : d = depth + 1 := hdepth
      rw [inst_extend_rename]
      exact (hc.body v hv).mono hheight
    · rw [inst_extend_of_old σ (h.old u d hu) hn]
      exact h.derivable u d hu

/-- A predicate that is no builtin is not unification. -/
theorem ne_of_find?_eq_none (hunify : k.builtins.find? "=" 2 = some .unification) {name : String}
    {arity : Nat} (hnone : k.builtins.find? name arity = none) : (name, arity) ≠ ("=", 2) := by
  rintro hname
  cases hname
  simp [hunify] at hnone

section Promises

variable (hN : Exact ν N) (hU : ∀ t, U t → t.Full)
include hN hU

/-- **The promise is kept by equations.**  The sides have one value, so they unify. -/
theorem Promises.equality {a b : Term} {r : Option Bindings}
    (h : Promises k ν N U θ (⟨.call (.compound "=" [a, b]), depth⟩ :: rest) e m)
    (hr : unify a b e = .ok r) :
    ∃ e₁, r = some e₁ ∧ Promises k ν N U θ rest e₁ m := by
  have hregular := (everywhere_compound.1 (h.regular _ _ List.mem_cons_self)).2
  have hold := (everywhere_compound.1 (h.old _ _ List.mem_cons_self)).2
  have hderivable := h.derivable _ _ List.mem_cons_self
  have hab : Unifies ν N θ [(a, b)] := unifies_cons.2
    ⟨⟨hregular a (by simp), hregular b (by simp), hderivable.equal⟩, by simp, by simp⟩
  have hsolves := solves_of_unifyF hr
  obtain ⟨e₁, rfl, hmodels⟩ := hsolves.models hN (fun x => hU _ (h.values x)) hab h.models
  have hsides : EquationsIn (Term.Everywhere (OldName m)) [(a, b)] := by simpa using hold
  have hbound := hsolves.everywhere rfl (stable_oldName m) hsides h.boundOld
  exact ⟨e₁, rfl, { h.tail with models := hmodels, boundOld := hbound }⟩

/-- **The head of a clause that derives a call unifies with it**, however large the number of the
trial is: call and head have one value under the extended assignment. -/
theorem Promises.head {c : Clause} {height : Nat} {r : Option Bindings}
    (h : Promises k ν N U θ (⟨.call t, depth⟩ :: rest) e m) (hn : m ≤ n)
    (hc : c.Derives ν k.program U σ height (t.inst θ)) (hhead : c.head.Everywhere (Regular N))
    (hr : unify t (c.rename n).head e = .ok r) :
    ∃ e₁, r = some e₁ ∧ e₁.Models ν N (extend θ n σ) ∧ e₁.Everywhere (OldName (n + 1)) := by
  have hsolves := solves_of_unifyF hr
  have hold := h.old t depth List.mem_cons_self
  have hvalue : t.value ν (extend θ n σ) = (c.rename n).head.value ν (extend θ n σ) :=
    calc t.value ν (extend θ n σ) = t.value ν θ :=
          congrArg (joined ν) (inst_extend_of_old σ hold hn)
      _ = c.head.value ν σ := hc.head
      _ = (c.rename n).head.value ν (extend θ n σ) :=
          congrArg (joined ν) (inst_extend_rename θ n σ c.head).symm
  have hpair : Unifies ν N (extend θ n σ) [(t, (c.rename n).head)] := unifies_cons.2
    ⟨⟨h.regular t depth List.mem_cons_self, hhead.regular_rename n, hvalue⟩, by simp, by simp⟩
  have hmodels : e.Models ν N (extend θ n σ) :=
    ⟨h.models.walksEnd, h.models.regular, h.models.satisfied.extend h.boundOld hn σ⟩
  obtain ⟨e₁, rfl, he₁⟩ :=
    hsolves.models hN (fun x => hU _ (extend_all h.values hc.values x)) hpair hmodels
  -- the names of the trial are old once it was made
  have hweaken : ∀ u : Term, u.OldName m → u.OldName (n + 1) := fun u hu =>
    hu.mono (Nat.le_succ_of_le hn)
  have hsides : EquationsIn (Term.Everywhere (OldName (n + 1))) [(t, (c.rename n).head)] := by
    simpa using ⟨hold.mono hweaken, oldName_rename n c.head⟩
  exact ⟨e₁, rfl, he₁,
    hsolves.everywhere rfl (stable_oldName _) hsides (h.boundOld.mono hweaken)⟩

/-! ### The search keeps the promise -/

/-- **A search keeps the promise**: one of its solutions is satisfied by an assignment that gives
the same to all names that are not of a trial to come. -/
theorem exists_solution (hp : ∀ u, k.program.Mentions u → u.Regular N)
    (hcalls : ∀ c ∈ k.program.clauses, k.AllProvable c.body)
    (hunify : k.builtins.find? "=" 2 = some .unification) {fuel : Nat} {goals : List Pending}
    {found : List Bindings} (h : Promises k ν N U θ goals e s.fresh)
    (hsolve : solveF k fuel goals e s = .ok (found, s')) :
    ∃ e' ∈ found, ∃ θ', (∀ x, (Term.var x).OldName s.fresh → θ' x = θ x) ∧ (∀ x, U (θ' x)) ∧
      e'.SatisfiedBy ν θ' := by
  induction fuel generalizing goals e s found s' θ with
  | zero => cases hsolve
  | succ fuel ih =>
      rcases goals with _ | ⟨⟨goal, depth⟩, rest⟩
      · cases hsolve
        exact ⟨e, List.mem_singleton_self e, θ, fun _ _ => rfl, h.values, h.models.satisfied⟩
      obtain ⟨t, rfl, name, arity, hf, hname⟩ := h.provable _ List.mem_cons_self
      have hwalk : e.walk t = t := by
        cases t <;> first | rfl | cases hf
      have hpermits : k.Permits name arity := by
        intro b hb
        rcases hname with ⟨rfl, rfl⟩ | hnone
        · rw [hunify] at hb
          exact .inl (Option.some.inj hb).symm
        · simp [hnone] at hb
      simp only [solveF] at hsolve
      generalize hfound : (found, s') = answer at hsolve
      have hcalled := called_of_callTerm (fun name' arity' hf' => by
        rw [hwalk, hf, Option.some.injEq, Prod.mk.injEq] at hf'
        obtain ⟨rfl, rfl⟩ := hf'
        exact hpermits) hsolve
      cases hcalled with
      | uncallable hnone _ => simp [hwalk, hf] at hnone
      | @equality a b r _ hab hr hrest =>
          subst hfound
          obtain rfl : t = .compound "=" [a, b] := hwalk ▸ hab
          obtain ⟨e₁, rfl, hrest'⟩ := h.equality hN hU hr
          obtain ⟨part, s₁, more, hrun, hmore, rfl⟩ := gather_cons.1 hrest
          obtain ⟨e', he', hθ'⟩ := ih hrest' hrun
          exact ⟨e', List.mem_append_left more he', hθ'⟩
      | @pruned name' arity' _ hf' hnone hdeep _ =>
          -- a derivation by a clause has a height, and no depth is left for it
          rw [hwalk] at hf'
          obtain ⟨_, _, _, _, n, hn, _⟩ := h.exists_clause hf' (ne_of_find?_eq_none hunify hnone)
          omega
      | @tried name' arity' s₁ _ hf' hnone _ hfresh htried =>
          subst hfound
          rw [hwalk] at hf' htried
          obtain ⟨c, hc, hhead, σ, n, hn, hderives⟩ :=
            h.exists_clause hf' (ne_of_find?_eq_none hunify hnone)
          -- the clause of the derivation is tried, at some later number
          obtain ⟨s₂, part, s₃, hle, hrun, hsub⟩ := gather_run_of_mem
            (tryClause_advances k fuel t depth rest e)
            (mem_clausesOf.2 ⟨hc, hhead⟩) htried
          rw [hfresh] at hle
          obtain ⟨r, hr, htry⟩ := tryClause_eq_ok hrun
          obtain ⟨e₁, rfl, hmodels, hold⟩ :=
            h.head hN hU hle hderives (Program.everywhere_head hp hc) hr
          have hheight : n ≤ k.maxDepth - (depth + 1) := by omega
          have hbody := h.tail.body hle hderives hheight (hcalls c hc)
            (fun u hu => Program.everywhere_body hp hc hu) hmodels hold
          obtain ⟨e', he', θ', hagree, hθ'⟩ :=
            ih (s := { s₂ with fresh := s₂.fresh + 1 }) hbody htry
          refine ⟨e', hsub e' he', θ', fun x hx => ?_, hθ'⟩
          rw [hagree x (hx.mono (Nat.le_succ_of_le hle))]
          exact extend_of_ne σ fun w => hx x rfl s₂.fresh hle w

end Promises

/-- **Resolution is complete up to the depth limit.**  Let a program and goals have no negation and
call only equations and predicates that are no builtins; let none of their lists with a tail be
empty, and the tolerance be exact on their numbers; and let no goal use the name of a trial that is
to come.  When the search ends, every assignment of ground terms under which all goals have
derivations within the depth limit extends to one that satisfies one of the solutions. -/
theorem solve_complete {goals : List Goal} {sols : List Bindings}
    (hunify : k.builtins.find? "=" 2 = some .unification)
    (hcalls : ∀ c ∈ k.program.clauses, k.AllProvable c.body) (hgoals : k.AllProvable goals)
    (hp : ∀ tail, ¬ k.program.Mentions (.partialList [] tail))
    (hfull : ∀ tail, ¬ CallsMention goals (.partialList [] tail))
    (hN : Exact ν fun x => k.program.Mentions (.number x) ∨ CallsMention goals (.number x))
    (hnames : ∀ x, CallsMention goals (.var x) → ∀ n, s.fresh ≤ n → ∀ w, x ≠ renamed n w)
    (h : solve k goals .empty s = .ok (sols, s'))
    (hθ : ∀ x, (θ x).isGround = true ∧ (θ x).Full)
    (hder : ∀ t, .call t ∈ goals →
      Derivable ν k.program (fun u => u.isGround = true) k.maxDepth (t.inst θ)) :
    ∃ e ∈ sols, ∃ θ', (∀ x, CallsMention goals (.var x) → θ' x = θ x) ∧
      (∀ x, (θ' x).isGround = true ∧ (θ' x).Full) ∧ e.SatisfiedBy ν θ' := by
  let N : Float → Prop := fun x =>
    k.program.Mentions (.number x) ∨ CallsMention goals (.number x)
  have hregular : ∀ u, k.program.Mentions u → u.Regular N := fun u hu =>
    ⟨fun tail htail => hp tail (htail ▸ hu), fun x hx => .inl (hx ▸ hu)⟩
  have hfullCall : ∀ t, .call t ∈ goals → t.Full := fun t ht tail htail =>
    hfull tail ⟨t, ht, htail⟩
  have hpromises : Promises k ν N (fun u => u.isGround = true ∧ u.Full) θ (pendingAt 0 goals)
      .empty s.fresh :=
    { provable := pendingProvable_pendingAt hgoals
      regular := pendingIn_pendingAt fun t ht =>
        (hfullCall t ht).regular fun x hx => .inr ⟨t, ht, hx⟩
      old := pendingIn_pendingAt fun t ht u hu x hux =>
        hnames x ⟨t, ht, hux ▸ hu⟩
      models := ⟨Bindings.walksEnd_empty, Bindings.everywhere_empty, Bindings.satisfiedBy_empty⟩
      boundOld := Bindings.everywhere_empty
      values := hθ
      derivable := fun t depth ht => by
        obtain ⟨hgoal, rfl⟩ := mem_pendingAt.1 ht
        exact (hder t hgoal).full hp ((hfullCall t hgoal).inst fun x => (hθ x).2) }
  obtain ⟨e, he, θ', hold, hθ'⟩ :=
    exists_solution (s := { s with warned := false }) hN (fun _ hu => hu.2) hregular hcalls hunify
      hpromises h
  refine ⟨e, he, θ', fun x hx => hold x ?_, hθ'⟩
  rintro y hy
  cases hy
  exact hnames x hx

/-- A derivation that uses the whole depth limit, and joins the tail of a list on its way. -/
theorem solve_complete_joinedList :
    let k : Knowledge :=
      ⟨⟨[⟨.compound "p" [.partialList [.number 1] (.var "T")],
            [.call (.compound "=" [.var "T", .list [.var "Z"]]), .call (.compound "q" [.var "Z"])]⟩,
          ⟨.compound "q" [.atom "a"], []⟩]⟩, .standard, 2, 120⟩
    let goals : List Goal := [.call (.compound "p" [.var "L"])]
    let s : Progress := ⟨⟨.empty, .ofSeed 0, []⟩, 0, false⟩
    ∃ sols s', solve k goals .empty s = .ok (sols, s') ∧
      ∃ e ∈ sols, ∃ θ : String → Term, (∀ x, CallsMention goals (.var x) →
        θ x = .list [.number 1, .atom "a"]) ∧ (∀ x, (θ x).isGround = true ∧ (θ x).Full) ∧
        e.SatisfiedBy id θ := by
  intro k goals s
  obtain ⟨sols, s', h⟩ : ∃ sols s', solve k goals .empty s = .ok (sols, s') := ⟨_, _, rfl⟩
  have hcalls : ∀ c ∈ k.program.clauses, k.AllProvable c.body := by
    simp only [k, List.forall_mem_cons, Knowledge.AllProvable]
    exact ⟨⟨⟨_, rfl, "=", 2, rfl, .inl ⟨rfl, rfl⟩⟩, ⟨_, rfl, "q", 1, rfl, .inr rfl⟩, by simp⟩,
      by simp, by simp⟩
  have hgoals : k.AllProvable goals := by
    simp only [goals, List.forall_mem_cons, Knowledge.AllProvable]
    exact ⟨⟨_, rfl, "p", 1, rfl, .inr rfl⟩, by simp⟩
  let P : Term → Prop := fun u => u.HasItems ∧ ∀ x, u = .number x → x = 1
  have hprogram : ∀ u, k.program.Mentions u → P u :=
    Program.forall_mentions.2 (by simp [k, P, HasItems])
  have hquery : ∀ u, CallsMention goals u → P u :=
    forall_callsMention.2 (by simp [goals, P, HasItems])
  have hN : Exact id fun x => k.program.Mentions (.number x) ∨ CallsMention goals (.number x) := by
    intro x y hx hy
    rw [(hx.elim (hprogram _) (hquery _)).2 x rfl, (hy.elim (hprogram _) (hquery _)).2 y rfl]
    decide +kernel
  have hnames : ∀ x, CallsMention goals (.var x) → ∀ n, s.fresh ≤ n → ∀ w, x ≠ renamed n w := by
    have hvar : ∀ u, CallsMention goals u → ∀ x, u = .var x → x = "L" :=
      forall_callsMention.2 (by simp [goals])
    rintro x hx n - w hw
    have hdollar := dollar_mem_renamed n w
    rw [← hw, hvar _ hx x rfl] at hdollar
    revert hdollar
    decide
  let θ : String → Term := fun _ => .list [.number 1, .atom "a"]
  have hθ : ∀ x, (θ x).isGround = true ∧ (θ x).Full := fun x =>
    ⟨rfl, full_iff.2 (by simp [θ, HasItems])⟩
  let σ : String → Term := fun x => if x = "T" then .list [.atom "a"] else .atom "a"
  have hσ : ∀ x, (σ x).isGround = true := by
    intro x
    simp only [σ]
    split_ifs <;> rfl
  have hq : Derivable id k.program (fun u => u.isGround = true) 1 (.compound "q" [.atom "a"]) :=
    .clause (c := ⟨.compound "q" [.atom "a"], []⟩) (by simp [k]) rfl (by decide) hσ rfl (by simp)
  have hder : ∀ t, .call t ∈ goals →
      Derivable id k.program (fun u => u.isGround = true) k.maxDepth (t.inst θ) := by
    intro t ht
    obtain rfl : t = .compound "p" [.var "L"] := by simpa [goals] using ht
    refine .clause (σ := σ) List.mem_cons_self rfl (by decide) hσ rfl fun u hu => ?_
    simp only [List.mem_cons, Goal.call.injEq, List.not_mem_nil, or_false] at hu
    rcases hu with rfl | rfl
    · exact .equality rfl
    · exact hq
  have hempty : ∀ tail, ¬ P (.partialList [] tail) := fun tail h => h.1 tail rfl
  exact ⟨sols, s', h, solve_complete rfl hcalls hgoals (fun tail h => hempty tail (hprogram _ h))
    (fun tail h => hempty tail (hquery _ h)) hN hnames h hθ hder⟩

/-- **A query that holds a name of the resolver's own is not answered in full:** the first clause is
renamed with `V$0`, and so its two variables meet. The query is derivable, and under another name
for its variable it is answered. -/
theorem solve_not_complete :
    let k : Knowledge :=
      ⟨⟨[⟨.compound "p" [.atom "a", .var "V"], []⟩]⟩, .standard, 512, 120⟩
    let query : String → List Goal := fun x => [.call (.compound "p" [.var x, .atom "b"])]
    let goals := query "V$0"
    let s : Progress := ⟨⟨.empty, .ofSeed 0, []⟩, 0, false⟩
    let θ : String → Term := fun _ => .atom "a"
    k.builtins.find? "=" 2 = some .unification ∧
      (∀ c ∈ k.program.clauses, k.AllProvable c.body) ∧ k.AllProvable goals ∧
      (∀ tail, ¬ k.program.Mentions (.partialList [] tail)) ∧
      (∀ tail, ¬ CallsMention goals (.partialList [] tail)) ∧
      Exact id (fun x => k.program.Mentions (.number x) ∨ CallsMention goals (.number x)) ∧
      (∀ x, (θ x).isGround = true ∧ (θ x).Full) ∧
      (∀ t, .call t ∈ goals →
        Derivable id k.program (fun u => u.isGround = true) k.maxDepth (t.inst θ)) ∧
      (∃ s', solve k goals .empty s = .ok ([], s')) ∧
      ∃ sols s', solve k (query "V") .empty s = .ok (sols, s') ∧
        sols.map (answerLine ["V"]) = ["V = a"] := by
  intro k query goals s θ
  let P : Term → Prop := fun u => u.HasItems ∧ ∀ x, u ≠ .number x
  have hprogram : ∀ u, k.program.Mentions u → P u :=
    Program.forall_mentions.2 (by simp [k, P, HasItems])
  have hquery : ∀ u, CallsMention goals u → P u :=
    forall_callsMention.2 (by simp [goals, query, P, HasItems])
  have hN : Exact id fun x => k.program.Mentions (.number x) ∨ CallsMention goals (.number x) :=
    fun x _ hx _ => absurd rfl ((hx.elim (hprogram _) (hquery _)).2 x)
  have hder : ∀ t, .call t ∈ goals →
      Derivable id k.program (fun u => u.isGround = true) k.maxDepth (t.inst θ) := by
    intro t ht
    obtain rfl : t = .compound "p" [.var "V$0", .atom "b"] := by simpa [goals, query] using ht
    -- the clause is used with `b` for its own variable
    exact .clause (σ := fun _ => .atom "b") List.mem_cons_self rfl (by decide) (fun _ => rfl) rfl
      (by simp)
  have hgoals : k.AllProvable goals := by
    simp only [goals, query, List.forall_mem_cons, Knowledge.AllProvable]
    exact ⟨⟨_, rfl, "p", 2, rfl, .inr rfl⟩, by simp⟩
  have hnone : (solve k goals .empty s).toOption.map (fun r => r.1.length) = some 0 := by
    decide +kernel
  obtain ⟨⟨sols, s'⟩, hsols, hlength⟩ := exists_ok hnone
  obtain rfl : sols = [] := List.eq_nil_of_length_eq_zero hlength
  have hone : (solve k (query "V") .empty s).toOption.map
      (fun r => r.1.map (answerLine ["V"])) = some ["V = a"] := by decide +kernel
  obtain ⟨⟨found, s''⟩, hfound, hanswer⟩ := exists_ok hone
  exact ⟨rfl, by simp [k, Knowledge.AllProvable], hgoals, fun tail h => (hprogram _ h).1 tail rfl,
    fun tail h => (hquery _ h).1 tail rfl, hN, fun x => ⟨rfl, full_iff.2 (by simp [θ, HasItems])⟩,
    hder, ⟨s', hsols⟩, found, s'', hfound, hanswer⟩

end RhythmLogic
