/-
**Solutions follow from the program.**

A solution of a search is found along a way: equations that were unified, and clauses whose bodies
took the place of the calls.  The relation `Answers` keeps of a search just the way to one of its
solutions, with one constructor for each kind of step, and forgets the alternatives.  The goals that
are left along the way belong to calls that are nested differently deep, and stand under different
renamings; what holds of all of them is that they are derivable within the depth that is left to
each, under every assignment that satisfies the final bindings.  This is shown from the end of the
way backwards.

Main definitions:

* `Answers` — **the way to one solution**.

Main results:

* `answers_of_solveF` — every solution of a search has a way to it;
* `Answers.derivable` — pending goals are derivable, within the depth that is left;
* `solve_sound` — **solutions of a program without negation follow from it**.
-/

import RhythmLogic.CommandLine.Mixer
import RhythmLogic.Proofs.Guards

set_option autoImplicit false

namespace RhythmLogic

open Term

variable {k : Knowledge} {ν : Float → Float} {N : Float → Prop} {U : Term → Prop}
  {θ : String → Term} {e e' : Bindings} {s s' : Progress}

/-! ### Ways to solutions -/

/-- **The way to one solution**: `e'` answers the pending goals, when they are read through `e`. -/
inductive Answers (k : Knowledge) : List Pending → Bindings → Bindings → Prop where
  | done {e : Bindings} : Answers k [] e e
  /-- An equation is called, and its sides unify. -/
  | equality {t a b : Term} {depth : Nat} {rest : List Pending} {e e₁ e' : Bindings} :
      e.walk t = .compound "=" [a, b] → unify a b e = .ok (some e₁) → Answers k rest e₁ e' →
      Answers k (⟨.call t, depth⟩ :: rest) e e'
  /-- The head of a clause unifies with the call, and its body takes the place of the call. -/
  | clause {t : Term} {depth n : Nat} {rest : List Pending} {e e₁ e' : Bindings} {c : Clause}
      {name : String} {arity : Nat} :
      (e.walk t).functor? = some (name, arity) → k.builtins.find? name arity = none →
      depth < k.maxDepth → c ∈ k.program.clausesOf name arity →
      unify (e.walk t) (c.rename n).head e = .ok (some e₁) →
      Answers k (pendingAt (depth + 1) (c.rename n).body ++ rest) e₁ e' →
      Answers k (⟨.call t, depth⟩ :: rest) e e'

/-- A clause that a call tries is one of the program, and its head has the name and arity of the
call. -/
theorem mem_clausesOf {p : Program} {name : String} {arity : Nat} {c : Clause} :
    c ∈ p.clausesOf name arity ↔ c ∈ p.clauses ∧ c.head.functor? = some (name, arity) := by
  simp [Program.clausesOf]

/-- **Every solution of a search has a way to it,** if the search uses no builtin but
unification. -/
theorem answers_of_solveF (hk : ∀ name arity, k.Permits name arity) (hp : k.program.Definite)
    {fuel : Nat} {goals : List Pending} {found : List Bindings} (hgoals : AllCalls goals)
    (h : solveF k fuel goals e s = .ok (found, s')) (he' : e' ∈ found) :
    Answers k goals e e' := by
  induction fuel generalizing goals e s found s' with
  | zero => cases h
  | succ fuel ih =>
      rcases goals with _ | ⟨⟨goal, depth⟩, rest⟩
      · cases h
        rw [List.mem_singleton.1 he']
        exact .done
      obtain ⟨t, rfl⟩ : ∃ t, goal = .call t := hgoals _ List.mem_cons_self
      simp only [solveF] at h
      generalize hfound : (found, s') = answer at h
      cases called_of_callTerm (fun name arity _ => hk name arity) h with
      | uncallable | pruned =>
          cases hfound
          cases he'
      | @equality a b r _ hab hr hrest =>
          subst hfound
          obtain ⟨e₁, he₁, s₁, part, s₂, hrun, hpart⟩ := mem_gather hrest he'
          rw [Option.mem_toList] at he₁
          obtain rfl : r = some e₁ := he₁
          exact .equality hab hr (ih hgoals.tail hrun hpart)
      | @tried name arity s₁ _ hf hnone hdepth _ htried =>
          subst hfound
          obtain ⟨c, hc, s₂, part, s₃, hrun, hpart⟩ := mem_gather htried he'
          obtain ⟨r, hr, htry⟩ := tryClause_eq_ok hrun
          cases r with
          | none =>
              -- a clause whose head clashes gives no solution
              cases htry
              cases hpart
          | some e₁ =>
              have hbody := hp c (mem_clausesOf.1 hc).1
              exact .clause hf hnone hdepth hc hr (ih (hgoals.tail.body hbody) htry hpart)

/-- **The way to a solution only binds names that are free.** -/
theorem Answers.le {goals : List Pending} (h : Answers k goals e e') : e ≤ e' := by
  induction h with
  | done => exact Bindings.le_refl _
  | equality _ hr _ ih => exact Bindings.le_trans ((solves_of_unifyF hr).le rfl) ih
  | clause _ _ _ _ hr _ ih => exact Bindings.le_trans ((solves_of_unifyF hr).le rfl) ih

/-! ### Ways are derivations -/

/-- A term that is called stands for the end of its walk. -/
theorem settles_of_functor? {t : Term} {f : String × Nat} (h : (e.walk t).functor? = some f) :
    e.Settles t (e.walk t) := by
  refine Bindings.settles_walk (Bindings.isBound_of_isVar ?_)
  cases hw : e.walk t <;> first | rfl | simp [hw, Term.functor?] at h

/-- What a call uses has the parts of the call and of the program. -/
theorem walk_everywhere {P : Term → Prop} {t : Term} {f : String × Nat}
    (h : (e.walk t).functor? = some f) (he : e.Everywhere P) (ht : t.Everywhere P) :
    (e.walk t).Everywhere P := (settles_of_functor? h).everywhere he ht

section Steps

variable {e₁ : Bindings} {t : Term} (hN : Exact ν N) (ht : t.Everywhere (InRange N))
  (he : e.Everywhere (InRange N)) (hle : e₁ ≤ e') (hθ : e'.SatisfiedBy ν θ)
include hN ht he hle hθ

/-- **An equation whose sides were unified is derivable**, whatever is bound later. -/
theorem derivable_of_equality {a b : Term} (hab : e.walk t = .compound "=" [a, b])
    (hr : unify a b e = .ok (some e₁)) :
    e₁.Everywhere (InRange N) ∧ ∀ p U h, Derivable ν p U h (t.inst θ) := by
  have hf : (e.walk t).functor? = some ("=", 2) := by
    rw [hab]
    rfl
  have hsettles := settles_of_functor? hf
  have hcall := walk_everywhere hf he ht
  rw [hab] at hsettles hcall
  have hsides : EquationsIn (Term.Everywhere (InRange N)) [(a, b)] := by
    simpa using (everywhere_compound.1 hcall).2
  have hsolves := solves_of_unifyF hr
  have hequal : Equal ν (a.inst θ) (b.inst θ) :=
    hsolves.values hN rfl hsides he (hθ.of_le hle) (a, b) (by simp)
  have hvalue : t.value ν θ = (Term.compound "=" [a, b]).value ν θ :=
    (hθ.of_le (Bindings.le_trans (hsolves.le rfl) hle)).settles hsettles
  refine ⟨hsolves.everywhere rfl stable_inRange hsides he, fun p U h => ?_⟩
  have hequation : Derivable ν p U h (.compound "=" [a.inst θ, b.inst θ]) := .equality hequal
  exact hequation.congr hvalue.symm

/-- **A call that was unified with the head of a clause is derived by an instance of it**: the one
that the assignment gives to the names of the trial. -/
theorem derives_of_clause {f : String × Nat} {c : Clause} {n : Nat} {p : Program} {h : Nat}
    (hf : (e.walk t).functor? = some f) (hhead : c.head.Everywhere (InRange N))
    (hr : unify (e.walk t) (c.rename n).head e = .ok (some e₁)) (hU : ∀ x, U (θ x)) :
    e₁.Everywhere (InRange N) ∧
      ((∀ u, .call u ∈ c.body → Derivable ν p U h ((u.rename n).inst θ)) →
        c.Derives ν p U (fun x => θ (renamed n x)) h (t.inst θ)) := by
  have hsides : EquationsIn (Term.Everywhere (InRange N)) [(e.walk t, (c.rename n).head)] := by
    simpa using ⟨walk_everywhere hf he ht, hhead.inRange_rename n⟩
  have hsolves := solves_of_unifyF hr
  have hsat := hθ.of_le (Bindings.le_trans (hsolves.le rfl) hle)
  refine ⟨hsolves.everywhere rfl stable_inRange hsides he, fun hbody =>
    ⟨fun x => hU _, ?_, fun u hu => inst_rename n u ▸ hbody u hu⟩⟩
  calc t.value ν θ = (e.walk t).value ν θ := hsat.settles (settles_of_functor? hf)
    _ = (c.rename n).head.value ν θ :=
        hsolves.values hN rfl hsides he (hθ.of_le hle) _ List.mem_cons_self
    _ = c.head.value ν fun x => θ (renamed n x) := value_rename n c.head

end Steps

/-- **Pending goals are derivable, within the depth that is left.**  The numbers of the program and
of the goals are in a range on which the tolerance is exact. -/
theorem Answers.derivable (hN : Exact ν N) (heq : k.builtins.find? "=" 2 ≠ none)
    (hp : ∀ u, k.program.Mentions u → u.InRange N) {goals : List Pending}
    (h : Answers k goals e e') (hgoals : PendingIn (InRange N) goals)
    (he : e.Everywhere (InRange N)) (hU : ∀ x, U (θ x)) (hθ : e'.SatisfiedBy ν θ) :
    ∀ t depth, ⟨.call t, depth⟩ ∈ goals →
      Derivable ν k.program U (k.maxDepth - depth) (t.inst θ) := by
  induction h with
  | done => simp
  | @equality t a b depth rest e e₁ e' hab hr h ih =>
      have ht := hgoals t depth List.mem_cons_self
      obtain ⟨he₁, hderivable⟩ := derivable_of_equality hN ht he h.le hθ hab hr
      intro u d hu
      rcases List.mem_cons.1 hu with hu | hu
      · cases hu
        exact hderivable _ _ _
      · exact ih hgoals.tail he₁ hθ u d hu
  | @clause t depth n rest e e₁ e' c name arity hf hnone hdepth hc hr h ih =>
      obtain ⟨hc, hhead⟩ := mem_clausesOf.1 hc
      have ht := hgoals t depth List.mem_cons_self
      obtain ⟨he₁, hderives⟩ :=
        derives_of_clause hN ht he h.le hθ hf (Program.everywhere_head hp hc) hr hU
      have hbody : PendingIn (InRange N) (pendingAt (depth + 1) (c.rename n).body ++ rest) :=
        hgoals.tail.body fun u hu => (Program.everywhere_body hp hc hu).inRange_rename n
      have hleft := ih hbody he₁ hθ
      intro u d hu
      rcases List.mem_cons.1 hu with hu | hu
      · -- the height of the call is one more than what is left for the body
        cases hu
        have hne : (name, arity) ≠ ("=", 2) := by
          rintro hname
          cases hname
          exact heq hnone
        have hcall : c.Derives ν k.program U _ (k.maxDepth - (depth + 1)) (t.inst θ) :=
          hderives fun v hv => hleft _ _ <| List.mem_append_left rest
            (mem_pendingAt.2 ⟨call_mem_renameBody.2 ⟨v, hv, rfl⟩, rfl⟩)
        have hheight : k.maxDepth - (depth + 1) + 1 = k.maxDepth - depth := by omega
        exact hheight ▸ hcall.derivable hc hhead hne
      · exact hleft u d (List.mem_append_right _ hu)

/-- **Resolution is sound for programs without a negation.**  Let a search use no builtin but
unification, and let the tolerance be exact on the numbers of the program and of the goals.  Then
every assignment that satisfies the bindings of a solution makes all goals derivable, with clause
instances from the terms that the assignment gives and within the depth limit. -/
theorem solve_sound {goals : List Goal} {sols : List Bindings}
    (hunify : k.builtins.find? "=" 2 = some .unification) (hp : k.program.Definite)
    (hgoals : Definite goals) (hcalls : CallsOnlyUnification k goals s)
    (hN : Exact ν fun x => k.program.Mentions (.number x) ∨ CallsMention goals (.number x))
    (h : solve k goals .empty s = .ok (sols, s')) (he : e ∈ sols) (hU : ∀ x, U (θ x))
    (hθ : e.SatisfiedBy ν θ) :
    ∀ t, .call t ∈ goals → Derivable ν k.program U k.maxDepth (t.inst θ) := by
  -- the solutions are those of the guarded search, in which every builtin is unification or halts
  have h' : solve k.guarded goals .empty s = .ok (sols, s') := hcalls.trans h
  have hanswers : Answers k.guarded (pendingAt 0 goals) .empty e :=
    answers_of_solveF (permits_guarded hunify) hp (allCalls_pendingAt hgoals) h' he
  have heq : k.guarded.builtins.find? "=" 2 ≠ none := by
    simp [Knowledge.guarded, find?_only, hunify]
  let N : Float → Prop := fun x =>
    k.program.Mentions (.number x) ∨ CallsMention goals (.number x)
  have hprogram : ∀ u, k.guarded.program.Mentions u → u.InRange N := by
    rintro u hu x rfl
    exact .inl hu
  have hquery : PendingIn (InRange N) (pendingAt 0 goals) := pendingIn_pendingAt
    fun t ht u hu x hux => .inr ⟨t, ht, hux ▸ hu⟩
  exact fun t ht => hanswers.derivable hN heq hprogram hquery Bindings.everywhere_empty hU hθ t 0
    (mem_pendingAt.2 ⟨ht, rfl⟩)

/-- A goal is called through a variable, and the body of its clause is an equation.  The solution
holds within the least depth limit. -/
theorem solve_sound_calledVariable :
    let k : Knowledge :=
      ⟨⟨[⟨.compound "p" [.var "X"], [.call (.compound "=" [.var "X", .number 1])]⟩]⟩, .standard, 1,
        120⟩
    let goals : List Goal :=
      [.call (.compound "=" [.var "G", .compound "p" [.var "Y"]]), .call (.var "G")]
    let s : Progress := ⟨⟨.empty, .ofSeed 0, []⟩, 0, false⟩
    let e := ((Bindings.empty.bind "G" (.compound "p" [.var "Y"])).bind "Y"
      (.var (renamed 0 "X"))).bind (renamed 0 "X") (.number 1)
    let θ : String → Term := fun x => if x = "G" then .compound "p" [.number 1] else .number 1
    (∃ s', solve k goals .empty s = .ok ([e], s')) ∧ ∀ t, .call t ∈ goals →
      Derivable id k.program (fun t => t.isGround = true) 1 (t.inst θ) := by
  intro k goals s e θ
  have h : ∃ s', solve k goals .empty s = .ok ([e], s') := ⟨_, rfl⟩
  obtain ⟨s', hs'⟩ := h
  have hp : k.program.Definite := by simp [k, Program.Definite, Definite]
  have hgoals : Definite goals := by simp [goals, Definite]
  let P : Term → Prop := fun u => ∀ x, u = .number x → x = 1
  have hprogram : ∀ u, k.program.Mentions u → P u := Program.forall_mentions.2 (by simp [k, P])
  have hquery : ∀ u, CallsMention goals u → P u := forall_callsMention.2 (by simp [goals, P])
  have hN : Exact id fun x => k.program.Mentions (.number x) ∨ CallsMention goals (.number x) := by
    intro x y hx hy
    rw [hx.elim (hprogram _) (hquery _) x rfl, hy.elim (hprogram _) (hquery _) y rfl]
    decide +kernel
  have hU : ∀ x, (θ x).isGround = true := by
    intro x
    simp only [θ]
    split_ifs <;> rfl
  have hθ : e.SatisfiedBy id θ := .bind (.bind (.bind Bindings.satisfiedBy_empty rfl) rfl) rfl
  exact ⟨⟨s', hs'⟩, solve_sound rfl hp hgoals rfl hN hs' List.mem_cons_self hU hθ⟩

end RhythmLogic
