/-
**Termination: every search comes to an end.**

A call is replaced by the goals of a clause, of which there may be any number, and a negation starts
a search for goals that are nested no deeper than itself.  So neither the number of goals nor their
nesting gets smaller on the way.  What does is a *cost*: a call that is nested less deep than the
limit costs more than all bodies of the program together, with calls that may be nested one less,
and a negation costs more than its alternatives.  The copies of clauses for trials cost what the
clauses cost, so the cost of a row of goals can be told before the search, and without a look at
bindings and memory.

A search may still come to no answer, if a unification or a builtin that it makes comes to none.
Which ones it makes hangs on the answers on the way, and so the searches that a search makes are a
relation between *stages*: goals with the bindings and the progress that it comes to them with.
This relation is the recursion of the search.  It is well founded, since the cost gets smaller, and
a search answers exactly if nothing halts at the stages that it comes to.

Main definitions:

* `Goal.cost`, `Knowledge.callCost`, `Knowledge.pendingCost` — **the cost** of goals;
* `Stage`, `Knowledge.Opens` — **the recursion of the search**: the searches that a search makes;
* `Knowledge.Halts`, `Knowledge.Returns` — a unification or a builtin that a search makes comes to
  no answer, and none does.

Main results:

* `Knowledge.Opens.cost_lt` — a search is made for goals that cost less;
* `solveF_answers_of_opens` — a search answers if what it makes does;
* `solveF_answers`, `returns_of_answers` — a search with more fuel than the cost answers if nothing
  halts, and only then;
* `solve_terminates` — **the recursion is well founded, and searches come to an end**.
-/

import RhythmLogic.CommandLine.Mixer
import RhythmLogic.Proofs.Goals
import RhythmLogic.Proofs.Refinement
import Mathlib.Logic.Relation

set_option autoImplicit false

namespace RhythmLogic

open Relation (ReflTransGen)

variable {k : Knowledge} {w n depth fuel : Nat} {goals rest : List Pending} {e : Bindings}
  {s s₁ : Progress}

/-! ### Cost -/

namespace Goal

mutual

/-- **The cost of a goal**, where a call costs `w`. -/
def cost (w : Nat) : Goal → Nat
  | call _ => w
  | negation alternatives => 1 + alternativesCost w alternatives

/-- The cost of several goals. -/
def bodyCost (w : Nat) : List Goal → Nat
  | [] => 0
  | g :: gs => cost w g + bodyCost w gs

/-- The cost of several bodies. -/
def alternativesCost (w : Nat) : List (List Goal) → Nat
  | [] => 0
  | b :: bs => bodyCost w b + alternativesCost w bs

end

theorem bodyCost_map_congr {h : Goal → Goal} {goals : List Goal}
    (hh : ∀ g ∈ goals, (h g).cost w = g.cost w) : bodyCost w (goals.map h) = bodyCost w goals := by
  induction goals with
  | nil => rfl
  | cons g goals ih =>
      obtain ⟨hg, hgoals⟩ := List.forall_mem_cons.1 hh
      rw [List.map_cons, bodyCost, bodyCost, hg, ih hgoals]

theorem alternativesCost_map_congr {h : List Goal → List Goal} {alternatives : List (List Goal)}
    (hh : ∀ b ∈ alternatives, bodyCost w (h b) = bodyCost w b) :
    alternativesCost w (alternatives.map h) = alternativesCost w alternatives := by
  induction alternatives with
  | nil => rfl
  | cons b bs ih =>
      obtain ⟨hb, hbs⟩ := List.forall_mem_cons.1 hh
      rw [List.map_cons, alternativesCost, alternativesCost, hb, ih hbs]

/-- **A copy for a trial costs what the goal costs.** -/
theorem cost_rename (w n : Nat) (g : Goal) : (g.rename n).cost w = g.cost w := by
  induction g with
  | call t => rfl
  | negation alternatives ih =>
      rw [rename, renameAlternatives_eq_map, cost, cost,
        alternativesCost_map_congr fun b hb => bodyCost_map_congr (ih b hb)]

theorem bodyCost_rename (w n : Nat) (c : Clause) :
    bodyCost w (c.rename n).body = bodyCost w c.body := by
  rw [Clause.rename, renameBody_eq_map, bodyCost_map_congr fun g _ => cost_rename w n g]

/-- A goal of a call that costs something costs something. -/
theorem cost_pos (hw : 0 < w) (g : Goal) : 0 < g.cost w := by
  cases g with
  | call t => exact hw
  | negation alternatives => exact Nat.add_pos_left Nat.one_pos _

theorem bodyCost_le_of_mem {alternatives : List (List Goal)} {b : List Goal}
    (hb : b ∈ alternatives) : bodyCost w b ≤ alternativesCost w alternatives := by
  induction alternatives with
  | nil => cases hb
  | cons b' bs ih =>
      rw [alternativesCost]
      rcases List.mem_cons.1 hb with rfl | hb
      · exact Nat.le_add_right _ _
      · exact Nat.le_add_left_of_le (ih hb)

/-- An alternative costs less than the negation. -/
theorem bodyCost_lt_of_mem {alternatives : List (List Goal)} {b : List Goal}
    (hb : b ∈ alternatives) : bodyCost w b < (negation alternatives).cost w := by
  have hle := bodyCost_le_of_mem (w := w) hb
  rw [cost]
  omega

end Goal

namespace Knowledge

/-- **The cost of a call** that may be nested `room` calls deep: more than all bodies together, with
calls that may be nested one less. -/
def callCost (k : Knowledge) : Nat → Nat
  | 0 => 1
  | room + 1 => 1 + Goal.alternativesCost (k.callCost room) (k.program.clauses.map Clause.body)

/-- **The cost of pending goals.** -/
def pendingCost (k : Knowledge) : List Pending → Nat
  | [] => 0
  | g :: rest => g.goal.cost (k.callCost (k.maxDepth - g.depth)) + k.pendingCost rest

theorem callCost_pos (k : Knowledge) (room : Nat) : 0 < k.callCost room := by
  cases room with
  | zero => exact Nat.one_pos
  | succ room => exact Nat.add_pos_left Nat.one_pos _

/-- A body costs less than a call that may be nested one more. -/
theorem bodyCost_lt_callCost {c : Clause} (hc : c ∈ k.program.clauses) (room : Nat) :
    Goal.bodyCost (k.callCost room) c.body < k.callCost (room + 1) :=
  Goal.bodyCost_lt_of_mem (List.mem_map_of_mem hc)

theorem pendingCost_append (k : Knowledge) (goals rest : List Pending) :
    k.pendingCost (goals ++ rest) = k.pendingCost goals + k.pendingCost rest := by
  induction goals with
  | nil => rw [List.nil_append, pendingCost, Nat.zero_add]
  | cons g goals ih => rw [List.cons_append, pendingCost, pendingCost, ih, Nat.add_assoc]

theorem pendingCost_pendingAt (k : Knowledge) (depth : Nat) (goals : List Goal) :
    k.pendingCost (pendingAt depth goals) =
      Goal.bodyCost (k.callCost (k.maxDepth - depth)) goals := by
  induction goals with
  | nil => rfl
  | cons g goals ih =>
      rw [pendingAt, List.map_cons, pendingCost, Goal.bodyCost]
      exact congrArg (_ + ·) ih

end Knowledge

/-! ### The searches that a search makes -/

/-- **A stage of a search**: pending goals, with the bindings and the progress that it comes to
them with. -/
structure Stage where
  goals : List Pending
  bindings : Bindings
  progress : Progress

/-- The progress after a builtin that did not halt.  A refusal is told. -/
def Builtin.Outcome.progress (o : Builtin.Outcome) (name : String) (arity : Nat) (s : Progress) :
    Progress :=
  match o.stop with
  | some (.refused error) => { s with world := o.world }.tell (.refused name arity error)
  | _ => { s with world := o.world }

/-- **At a call a clause is tried**, with the progress that the trials of the clauses before it come
to. -/
inductive Knowledge.Tries (k : Knowledge) (t : Term) (depth : Nat) (rest : List Pending)
    (e : Bindings) (s : Progress) (c : Clause) (s₁ : Progress) : Prop where
  | intro {name : String} {arity fuel : Nat} {before after : List Clause}
      {found : List Bindings} :
      (e.walk t).functor? = some (name, arity) → k.builtins.find? name arity = none →
      depth < k.maxDepth → k.program.clausesOf name arity = before ++ c :: after →
      gather (tryClause (solveF k fuel) (e.walk t) depth rest e) before s = .ok (found, s₁) →
      k.Tries t depth rest e s c s₁

/-- **The recursion of the search**: the searches that a search makes itself. -/
inductive Knowledge.Opens (k : Knowledge) : Stage → Stage → Prop where
  /-- An alternative of a negation, after those before it were found to have no solution. -/
  | alternative {fuel depth : Nat} {before after : List (List Goal)} {b : List Goal}
      {rest : List Pending} {e : Bindings} {s s₁ : Progress} :
      anyProof (fun b => solveF k fuel (pendingAt depth b) e) before s = .ok (false, s₁) →
      k.Opens ⟨⟨.negation (before ++ b :: after), depth⟩ :: rest, e, s⟩ ⟨pendingAt depth b, e, s₁⟩
  /-- The goals that are left, after a negation whose alternatives have no solution. -/
  | refuted {fuel depth : Nat} {alternatives : List (List Goal)} {rest : List Pending}
      {e : Bindings} {s s₁ : Progress} :
      anyProof (fun b => solveF k fuel (pendingAt depth b) e) alternatives s = .ok (false, s₁) →
      k.Opens ⟨⟨.negation alternatives, depth⟩ :: rest, e, s⟩ ⟨rest, e, s₁⟩
  /-- The goals that are left, from a solution of a builtin. -/
  | solution {name : String} {arity fuel depth : Nat} {b : Builtin} {t : Term}
      {rest : List Pending} {before after found : List Bindings} {e e₁ : Bindings}
      {s s₁ : Progress} :
      (e.walk t).functor? = some (name, arity) → k.builtins.find? name arity = some b →
      (b.call k.bpm (e.walk t).args e s.world).solutions = before ++ e₁ :: after →
      gather (solveF k fuel rest) before
        ((b.call k.bpm (e.walk t).args e s.world).progress name (e.walk t).args.length s) =
          .ok (found, s₁) →
      k.Opens ⟨⟨.call t, depth⟩ :: rest, e, s⟩ ⟨rest, e₁, s₁⟩
  /-- The body of a clause, with the goals that are left. -/
  | body {depth : Nat} {t : Term} {rest : List Pending} {c : Clause} {e e₁ : Bindings}
      {s s₁ : Progress} :
      k.Tries t depth rest e s c s₁ → unify (e.walk t) (c.rename s₁.fresh).head e = .ok (some e₁) →
      k.Opens ⟨⟨.call t, depth⟩ :: rest, e, s⟩
        ⟨pendingAt (depth + 1) (c.rename s₁.fresh).body ++ rest, e₁,
          { s₁ with fresh := s₁.fresh + 1 }⟩

/-- **A builtin or a unification that a search makes itself comes to no answer.** -/
inductive Knowledge.Halts (k : Knowledge) : Stage → Halt → Prop where
  | builtin {name : String} {arity depth : Nat} {b : Builtin} {t : Term} {rest : List Pending}
      {e : Bindings} {s : Progress} {cause : Halt} :
      (e.walk t).functor? = some (name, arity) → k.builtins.find? name arity = some b →
      (b.call k.bpm (e.walk t).args e s.world).stop = some (.halted cause) →
      k.Halts ⟨⟨.call t, depth⟩ :: rest, e, s⟩ cause
  | unification {depth : Nat} {t : Term} {rest : List Pending} {c : Clause} {e : Bindings}
      {s s₁ : Progress} {cause : Halt} :
      k.Tries t depth rest e s c s₁ → unify (e.walk t) (c.rename s₁.fresh).head e = .error cause →
      k.Halts ⟨⟨.call t, depth⟩ :: rest, e, s⟩ cause

/-- **Every builtin and every unification that a search makes returns**, at all stages that it comes
to. -/
def Knowledge.Returns (k : Knowledge) (a : Stage) : Prop :=
  ∀ b, ReflTransGen k.Opens a b → ∀ cause, ¬ k.Halts b cause

theorem Knowledge.Returns.opens {a b : Stage} (h : k.Returns a) (hab : k.Opens a b) :
    k.Returns b :=
  fun c hbc => h c (.head hab hbc)

/-! ### The cost gets smaller -/

/-- **A search is made for goals that cost less.** -/
theorem Knowledge.Opens.cost_lt {a b : Stage} (h : k.Opens a b) :
    k.pendingCost b.goals < k.pendingCost a.goals := by
  have hpos : ∀ (g : Goal) (depth : Nat), 0 < g.cost (k.callCost (k.maxDepth - depth)) :=
    fun g _ => g.cost_pos (k.callCost_pos _)
  cases h with
  | @alternative fuel depth before after b rest =>
      have hlt := Goal.bodyCost_lt_of_mem (w := k.callCost (k.maxDepth - depth))
        (List.mem_append_right before (List.mem_cons_self (a := b) (l := after)))
      simp only [pendingCost, pendingCost_pendingAt]
      omega
  | @refuted fuel depth alternatives =>
      have := hpos (.negation alternatives) depth
      simp only [pendingCost]
      omega
  | @solution name arity fuel depth b t =>
      have := hpos (.call t) depth
      simp only [pendingCost]
      omega
  | @body depth t rest c e e₁ s s₁ htries hu =>
      obtain ⟨-, -, hdepth, hclauses, -⟩ := htries
      have hc : c ∈ k.program.clauses :=
        List.mem_of_mem_filter (hclauses ▸ List.mem_append_right _ List.mem_cons_self)
      have hlt := bodyCost_lt_callCost hc (k.maxDepth - (depth + 1))
      have hroom : k.maxDepth - (depth + 1) + 1 = k.maxDepth - depth := by omega
      rw [hroom] at hlt
      simp only [pendingCost, pendingCost_append, pendingCost_pendingAt, Goal.bodyCost_rename,
        Goal.cost]
      omega

/-- **The recursion of the search is well founded.** -/
theorem wellFounded_opens (k : Knowledge) : WellFounded fun b a => k.Opens a b :=
  Subrelation.wf Knowledge.Opens.cost_lt
    (InvImage.wf (fun a : Stage => k.pendingCost a.goals) Nat.lt_wfRel.wf)

/-! ### Runs one after the other -/

section Loops

variable {α : Type} {run : α → Progress → Found} {before xs : List α} {x : α}
  {found : List Bindings}

/-- Runs answer one after the other, if each does from where the runs before it come to. -/
theorem gather_answers (h : ∀ before x after found s₁, xs = before ++ x :: after →
      gather run before s = .ok (found, s₁) → ∃ r, run x s₁ = .ok r) :
    ∃ r, gather run xs s = .ok r := by
  induction xs generalizing s with
  | nil => exact ⟨_, rfl⟩
  | cons x xs ih =>
      obtain ⟨⟨part, s₁⟩, hx⟩ := h [] x xs [] s rfl rfl
      have hxs : ∃ r, gather run xs s₁ = .ok r := by
        refine ih fun before y after found s₂ heq hbefore => ?_
        exact h (x :: before) y after (part ++ found) s₂ (congrArg (x :: ·) heq)
          (gather_cons.2 ⟨part, s₁, found, hx, hbefore, rfl⟩)
      obtain ⟨⟨more, s₂⟩, hmore⟩ := hxs
      exact ⟨_, gather_cons.2 ⟨part, s₁, more, hx, hmore, rfl⟩⟩

theorem anyProof_answers (h : ∀ before x after s₁, xs = before ++ x :: after →
      anyProof run before s = .ok (false, s₁) → ∃ r, run x s₁ = .ok r) :
    ∃ r, anyProof run xs s = .ok r := by
  induction xs generalizing s with
  | nil => exact ⟨_, rfl⟩
  | cons x xs ih =>
      obtain ⟨⟨part, s₁⟩, hx⟩ := h [] x xs s rfl rfl
      simp only [anyProof, hx]
      split
      · next hempty =>
          refine ih fun before y after s₂ heq hbefore => ?_
          refine h (x :: before) y after s₂ (congrArg (x :: ·) heq) ?_
          simp only [anyProof, hx, if_pos hempty, hbefore]
      · exact ⟨_, rfl⟩

/-- Runs that answer one after the other answer each. -/
theorem gather_answers_of_mid {after : List α}
    (h : ∃ r, gather run (before ++ x :: after) s = .ok r)
    (hbefore : gather run before s = .ok (found, s₁)) : ∃ r, run x s₁ = .ok r := by
  obtain ⟨⟨all, s'⟩, h⟩ := h
  induction before generalizing s found all with
  | nil =>
      cases hbefore
      obtain ⟨part, s₂, -, hx, -⟩ := gather_cons.1 h
      exact ⟨_, hx⟩
  | cons y before ih =>
      obtain ⟨part, s₂, more, hy, hmore, -⟩ := gather_cons.1 hbefore
      obtain ⟨part', s₂', more', hy', hmore', -⟩ := gather_cons.1 h
      rw [hy] at hy'
      cases hy'
      exact ih hmore _ hmore'

theorem anyProof_answers_of_mid {after : List α}
    (h : ∃ r, anyProof run (before ++ x :: after) s = .ok r)
    (hbefore : anyProof run before s = .ok (false, s₁)) : ∃ r, run x s₁ = .ok r := by
  induction before generalizing s with
  | nil =>
      cases hbefore
      obtain ⟨r, h⟩ := h
      simp only [List.nil_append, anyProof] at h
      split at h
      · cases h
      · next found s₂ hx => exact ⟨_, hx⟩
  | cons y before ih =>
      simp only [List.cons_append, anyProof] at h hbefore
      split at hbefore
      · cases hbefore
      next found s₂ hy =>
      simp only [hy] at h
      split at hbefore
      · next hempty =>
          rw [if_pos hempty] at h
          exact ih h hbefore
      · cases hbefore

end Loops

/-! ### Searches answer -/

/-- The search at a stage, with some fuel, comes to an answer. -/
def Knowledge.Answers (k : Knowledge) (fuel : Nat) (a : Stage) : Prop :=
  ∃ r, solveF k fuel a.goals a.bindings a.progress = .ok r

theorem Knowledge.Answers.mono {a : Stage} (h : k.Answers fuel a) {m : Nat} (hle : fuel ≤ m) :
    k.Answers m a :=
  h.imp fun r hr => solveF_refines (Restricts.refl k) hle _ _ _ r hr

/-- A search that answers makes one more step with any fuel. -/
theorem Knowledge.Answers.succ_max {a : Stage} (h : k.Answers fuel a) (m : Nat) :
    k.Answers (max fuel m + 1) a :=
  h.mono (Nat.le_succ_of_le (Nat.le_max_left fuel m))

/-- After a builtin that does not halt, the search goes on from its solutions. -/
theorem callBuiltin_of_not_halted {run : List Pending → Bindings → Progress → Found} {b : Builtin}
    {bpm : Float} {args : List Term} (name : String)
    (h : ∀ cause, (b.call bpm args e s.world).stop ≠ some (.halted cause)) :
    callBuiltin run b bpm name args rest e s =
      gather (run rest) (b.call bpm args e s.world).solutions
        ((b.call bpm args e s.world).progress name args.length s) := by
  simp only [callBuiltin, Builtin.Outcome.progress]
  generalize b.call bpm args e s.world = o at h
  obtain ⟨solutions, world, _ | (error | cause)⟩ := o
  · rfl
  · rfl
  · exact absurd rfl (h cause)

/-- A call answers, if what it goes on to answers and nothing halts. -/
theorem callTerm_answers {t : Term}
    (hopens : ∀ b, k.Opens ⟨⟨.call t, depth⟩ :: rest, e, s⟩ b → k.Answers fuel b)
    (hhalts : ∀ cause, ¬ k.Halts ⟨⟨.call t, depth⟩ :: rest, e, s⟩ cause) :
    ∃ r, callTerm k (solveF k fuel) t depth rest e s = .ok r := by
  simp only [callTerm]
  rcases hf : (e.walk t).functor? with _ | ⟨name, arity⟩
  · exact ⟨_, rfl⟩
  rcases hb : k.builtins.find? name arity with _ | b
  · simp only [hb]
    by_cases hdepth : k.maxDepth ≤ depth
    · exact ⟨_, if_pos hdepth⟩
    rw [if_neg hdepth]
    refine gather_answers fun before c after found s₁ hclauses hbefore => ?_
    -- there is a clause, so that nothing is told of its predicate
    rw [hclauses, if_neg (by simp)] at hbefore
    have htries : k.Tries t depth rest e s c s₁ :=
      .intro hf hb (Nat.lt_of_not_le hdepth) hclauses hbefore
    simp only [tryClause]
    rcases hu : unify (e.walk t) (c.rename s₁.fresh).head e with cause | _ | e₁
    · exact absurd (.unification htries hu) (hhalts cause)
    · exact ⟨_, rfl⟩
    · exact hopens _ (.body htries hu)
  · simp only [hb]
    rw [callBuiltin_of_not_halted name fun cause hstop => hhalts cause (.builtin hf hb hstop)]
    exact gather_answers fun before e₁ after found s₁ hsolutions hbefore =>
      hopens _ (.solution hf hb hsolutions hbefore)

/-- **A search answers, if the searches that it makes answer and nothing halts.** -/
theorem solveF_answers_of_opens {a : Stage} (hopens : ∀ b, k.Opens a b → k.Answers fuel b)
    (hhalts : ∀ cause, ¬ k.Halts a cause) : k.Answers (fuel + 1) a := by
  obtain ⟨goals, e, s⟩ := a
  rcases goals with _ | ⟨⟨t | alternatives, depth⟩, rest⟩ <;> simp only [Knowledge.Answers, solveF]
  · exact ⟨_, rfl⟩
  · exact callTerm_answers hopens hhalts
  · obtain ⟨⟨v, s₁⟩, hany⟩ : ∃ r,
        anyProof (fun b => solveF k fuel (pendingAt depth b) e) alternatives s = .ok r := by
      refine anyProof_answers fun before b after s₁ halternatives hbefore => ?_
      subst halternatives
      exact hopens _ (.alternative hbefore)
    cases v with
    | true =>
        simp only [hany]
        exact ⟨_, rfl⟩
    | false =>
        simp only [hany]
        exact hopens _ (.refuted hany)

/-- **A search with more fuel than the cost answers**, if all that it makes returns. -/
theorem solveF_answers {a : Stage} (hcost : k.pendingCost a.goals < fuel) (h : k.Returns a) :
    k.Answers fuel a := by
  induction fuel generalizing a with
  | zero => omega
  | succ fuel ih =>
      refine solveF_answers_of_opens (fun b hab => ih ?_ (h.opens hab)) (h a .refl)
      exact Nat.lt_of_lt_of_le hab.cost_lt (Nat.le_of_lt_succ hcost)

/-! ### What answers, returns -/

/-- In a search that answers, the clauses that are tried answer. -/
theorem tryClause_answers {t : Term} {c : Clause}
    (h : k.Answers fuel ⟨⟨.call t, depth⟩ :: rest, e, s⟩) (htries : k.Tries t depth rest e s c s₁) :
    ∃ m r, tryClause (solveF k m) (e.walk t) depth rest e c s₁ = .ok r := by
  obtain @⟨name, arity, fuel', before, after, found, hf, hb, hdepth, hclauses, hbefore⟩ := htries
  have hmore := h.succ_max fuel'
  have hmid := gather_refines (fun c _ => tryClause_refines (solveF_refines (Restricts.refl k)
    (Nat.le_max_right fuel fuel')) (e.walk t) depth rest e c) s _ hbefore
  simp only [Knowledge.Answers, solveF, callTerm, hf, hb, if_neg (Nat.not_le_of_lt hdepth),
    hclauses] at hmore
  rw [if_neg (by simp)] at hmore
  exact ⟨_, gather_answers_of_mid hmore hmid⟩

/-- What a search that answers makes does not halt. -/
theorem not_halts_of_answers {a : Stage} (h : k.Answers fuel a) (cause : Halt) :
    ¬ k.Halts a cause := by
  rintro (⟨hf, hb, hstop⟩ | ⟨htries, hu⟩)
  · cases fuel with
    | zero =>
        obtain ⟨r, h⟩ := h
        cases h
    | succ fuel =>
        obtain ⟨r, h⟩ := h
        simp only [solveF, callTerm, hf, hb, callBuiltin, hstop] at h
        cases h
  · obtain ⟨m, r, hr⟩ := tryClause_answers h htries
    simp only [tryClause, hu] at hr
    cases hr

/-- **A search that answers makes searches that answer.** -/
theorem answers_of_opens {a b : Stage} (h : k.Answers fuel a) (hab : k.Opens a b) :
    ∃ m, k.Answers m b := by
  cases hab with
  | @alternative fuel' depth before after b rest e s s₁ hbefore =>
      have hmore := h.succ_max fuel'
      have hmid := anyProof_refines (fun b => solveF_refines (Restricts.refl k)
        (Nat.le_max_right fuel fuel') (pendingAt depth b) e) hbefore
      have hany : ∃ r, anyProof (fun b => solveF k (max fuel fuel') (pendingAt depth b) e)
          (before ++ b :: after) s = .ok r := by
        obtain ⟨r, hr⟩ := hmore
        simp only [solveF] at hr
        split at hr
        · cases hr
        all_goals exact ⟨_, ‹_›⟩
      obtain ⟨r, hr⟩ := anyProof_answers_of_mid hany hmid
      exact ⟨max fuel fuel', r, hr⟩
  | @refuted fuel' depth alternatives rest e s s₁ hrefuted =>
      have hmore := h.succ_max fuel'
      have hany := anyProof_refines (fun b => solveF_refines (Restricts.refl k)
        (Nat.le_max_right fuel fuel') (pendingAt depth b) e) hrefuted
      simp only [Knowledge.Answers, solveF, hany] at hmore
      exact ⟨_, hmore⟩
  | @solution name arity fuel' depth b t rest before after found e e₁ s s₁ hf hb hsolutions
      hbefore =>
      have hnot := not_halts_of_answers h
      have hmore := h.succ_max fuel'
      have hmid := gather_refines (fun e _ => solveF_refines (Restricts.refl k)
        (Nat.le_max_right fuel fuel') rest e) _ _ hbefore
      simp only [Knowledge.Answers, solveF, callTerm, hf, hb] at hmore
      rw [callBuiltin_of_not_halted name fun cause hstop => hnot cause (.builtin hf hb hstop),
        hsolutions] at hmore
      exact ⟨_, gather_answers_of_mid hmore hmid⟩
  | @body depth t rest c e e₁ s s₁ htries hu =>
      obtain ⟨m, r, hr⟩ := tryClause_answers h htries
      simp only [tryClause, hu] at hr
      exact ⟨m, r, hr⟩

/-- **In a search that answers all that it makes returns.** -/
theorem returns_of_answers {a : Stage} (h : k.Answers fuel a) : k.Returns a := by
  intro b hab
  have hanswers : ∃ m, k.Answers m b := by
    induction hab with
    | refl => exact ⟨fuel, h⟩
    | tail _ hbc ih =>
        obtain ⟨m, hb⟩ := ih
        exact answers_of_opens hb hbc
  obtain ⟨m, hb⟩ := hanswers
  exact not_halts_of_answers hb

/-! ### Searches come to an end -/

/-- The stage at which a search for goals starts. -/
def Stage.start (goals : List Goal) (e : Bindings) (s : Progress) : Stage :=
  ⟨pendingAt 0 goals, e, { s with warned := false }⟩

/-- **The cost of a search** for goals.  It is the same from all bindings and all progress. -/
def Knowledge.searchCost (k : Knowledge) (goals : List Goal) : Nat :=
  k.pendingCost (pendingAt 0 goals)

/-- **Searches come to an end.**  Whatever the program, the builtins and the depth limit are, the
recursion of the search is well founded.  If every unification and every builtin that the search for
some goals makes returns, then the search comes to an answer, which is a row of solutions, and it is
the same with all fuel that is more than the cost of the goals; in particular with the budget of a
search, where that is more. -/
theorem solve_terminates (k : Knowledge) :
    (WellFounded fun b a => k.Opens a b) ∧
      ∀ (goals : List Goal) (e : Bindings) (s : Progress), k.Returns (.start goals e s) →
        ∃ found s',
          (∀ fuel, k.searchCost goals < fuel →
            solveF k fuel (pendingAt 0 goals) e { s with warned := false } = .ok (found, s')) ∧
          (k.searchCost goals < searchBudget → solve k goals e s = .ok (found, s')) := by
  refine ⟨wellFounded_opens k, fun goals e s h => ?_⟩
  obtain ⟨⟨found, s'⟩, hrun⟩ := solveF_answers (Nat.lt_succ_self (k.searchCost goals)) h
  have hmore : ∀ fuel, k.searchCost goals < fuel →
      solveF k fuel (pendingAt 0 goals) e { s with warned := false } = .ok (found, s') :=
    fun fuel hfuel => solveF_refines (Restricts.refl k) hfuel _ e _ _ hrun
  exact ⟨found, s', hmore, hmore searchBudget⟩

/-- A program in which a predicate calls itself first, two call each other through a negation, and
one calls what its variable stands for. -/
theorem solve_terminates_leftRecursive :
    let k : Knowledge :=
      ⟨⟨[⟨.compound "p" [.var "X"], [.call (.compound "p" [.var "X"])]⟩,
          ⟨.compound "p" [.atom "a"], []⟩,
          ⟨.compound "q" [.var "X"], [.negation [[.call (.compound "r" [.var "X"])]]]⟩,
          ⟨.compound "r" [.var "X"], [.negation [[.call (.compound "q" [.var "X"])]]]⟩,
          ⟨.compound "do" [.var "G"], [.call (.var "G")]⟩]⟩, .standard, 3, 120⟩
    let goals : List Goal :=
      [.call (.compound "do" [.compound "p" [.var "U"]]), .call (.compound "q" [.var "U"]),
        .negation [[.negation [[.call (.compound "=" [.var "U", .atom "a"])]]]]]
    let s : Progress := ⟨⟨.empty, .ofSeed 0, []⟩, 0, false⟩
    k.Returns (.start goals .empty s) ∧ k.searchCost goals < searchBudget ∧
      ∃ found s', found.length = 2 ∧ solve k goals .empty s = .ok (found, s') := by
  intro k goals s
  have hcount : (solveF k 512 (pendingAt 0 goals) .empty s).toOption.map
      (fun r => r.1.length) = some 2 := by
    decide +kernel
  obtain ⟨⟨found, s'⟩, hrun, hlength⟩ := exists_ok hcount
  have hreturns : k.Returns (.start goals .empty s) := returns_of_answers ⟨_, hrun⟩
  have hcost : k.searchCost goals < 512 := by decide +kernel
  obtain ⟨-, hanswers⟩ := solve_terminates k
  obtain ⟨found', s₁, hmore, hsolve⟩ := hanswers goals .empty s hreturns
  have hbudget : k.searchCost goals < searchBudget := Nat.lt_trans hcost (by decide)
  have hsame := (hmore 512 hcost).symm.trans hrun
  cases hsame
  exact ⟨hreturns, hbudget, found, s', hlength, hsolve hbudget⟩

end RhythmLogic
