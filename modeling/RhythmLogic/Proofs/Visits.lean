/-
**The calls that a search comes to, and a counter on its way.**

What a search finds does not show which calls it came to: a call may have no solution, and may be
made once more for each solution of the goals before it.  So the calls are listed here, in the order
in which the search comes to them, each with the progress that it is made with.

The only calls that move a counter are the cycles through lists whose text is the key.  If these all
have one length then the counter stands, at each call and in the end, as many places on as there
were such cycles before; in the end it shows that no cycle was left out of the list.  This is one
induction over the search, with one lemma for each way in which runs are put together.

Main definitions:

* `visitsF` — **the calls that a search comes to**, in order;
* `Stage.cycled?`, `Stage.turns` — the list of a cycle that is called, and whether it has a key as
  its text;
* `OneLength` — the cycles under a key have one length;
* `Counts` — **a run moves a counter by the turns on its way**.

Main results:

* `visitsOf_counts` — runs that are made one after the other;
* `solveF_counts` — **a search moves a counter by the turns on its way**.
-/

import Mathlib.Data.Nat.ModEq
import RhythmLogic.Proofs.Counters
import RhythmLogic.Proofs.Termination

set_option autoImplicit false

namespace RhythmLogic

/-! ### The calls of a search -/

/-- The calls that runs come to, one run after the other, until one of them finds enough. -/
def visitsOf {α : Type} (enough : List Bindings → Bool) (run : α → Progress → Found)
    (visits : α → Progress → List Stage) : List α → Progress → List Stage
  | [], _ => []
  | x :: rest, s =>
      visits x s ++
        match run x s with
        | .error _ => []
        | .ok (found, s) => if enough found then [] else visitsOf enough run visits rest s

/-- One of the runs comes to it. -/
theorem mem_visitsOf {α : Type} {enough : List Bindings → Bool} {run : α → Progress → Found}
    {visits : α → Progress → List Stage} {xs : List α} {s : Progress} {a : Stage}
    (h : a ∈ visitsOf enough run visits xs s) : ∃ x ∈ xs, ∃ s₁, a ∈ visits x s₁ := by
  induction xs generalizing s with
  | nil => cases h
  | cons x xs ih =>
      rw [visitsOf, List.mem_append] at h
      obtain hx | hlater := h
      · exact ⟨x, List.mem_cons_self, s, hx⟩
      · split at hlater
        · cases hlater
        · split at hlater
          · cases hlater
          · obtain ⟨y, hy, s₁, ha⟩ := ih hlater
            exact ⟨y, List.mem_cons_of_mem x hy, s₁, ha⟩

section Steps

variable (run : List Pending → Bindings → Progress → Found)
  (visits : List Pending → Bindings → Progress → List Stage)

/-- The calls that the trial of a clause comes to. -/
def tryVisits (call : Term) (depth : ℕ) (rest : List Pending) (e : Bindings) (c : Clause)
    (s : Progress) : List Stage :=
  let c := c.rename s.fresh
  let s := { s with fresh := s.fresh + 1 }
  match unify call c.head e with
  | .ok (some e) => visits (pendingAt (depth + 1) c.body ++ rest) e s
  | _ => []

/-- The calls after that of a builtin. -/
def builtinVisits (b : Builtin) (bpm : Float) (name : String) (args : List Term)
    (rest : List Pending) (e : Bindings) (s : Progress) : List Stage :=
  let outcome := b.call bpm args e s.world
  match outcome.stop with
  | some (.halted _) => []
  | _ => visitsOf (fun _ => false) (run rest) (visits rest) outcome.solutions
      (outcome.progress name args.length s)

/-- The calls after a call. -/
def callVisits (k : Knowledge) (t : Term) (depth : ℕ) (rest : List Pending) (e : Bindings)
    (s : Progress) : List Stage :=
  let call := e.walk t
  match call.functor? with
  | none => []
  | some (name, arity) =>
      match k.builtins.find? name arity with
      | some b => builtinVisits run visits b k.bpm name call.args rest e s
      | none =>
          if k.maxDepth ≤ depth then []
          else
            let clauses := k.program.clausesOf name arity
            let s := if clauses.isEmpty then s.tell (.undefinedCall name arity) else s
            visitsOf (fun _ => false) (tryClause run call depth rest e)
              (tryVisits visits call depth rest e) clauses s

end Steps

/-- **The calls that a search comes to**, in order, each with the progress that it is made with. -/
def visitsF (k : Knowledge) : ℕ → List Pending → Bindings → Progress → List Stage
  | 0, _, _, _ => []
  | _ + 1, [], _, _ => []
  | fuel + 1, ⟨.negation alternatives, depth⟩ :: rest, e, s =>
      visitsOf (fun found => !found.isEmpty) (fun b => solveF k fuel (pendingAt depth b) e)
          (fun b => visitsF k fuel (pendingAt depth b) e) alternatives s ++
        match anyProof (fun b => solveF k fuel (pendingAt depth b) e) alternatives s with
        | .ok (false, s) => visitsF k fuel rest e s
        | _ => []
  | fuel + 1, ⟨.call t, depth⟩ :: rest, e, s =>
      ⟨⟨.call t, depth⟩ :: rest, e, s⟩ ::
        callVisits (solveF k fuel) (visitsF k fuel) k t depth rest e s

theorem visitsF_nil (k : Knowledge) (fuel : ℕ) (e : Bindings) (s : Progress) :
    visitsF k fuel [] e s = [] := by
  cases fuel <;> rfl

/-- A builtin that is called alone comes to no other call. -/
theorem visitsF_builtin {k : Knowledge} {t : Term} {e : Bindings} {name : String} {arity : ℕ}
    {b : Builtin} (hf : (e.walk t).functor? = some (name, arity))
    (hb : k.builtins.find? name arity = some b) (fuel depth : ℕ) (s : Progress) :
    visitsF k (fuel + 1) [⟨.call t, depth⟩] e s = [⟨[⟨.call t, depth⟩], e, s⟩] := by
  have hnone : ∀ a, a ∉ builtinVisits (solveF k fuel) (visitsF k fuel) b k.bpm name
      (e.walk t).args [] e s := by
    intro a ha
    simp only [builtinVisits] at ha
    split at ha
    · cases ha
    · obtain ⟨e₁, -, s₁, hlater⟩ := mem_visitsOf ha
      rw [visitsF_nil] at hlater
      cases hlater
  simp only [visitsF, callVisits, hf, hb, List.eq_nil_iff_forall_not_mem.2 hnone]

/-! ### Turns -/

namespace Stage

/-- **The list of a cycle**, if that is what is called next. -/
def cycled? (a : Stage) : Option Term :=
  match a.goals with
  | ⟨.call t, _⟩ :: _ =>
      match a.bindings.walk t with
      | .compound name [list, _] => if name = "cycle" then some list else none
      | _ => none
  | _ => none

/-- The next call is a cycle through a list whose text is the key. -/
def turns (key : String) (a : Stage) : Bool := a.cycled?.map Term.text == some key

variable {key : String} {a : Stage}

theorem turns_iff : a.turns key = true ↔ ∃ list, a.cycled? = some list ∧ list.text = key := by
  simp only [turns, beq_iff_eq, Option.map_eq_some_iff]

theorem cycled?_call {t list : Term} {depth : ℕ} {rest : List Pending} {e : Bindings}
    {s : Progress} : (⟨⟨.call t, depth⟩ :: rest, e, s⟩ : Stage).cycled? = some list ↔
      ∃ out, e.walk t = .compound "cycle" [list, out] := by
  simp only [cycled?]
  constructor
  · intro h
    split at h
    · next name list' out hwalk =>
      split at h
      · next hname =>
        cases h
        exact ⟨out, hname ▸ hwalk⟩
      · cases h
    · cases h
  · rintro ⟨out, hwalk⟩
    rw [hwalk]
    rfl

end Stage

variable {key : String} {n c c' : ℕ} {α : Type}

/-- **The cycles under a key have one length.** -/
def OneLength (key : String) (n : ℕ) (visits : List Stage) : Prop :=
  ∀ a ∈ visits, ∀ list, a.cycled? = some list → list.text = key →
    ∃ items, a.bindings.subst list = .list items ∧ items.length = n

/-- The counter at each of some calls is as many places on as there were turns before. -/
def Along (key : String) (n : ℕ) : ℕ → List Stage → Prop
  | _, [] => True
  | c, a :: rest =>
      a.progress.world.memory.counter key ≡ c [MOD n] ∧
        Along key n (c + (a.turns key).toNat) rest

/-- **A run moves a counter by the turns on its way**, from a place on. -/
structure Counts (key : String) (n c : ℕ) (visits : List Stage)
    (r : Except Halt (α × Progress)) : Prop where
  along : Along key n c visits
  last : ∀ x s, r = .ok (x, s) →
    s.world.memory.counter key ≡ c + visits.countP (Stage.turns key) [MOD n]

theorem Along.congr {visits : List Stage} (h : Along key n c visits) (hc : c ≡ c' [MOD n]) :
    Along key n c' visits := by
  induction visits generalizing c c' with
  | nil => trivial
  | cons a rest ih => exact ⟨h.1.trans hc, ih h.2 (hc.add_right _)⟩

theorem countP_turns_cons (key : String) (a : Stage) (visits : List Stage) :
    (a :: visits).countP (Stage.turns key) =
      (a.turns key).toNat + visits.countP (Stage.turns key) := by
  cases h : a.turns key <;> simp [h, Nat.add_comm]

theorem along_append {first more : List Stage} : Along key n c (first ++ more) ↔
    Along key n c first ∧ Along key n (c + first.countP (Stage.turns key)) more := by
  induction first generalizing c with
  | nil => simp only [List.nil_append, List.countP_nil, Nat.add_zero, Along, true_and]
  | cons a first ih =>
      rw [List.cons_append, Along, Along, ih, and_assoc, countP_turns_cons, Nat.add_assoc]

namespace Counts

variable {visits first more : List Stage} {r : Except Halt (α × Progress)}

/-- A run that comes to no call. -/
theorem still {s : Progress} (x : α) (h : s.world.memory.counter key ≡ c [MOD n]) :
    Counts key n c [] (.ok (x, s)) :=
  ⟨trivial, fun _ _ heq => by cases heq; exact h⟩

theorem halted (cause : Halt) : Counts key n c [] (.error cause : Except Halt (α × Progress)) :=
  ⟨trivial, fun _ _ heq => nomatch heq⟩

/-- What it is that a run finds makes no difference, nor whether it halts after all. -/
theorem mono {β : Type} {r' : Except Halt (β × Progress)} (h : Counts key n c visits r)
    (hr : ∀ x s, r' = .ok (x, s) → ∃ y s', r = .ok (y, s') ∧
      s'.world.memory.counter key = s.world.memory.counter key) : Counts key n c visits r' := by
  refine ⟨h.along, fun x s hx => ?_⟩
  obtain ⟨y, s', hy, hcounter⟩ := hr x s hx
  exact hcounter ▸ h.last y s' hy

theorem append_halted {β : Type} {cause : Halt} (h : Counts key n c first r) :
    Counts key n c (first ++ []) (.error cause : Except Halt (β × Progress)) := by
  rw [List.append_nil]
  exact ⟨h.along, fun _ _ heq => nomatch heq⟩

/-- Another run is made, from where one comes to. -/
theorem append {β : Type} {x : β} {s : Progress}
    (hfirst : Counts key n c first (.ok (x, s) : Except Halt (β × Progress)))
    (hmore : Counts key n (s.world.memory.counter key) more r) :
    Counts key n c (first ++ more) r := by
  have hplace := hfirst.last x s rfl
  refine ⟨along_append.2 ⟨hfirst.along, hmore.along.congr hplace⟩, fun y s' hy => ?_⟩
  rw [List.countP_append, ← Nat.add_assoc]
  exact (hmore.last y s' hy).trans (hplace.add_right _)

/-- A call is made, and what comes after it. -/
theorem cons {a : Stage} (ha : a.progress.world.memory.counter key ≡ c [MOD n])
    (h : Counts key n (c + (a.turns key).toNat) visits r) : Counts key n c (a :: visits) r := by
  refine ⟨⟨ha, h.along⟩, fun x s hx => ?_⟩
  rw [countP_turns_cons, ← Nat.add_assoc]
  exact h.last x s hx

theorem congr (h : Counts key n c visits r) (hc : c ≡ c' [MOD n]) : Counts key n c' visits r :=
  ⟨h.along.congr hc, fun x s hx => (h.last x s hx).trans (hc.add_right _)⟩

end Counts

/-! ### Runs -/

section Runs

variable {β : Type} {run : β → Progress → Found} {visits : β → Progress → List Stage} {xs : List β}
  {s : Progress}

/-- **Runs that are made one after the other.** -/
theorem visitsOf_counts
    (h : ∀ x ∈ xs, ∀ s, OneLength key n (visits x s) →
      Counts key n (s.world.memory.counter key) (visits x s) (run x s))
    (hone : OneLength key n (visitsOf (fun _ => false) run visits xs s)) :
    Counts key n (s.world.memory.counter key) (visitsOf (fun _ => false) run visits xs s)
      (gather run xs s) := by
  induction xs generalizing s with
  | nil => exact .still [] rfl
  | cons x xs ih =>
      simp only [visitsOf, OneLength, List.forall_mem_append] at hone
      rw [List.forall_mem_cons] at h
      have hx := h.1 s hone.1
      rcases hrun : run x s with cause | ⟨found, s₁⟩ <;>
        simp only [hrun, Bool.false_eq_true, if_false] at hx hone <;>
        simp only [visitsOf, gather, hrun, Bool.false_eq_true, if_false]
      · exact hx.append_halted
      · refine hx.append ((ih h.2 hone.2).mono fun y s' hy => ?_)
        split at hy
        · cases hy
        · next more s₂ hmore =>
          cases hy
          exact ⟨_, _, hmore, rfl⟩

/-- **Runs that are made until one has a solution.** -/
theorem visitsOf_counts_anyProof
    (h : ∀ x ∈ xs, ∀ s, OneLength key n (visits x s) →
      Counts key n (s.world.memory.counter key) (visits x s) (run x s))
    (hone : OneLength key n (visitsOf (fun found => !found.isEmpty) run visits xs s)) :
    Counts key n (s.world.memory.counter key)
      (visitsOf (fun found => !found.isEmpty) run visits xs s) (anyProof run xs s) := by
  induction xs generalizing s with
  | nil => exact .still false rfl
  | cons x xs ih =>
      simp only [visitsOf, OneLength, List.forall_mem_append] at hone
      rw [List.forall_mem_cons] at h
      have hx := h.1 s hone.1
      rcases hrun : run x s with cause | ⟨_ | ⟨e, found⟩, s₁⟩ <;>
        simp only [hrun, List.isEmpty_nil, List.isEmpty_cons, Bool.not_true, Bool.not_false,
          Bool.false_eq_true, if_false, if_true] at hx hone <;>
        simp only [visitsOf, anyProof, hrun, List.isEmpty_nil, List.isEmpty_cons, Bool.not_true,
          Bool.not_false, Bool.false_eq_true, if_false, if_true]
      · exact hx.append_halted
      · exact hx.append (ih h.2 hone.2)
      · exact hx.append (.still true rfl)

end Runs

/-! ### Searches -/

section Search

variable {k : Knowledge} {goals rest : List Pending} {e : Bindings} {s : Progress} {t : Term}
  {depth fuel : ℕ}

theorem find?_cycle (hk : k.builtins = .standard) : k.builtins.find? "cycle" 2 = some .cycle := by
  rw [hk]
  rfl

/-- What is called with arguments is a compound term. -/
theorem Term.eq_compound_of_args {name : String} {arity : ℕ} {a : Term} {args : List Term}
    (h : t.functor? = some (name, arity)) (hargs : t.args = a :: args) :
    t = .compound name (a :: args) := by
  cases t <;> cases hargs
  cases h
  rfl

theorem Stage.functor?_of_turns
    (h : (⟨⟨.call t, depth⟩ :: rest, e, s⟩ : Stage).turns key = true) :
    (e.walk t).functor? = some ("cycle", 2) := by
  obtain ⟨list, hlist, -⟩ := turns_iff.1 h
  obtain ⟨out, hwalk⟩ := cycled?_call.1 hlist
  rw [hwalk]
  rfl

/-- What is called otherwise than a cycle is no turn. -/
theorem Stage.turns_eq_false (h : (e.walk t).functor? ≠ some ("cycle", 2)) :
    (⟨⟨.call t, depth⟩ :: rest, e, s⟩ : Stage).turns key = false :=
  Bool.eq_false_iff.2 fun hturns => h (functor?_of_turns hturns)

/-- **A call of a builtin moves a counter if it is a turn**, and by one place. -/
theorem counter_visit (hk : k.builtins = .standard) (hn : 0 < n) {name : String} {arity : ℕ}
    {b : Builtin} (hf : (e.walk t).functor? = some (name, arity))
    (hb : k.builtins.find? name arity = some b)
    (hone : OneLength key n [⟨⟨.call t, depth⟩ :: rest, e, s⟩]) :
    (b.call k.bpm (e.walk t).args e s.world).world.memory.counter key ≡
      s.world.memory.counter key +
        ((⟨⟨.call t, depth⟩ :: rest, e, s⟩ : Stage).turns key).toNat [MOD n] := by
  cases hturns : (⟨⟨.call t, depth⟩ :: rest, e, s⟩ : Stage).turns key with
  | true =>
      obtain ⟨list, hlist, rfl⟩ := Stage.turns_iff.1 hturns
      obtain ⟨out, hwalk⟩ := Stage.cycled?_call.1 hlist
      obtain ⟨items, hitems, rfl⟩ := hone _ (.head _) list hlist rfl
      obtain rfl : .cycle = b := by
        cases hf.symm.trans (Stage.functor?_of_turns hturns)
        exact Option.some.inj ((find?_cycle hk).symm.trans hb)
      rw [hwalk, Term.args, Builtin.counter_cycle hitems (List.length_pos_iff.1 hn)]
      exact (Nat.mod_modEq _ _).trans ((Nat.mod_modEq _ _).add_right 1)
  | false =>
      have hstandard : b ∈ Builtin.standard := by
        have hmem := List.mem_of_find?_eq_some hb
        rwa [hk] at hmem
      refine congrArg (· % n) (Builtin.counter_call hstandard ?_)
      rintro rfl list out hargs rfl
      have hwalk := Term.eq_compound_of_args hf hargs
      rw [← (name_of_find? hb).2] at hwalk
      exact Bool.false_ne_true <| hturns.symm.trans <|
        Stage.turns_iff.2 ⟨list, Stage.cycled?_call.2 ⟨out, hwalk⟩, rfl⟩

/-- A search for other goals, with the fuel that is left. -/
def CountsWith (k : Knowledge) (key : String) (n fuel : ℕ) : Prop :=
  ∀ goals e s, OneLength key n (visitsF k fuel goals e s) →
    Counts key n (s.world.memory.counter key) (visitsF k fuel goals e s) (solveF k fuel goals e s)

/-- The trial of a clause comes to the calls of its body. -/
theorem tryClause_counts (ih : CountsWith k key n fuel) {call : Term} {cl : Clause}
    (hone : OneLength key n (tryVisits (visitsF k fuel) call depth rest e cl s)) :
    Counts key n (s.world.memory.counter key) (tryVisits (visitsF k fuel) call depth rest e cl s)
      (tryClause (solveF k fuel) call depth rest e cl s) := by
  simp only [tryVisits, tryClause] at hone ⊢
  rcases hunify : unify call (cl.rename s.fresh).head e with cause | _ | e₁ <;>
    simp only [hunify] at hone ⊢
  · exact .halted cause
  · exact .still [] rfl
  · exact ih _ _ { s with fresh := s.fresh + 1 } hone

/-- After the call of a builtin the goals that are left are searched for, from each solution. -/
theorem callBuiltin_counts (ih : CountsWith k key n fuel) {b : Builtin} {name : String}
    {args : List Term}
    (hplace : (b.call k.bpm args e s.world).world.memory.counter key ≡ c [MOD n])
    (hone : OneLength key n
      (builtinVisits (solveF k fuel) (visitsF k fuel) b k.bpm name args rest e s)) :
    Counts key n c (builtinVisits (solveF k fuel) (visitsF k fuel) b k.bpm name args rest e s)
      (callBuiltin (solveF k fuel) b k.bpm name args rest e s) := by
  simp only [builtinVisits, callBuiltin, Builtin.Outcome.progress] at hone ⊢
  generalize b.call k.bpm args e s.world = o at hplace hone
  obtain ⟨solutions, world, _ | (error | cause)⟩ := o
  · exact (visitsOf_counts (fun e₁ _ => ih rest e₁) hone).congr hplace
  · exact (visitsOf_counts (fun e₁ _ => ih rest e₁) hone).congr hplace
  · exact .halted cause

/-- **A call moves a counter if it is a turn**, and what comes after it by the turns on the way. -/
theorem callTerm_counts (hk : k.builtins = .standard) (hn : 0 < n) (ih : CountsWith k key n fuel)
    (hone : OneLength key n (visitsF k (fuel + 1) (⟨.call t, depth⟩ :: rest) e s)) :
    Counts key n
      (s.world.memory.counter key +
        ((⟨⟨.call t, depth⟩ :: rest, e, s⟩ : Stage).turns key).toNat)
      (callVisits (solveF k fuel) (visitsF k fuel) k t depth rest e s)
      (callTerm k (solveF k fuel) t depth rest e s) := by
  rw [visitsF, OneLength, List.forall_mem_cons] at hone
  obtain ⟨hcall, hlater⟩ := hone
  simp only [callVisits, callTerm] at hlater ⊢
  rcases hf : (e.walk t).functor? with _ | ⟨name, arity⟩ <;> rw [hf] at hlater <;>
    dsimp only at hlater ⊢
  · have hturns : (e.walk t).functor? ≠ some ("cycle", 2) := by
      rw [hf]
      exact Option.some_ne_none _ |>.symm
    rw [Stage.turns_eq_false hturns]
    exact .still [] rfl
  rcases hb : k.builtins.find? name arity with _ | b <;> rw [hb] at hlater <;>
    dsimp only at hlater ⊢
  · have hturns : (e.walk t).functor? ≠ some ("cycle", 2) := by
      rw [hf]
      intro h
      cases h
      cases (find?_cycle hk).symm.trans hb
    rw [Stage.turns_eq_false hturns]
    split at hlater
    · next hdeep =>
      rw [if_pos hdeep, if_pos hdeep]
      refine .still [] ?_
      simp only [prune]
      split <;> rfl
    · next hdeep =>
      rw [if_neg hdeep, if_neg hdeep]
      refine (visitsOf_counts (fun _ _ _ => tryClause_counts ih) hlater).congr ?_
      split <;> rfl
  · have hcounter := counter_visit hk hn hf hb (List.forall_mem_singleton.2 hcall)
    exact callBuiltin_counts ih hcounter hlater

/-- **A search moves a counter by the turns on its way.** -/
theorem solveF_counts (hk : k.builtins = .standard) (hn : 0 < n) (fuel : ℕ) :
    CountsWith k key n fuel := by
  induction fuel with
  | zero => exact fun _ _ _ _ => .halted .search
  | succ fuel ih =>
      intro goals e s hone
      rcases goals with _ | ⟨⟨t | alternatives, depth⟩, rest⟩
      · exact .still [e] rfl
      · exact .cons rfl (callTerm_counts hk hn ih hone)
      · simp only [visitsF, OneLength, List.forall_mem_append] at hone
        have hany := visitsOf_counts_anyProof (fun b _ => ih (pendingAt depth b) e) hone.1
        simp only [visitsF, solveF]
        rcases hproof : anyProof (fun b => solveF k fuel (pendingAt depth b) e) alternatives s with
          cause | ⟨_ | _, s₁⟩ <;> simp only [hproof] at hone hany ⊢
        · exact hany.append_halted
        · exact hany.append (ih rest e s₁ hone.2)
        · exact hany.append (.still [] rfl)

end Search

end RhythmLogic
