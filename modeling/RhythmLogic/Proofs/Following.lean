/-
**Searches that are followed: other numbers, and goals left out.**

A search proves the body of a clause in front of the goals that are left, so it never comes to the
solutions of the first goals alone.  But the search for the first goals alone follows it: it makes
the same steps, and comes to a solution wherever the search for all goals takes up the goals that
are left.  Its clock is another one, since the trials for the goals that are left do not count in
it, and so its names have other numbers.

This is one induction over the search.  The two searches are at the same goals and bindings up to a
permutation of the numbers, and the permutation is only known on the numbers that are in use.  With
every trial the number of the one search goes to the number of the other one, which is free to be
said since both are new.

Main definitions:

* `Linked` — a permutation takes the numbers in use in one search to numbers in use in the other;
* `Spread` — solutions of all goals, spread over the solutions of the first ones;
* `Continues`, `Follows` — the search for all goals goes on from a solution of the first ones.

Main results:

* `Linked.exists_trial`, `callBuiltin_renumber` — a trial of a clause, and a call of a builtin, in
  each of the searches;
* `solveF_follows` — **the search for the first goals follows the search for all goals**.
-/

import RhythmLogic.Proofs.Numbers
import RhythmLogic.Proofs.Steady
import RhythmLogic.Proofs.Trials

set_option autoImplicit false

namespace RhythmLogic

open Term (Numbered)

variable {k : Knowledge} {S S' : Set ℕ} {σ τ : Equiv.Perm ℕ} {m n fuel depth : ℕ}
  {goals rest : List Pending} {e : Bindings}

/-! ### Numbers in use -/

/-- **The permutation takes the numbers in use** in the one search, all before `m`, to numbers
before `n` in the other search. -/
structure Linked (S : Set ℕ) (σ : Equiv.Perm ℕ) (m n : ℕ) : Prop where
  left : ∀ i ∈ S, i < m
  right : ∀ i ∈ S, σ i < n

theorem Linked.mono (h : Linked S σ m n) {m' n' : ℕ} (hm : m ≤ m') (hn : n ≤ n') :
    Linked S σ m' n' :=
  ⟨fun i hi => Nat.lt_of_lt_of_le (h.left i hi) hm,
    fun i hi => Nat.lt_of_lt_of_le (h.right i hi) hn⟩

/-- **A trial in each of the searches**: the number of the one goes to the number of the other. -/
theorem Linked.exists_next (h : Linked S σ m n) :
    ∃ τ : Equiv.Perm ℕ, (∀ i ∈ S, τ i = σ i) ∧ τ m = n ∧ Linked (insert m S) τ (m + 1) (n + 1) := by
  have hm : m ∉ S := fun hmem => Nat.lt_irrefl m (h.left m hmem)
  have hn : ∀ i ∈ S, σ i ≠ n := fun i hi => Nat.ne_of_lt (h.right i hi)
  obtain ⟨τ, hτ, hτm⟩ := exists_perm_extending hm hn
  refine ⟨τ, hτ, hτm, ?_, ?_⟩
  · rintro i (rfl | hi)
    · exact Nat.lt_succ_self i
    · exact Nat.lt_succ_of_lt (h.left i hi)
  · rintro i (rfl | hi)
    · exact hτm ▸ Nat.lt_succ_self n
    · exact hτ i hi ▸ Nat.lt_succ_of_lt (h.right i hi)

/-- **A trial of a clause in each of the searches**, at the same call, bindings and goals up to the
permutation: the copies of the clause are the same up to a permutation that goes on from it, and so
are the unifications with their heads, and the goals that are searched then. -/
theorem Linked.exists_trial (h : Linked S σ m n) {call : Term}
    (hcall : call.Everywhere (Numbered S)) (he : e.AllEntries (Numbered S))
    (hgoals : PendingEverywhere (Numbered S) goals) (depth : ℕ) (c : Clause) :
    ∃ τ : Equiv.Perm ℕ, (∀ i ∈ S, τ i = σ i) ∧ Linked (insert m S) τ (m + 1) (n + 1) ∧
      unify (call.relabel (renumber σ)) (c.rename n).head (e.relabel (renumber σ)) =
        (unify call (c.rename m).head e).relabel (renumber τ) ∧
      pendingAt (depth + 1) (c.rename n).body ++ goals.map (.map (Term.relabel (renumber σ))) =
        (pendingAt (depth + 1) (c.rename m).body ++ goals).map
          (.map (Term.relabel (renumber τ))) := by
  obtain ⟨τ, hτ, rfl, hlinked⟩ := h.exists_next
  -- the old numbers go where they went, and the number of the trial to that of the other trial
  have hσ : ∀ i ∈ S, σ i = τ i := fun i hi => (hτ i hi).symm
  have hhead : (c.rename (τ m)).head = (c.rename m).head.relabel (renumber τ) :=
    (rename_renumber τ m c.head).symm
  refine ⟨τ, hτ, hlinked, ?_, ?_⟩
  · rw [relabel_renumber_congr hσ hcall, Bindings.relabel_renumber_congr hσ he, hhead,
      unify_relabel (renumber_injective τ.injective)]
  · rw [List.map_append, pendingAt_rename_renumber,
      map_pending_congr (fun u hu => relabel_renumber_congr hσ hu) hgoals]

/-! ### Builtins -/

/-- **A builtin is called in each of the searches**, with the same arguments and bindings up to the
permutation: it halts both, or both go on from the same solutions up to it. -/
theorem callBuiltin_renumber (hk : k.Parametric) {name : String} {arity : ℕ} {b : Builtin}
    (hb : k.builtins.find? name arity = some b) {args : List Term}
    (hargs : ∀ a ∈ args, a.Everywhere (Numbered S)) (he : e.AllEntries (Numbered S)) (bpm : Float)
    (run run' : List Pending → Bindings → Progress → Found) (rest rest' : List Pending)
    (s t : Progress) :
    (∃ cause, callBuiltin run b bpm name args rest e s = .error cause ∧
      callBuiltin run' b bpm name (args.map (Term.relabel (renumber σ))) rest'
        (e.relabel (renumber σ)) t = .error cause) ∨
    ∃ (solutions : List Bindings) (s₁ t₁ : Progress), s₁.fresh = s.fresh ∧ t₁.fresh = t.fresh ∧
      (∀ a ∈ solutions, a.AllEntries (Numbered S)) ∧
      callBuiltin run b bpm name args rest e s = gather (run rest) solutions s₁ ∧
      callBuiltin run' b bpm name (args.map (Term.relabel (renumber σ))) rest'
        (e.relabel (renumber σ)) t =
          gather (run' rest') (solutions.map (Bindings.relabel (renumber σ))) t₁ := by
  have hkeeps := hk (matching_relabel (renumber_injective σ.injective) (ofVariables_numbered S)) hb
  obtain ⟨hsolutions, hstop⟩ :=
    hkeeps.call bpm (forall₂_eq_and_iff.2 ⟨rfl, hargs⟩) ⟨rfl, he⟩ s.world t.world trivial
  simp only [callBuiltin]
  generalize b.call bpm args e s.world = o at hsolutions hstop ⊢
  generalize b.call bpm (args.map (Term.relabel (renumber σ))) (e.relabel (renumber σ)) t.world =
    o' at hsolutions hstop ⊢
  obtain ⟨solutions, world, stop⟩ := o
  obtain ⟨solutions', world', stop'⟩ := o'
  obtain ⟨rfl, hnumbered⟩ := forall₂_eq_and_iff.1 hsolutions
  cases hstop with
  | halted => exact .inl ⟨_, rfl, rfl⟩
  | ended =>
      exact .inr ⟨solutions, { s with world := world }, { t with world := world' }, rfl, rfl,
        hnumbered, rfl, rfl⟩
  | @refused error error' =>
      exact .inr ⟨solutions, { s with world := world }.tell (.refused name args.length error),
        { t with world := world' }.tell (.refused name (args.map _).length error'), rfl, rfl,
        hnumbered, rfl, rfl⟩

/-! ### Solutions that are spread -/

/-- **The solutions `found` are spread over `mids`**: they are parts, one after the other, each of
which belongs to one of `mids`. -/
inductive Spread (R : List Bindings → Bindings → Prop) : List Bindings → List Bindings → Prop where
  | nil : Spread R [] []
  | cons {part found : List Bindings} {mid : Bindings} {mids : List Bindings} :
      R part mid → Spread R found mids → Spread R (part ++ found) (mid :: mids)

namespace Spread

variable {R R' : List Bindings → Bindings → Prop} {found found' mids mids' : List Bindings}

theorem single {mid : Bindings} (h : R found mid) : Spread R found [mid] := by
  simpa using Spread.cons h .nil

theorem mono (h : Spread R found mids) (hR : ∀ part mid, R part mid → R' part mid) :
    Spread R' found mids := by
  induction h with
  | nil => exact .nil
  | cons hpart _ ih => exact .cons (hR _ _ hpart) ih

theorem append (h : Spread R found mids) (h' : Spread R found' mids') :
    Spread R (found ++ found') (mids ++ mids') := by
  induction h with
  | nil => exact h'
  | cons hpart _ ih =>
      rw [List.append_assoc]
      exact .cons hpart ih

theorem exists_part (h : Spread R found mids) {mid : Bindings} (hmid : mid ∈ mids) :
    ∃ part, R part mid := by
  induction h with
  | nil => cases hmid
  | cons hpart _ ih =>
      rcases List.mem_cons.1 hmid with rfl | hmid
      · exact ⟨_, hpart⟩
      · exact ih hmid

/-- Where every part is one solution, there are as many. -/
theorem forall₂ {Q : Bindings → Bindings → Prop} (h : Spread R found mids)
    (hR : ∀ part mid, R part mid → ∃ a, part = [a] ∧ Q a mid) : List.Forall₂ Q found mids := by
  induction h with
  | nil => exact .nil
  | cons hpart _ ih =>
      obtain ⟨a, rfl, ha⟩ := hR _ _ hpart
      exact .cons ha ih

end Spread

/-! ### Following -/

/-- **The search for all goals goes on from a solution of the first ones**: it comes to `part` from
bindings that are `mid` under other numbers, with no more fuel than at the start.  The numbers that
were in use at the start go where they went. -/
inductive Continues (k : Knowledge) (fuel : ℕ) (rest : List Pending) (S : Set ℕ)
    (σ : Equiv.Perm ℕ) (n : ℕ) : List Bindings → Bindings → Prop where
  | intro {fuel' : ℕ} {S' : Set ℕ} {τ : Equiv.Perm ℕ} {e : Bindings} {s s' : Progress}
      {part : List Bindings} : fuel' ≤ fuel → S ⊆ S' → (∀ i ∈ S, τ i = σ i) →
      Linked S' τ s.fresh n → e.AllEntries (Numbered S') →
      solveF k fuel' rest e s = .ok (part, s') →
      Continues k fuel rest S σ n part (e.relabel (renumber τ))

theorem Continues.mono {part : List Bindings} {mid : Bindings}
    (h : Continues k fuel rest S' τ m part mid) {fuel' : ℕ} (hfuel : fuel ≤ fuel') (hS : S ⊆ S')
    (hτ : ∀ i ∈ S, τ i = σ i) (hmn : m ≤ n) : Continues k fuel' rest S σ n part mid := by
  obtain ⟨hle, hsub, hperm, hlinked, he, hrun⟩ := h
  exact .intro (hle.trans hfuel) (hS.trans hsub) (fun i hi => (hperm i (hS hi)).trans (hτ i hi))
    (hlinked.mono (Nat.le_refl _) hmn) he hrun

/-- **The second run follows the first one**: from linked numbers, if the first one answers, so does
the second one, and the solutions of the first one are spread over those of the second one. -/
def Follows (k : Knowledge) (fuel : ℕ) (rest : List Pending) (S : Set ℕ) (σ : Equiv.Perm ℕ)
    (run run' : Progress → Found) : Prop :=
  ∀ s t found s', Linked S σ s.fresh t.fresh → run s = .ok (found, s') →
    ∃ mids t', run' t = .ok (mids, t') ∧ Spread (Continues k fuel rest S σ t'.fresh) found mids

section Loops

variable {α β : Type} {run : α → Progress → Found} {run' : β → Progress → Found} {xs : List α}
  {ys : List β}

/-- Runs that follow, one after the other. -/
theorem gather_follows (hrun : ∀ x, Advances (run x)) (hrun' : ∀ y, Advances (run' y))
    (h : List.Forall₂ (fun x y => Follows k fuel rest S σ (run x) (run' y)) xs ys) :
    Follows k fuel rest S σ (gather run xs) (gather run' ys) := by
  induction h with
  | nil =>
      rintro s t found s' - hs
      cases hs
      exact ⟨[], t, rfl, .nil⟩
  | @cons x y xs ys hxy _ ih =>
      intro s t found s' hlinked hs
      obtain ⟨part, s₁, more, hx, hxs, rfl⟩ := gather_cons.1 hs
      obtain ⟨mids, t₁, hy, hspread⟩ := hxy s t part s₁ hlinked hx
      have hlinked' := hlinked.mono (hrun x _ _ _ hx) (hrun' y _ _ _ hy)
      obtain ⟨mids', t₂, hys, hspread'⟩ := ih s₁ t₁ more s' hlinked' hxs
      have hle : t₁.fresh ≤ t₂.fresh := gather_advances hrun' ys _ _ _ hys
      refine ⟨mids ++ mids', t₂, gather_cons.2 ⟨mids, t₁, mids', hy, hys, rfl⟩, ?_⟩
      exact (hspread.mono fun part mid hc =>
        hc.mono (Nat.le_refl _) subset_rfl (fun _ _ => rfl) hle).append hspread'

/-- Where no goals are left, a solution goes on to itself. -/
theorem Continues.eq_singleton {part : List Bindings} {mid : Bindings}
    (h : Continues k fuel [] S σ n part mid) :
    ∃ e, part = [e] ∧ ∃ (S' : Set ℕ) (τ : Equiv.Perm ℕ), S ⊆ S' ∧ (∀ i ∈ S, τ i = σ i) ∧
      e.AllEntries (Numbered S') ∧ (∀ i ∈ S', τ i < n) ∧ mid = e.relabel (renumber τ) := by
  obtain @⟨fuel', S', τ, e, s, s', part, -, hS, hτ, hlinked, he, hrun⟩ := h
  cases fuel' with
  | zero => cases hrun
  | succ fuel' =>
      cases hrun
      exact ⟨e, rfl, S', τ, hS, hτ, he, hlinked.right, rfl⟩

/-- A negation that is followed is decided alike. -/
theorem anyProof_follows (hrun : ∀ x, Advances (run x)) (hrun' : ∀ y, Advances (run' y))
    (h : List.Forall₂ (fun x y => Follows k fuel [] S σ (run x) (run' y)) xs ys)
    {s t s' : Progress} {b : Bool} (hlinked : Linked S σ s.fresh t.fresh)
    (hs : anyProof run xs s = .ok (b, s')) :
    ∃ t', anyProof run' ys t = .ok (b, t') ∧ s.fresh ≤ s'.fresh ∧ t.fresh ≤ t'.fresh := by
  induction h generalizing s t with
  | nil =>
      cases hs
      exact ⟨t, rfl, Nat.le_refl _, Nat.le_refl _⟩
  | @cons x y xs ys hxy _ ih =>
      simp only [anyProof] at hs
      split at hs
      · cases hs
      next found s₁ hx =>
      obtain ⟨mids, t₁, hy, hspread⟩ := hxy s t found s₁ hlinked hx
      have hs₁ := hrun x _ _ _ hx
      have ht₁ := hrun' y _ _ _ hy
      have hempty : found.isEmpty = mids.isEmpty := by
        cases hspread with
        | nil => rfl
        | cons hpart _ =>
            obtain ⟨e, rfl, -⟩ := hpart.eq_singleton
            rfl
      simp only [anyProof, hy, ← hempty]
      split at hs
      · next hfound =>
          obtain ⟨t', hys, hs', ht'⟩ := ih (hlinked.mono hs₁ ht₁) hs
          rw [if_pos hfound]
          exact ⟨t', hys, hs₁.trans hs', ht₁.trans ht'⟩
      · next hfound =>
          cases hs
          rw [if_neg hfound]
          exact ⟨t₁, rfl, hs₁, ht₁⟩

end Loops

/-! ### The search -/

/-- Searches with at most `fuel` are followed, from whatever goals and bindings. -/
def SearchFollows (k : Knowledge) (fuel : ℕ) : Prop :=
  ∀ (goals rest : List Pending) (e : Bindings) (S : Set ℕ) (σ : Equiv.Perm ℕ),
    PendingEverywhere (Numbered S) goals → e.AllEntries (Numbered S) →
    Follows k fuel rest S σ (solveF k fuel (goals ++ rest) e)
      (solveF k fuel (goals.map (.map (Term.relabel (renumber σ)))) (e.relabel (renumber σ)))

section Steps

variable (hfuel : SearchFollows k fuel) (he : e.AllEntries (Numbered S))
include hfuel he

/-- Alternatives of a negation are followed to the same decision. -/
theorem alternatives_follow {alternatives : List (List Goal)}
    (halternatives : ∀ b ∈ alternatives, ∀ g ∈ b, g.Everywhere (Numbered S)) {s t s' : Progress}
    {v : Bool} (hlinked : Linked S σ s.fresh t.fresh)
    (hs : anyProof (fun b => solveF k fuel (pendingAt depth b) e) alternatives s = .ok (v, s')) :
    ∃ t', anyProof (fun b => solveF k fuel (pendingAt depth b) (e.relabel (renumber σ)))
        (alternatives.map fun b => b.map (.map (Term.relabel (renumber σ)))) t = .ok (v, t') ∧
      Linked S σ s'.fresh t'.fresh := by
  have hfollows : List.Forall₂ (fun b b' => Follows k fuel [] S σ
      (solveF k fuel (pendingAt depth b) e)
      (solveF k fuel (pendingAt depth b') (e.relabel (renumber σ))))
      alternatives (alternatives.map fun b => b.map (.map (Term.relabel (renumber σ)))) := by
    rw [List.forall₂_map_right_iff, List.forall₂_same]
    intro b hb
    have hb' := hfuel (pendingAt depth b) [] e S σ
      (pendingEverywhere_pendingAt.2 (halternatives b hb)) he
    rwa [List.append_nil, map_pendingAt] at hb'
  obtain ⟨t', ht, hle, hle'⟩ := anyProof_follows (fun b => solveF_advances k fuel _ _)
    (fun b => solveF_advances k fuel _ _) hfollows hlinked hs
  exact ⟨t', ht, hlinked.mono hle hle'⟩

variable {t : Term} (hgoals : PendingEverywhere (Numbered S) goals)
include hgoals

/-- **A trial is followed by a trial,** with the number of the other search. -/
theorem tryClause_follows {call : Term} (hcall : call.Everywhere (Numbered S)) (c : Clause) :
    Follows k fuel rest S σ (tryClause (solveF k fuel) call depth (goals ++ rest) e c)
      (tryClause (solveF k fuel) (call.relabel (renumber σ)) depth
        (goals.map (.map (Term.relabel (renumber σ)))) (e.relabel (renumber σ)) c) := by
  intro s t found s' hlinked h
  obtain ⟨τ, hτ, hlinked', hunify, hpending⟩ := hlinked.exists_trial hcall he hgoals depth c
  simp only [tryClause, hunify, hpending] at h ⊢
  rcases hu : unify call (c.rename s.fresh).head e with cause | _ | e₁ <;> rw [hu] at h
  · cases h
  · cases h
    exact ⟨[], _, rfl, .nil⟩
  · obtain ⟨he₁, hnumbered⟩ := numbered_trial hcall he hgoals (depth + 1) hu
    rw [← List.append_assoc] at h
    obtain ⟨mids, t', hrun, hspread⟩ := hfuel _ rest e₁ _ τ hnumbered he₁
      { s with fresh := s.fresh + 1 } { t with fresh := t.fresh + 1 } found s' hlinked' h
    exact ⟨mids, t', hrun, hspread.mono fun part mid hc =>
      hc.mono (Nat.le_refl _) (Set.subset_insert _ _) hτ (Nat.le_refl _)⟩

/-- A builtin is followed by the same builtin. -/
theorem callBuiltin_follows (hk : k.Parametric) {name : String} {arity : ℕ} {b : Builtin}
    (hb : k.builtins.find? name arity = some b) {args : List Term}
    (hargs : ∀ a ∈ args, a.Everywhere (Numbered S)) (bpm : Float) :
    Follows k fuel rest S σ (callBuiltin (solveF k fuel) b bpm name args (goals ++ rest) e)
      (callBuiltin (solveF k fuel) b bpm name (args.map (Term.relabel (renumber σ)))
        (goals.map (.map (Term.relabel (renumber σ)))) (e.relabel (renumber σ))) := by
  intro s t found s' hlinked h
  obtain ⟨cause, hhalts, -⟩ | ⟨solutions, s₁, t₁, hs₁, ht₁, hnumbered, hs, ht⟩ :=
    callBuiltin_renumber hk hb hargs he bpm (solveF k fuel) (solveF k fuel) (goals ++ rest)
      (goals.map (.map (Term.relabel (renumber σ)))) s t
  · rw [hhalts] at h
    cases h
  · rw [hs] at h
    rw [ht]
    have hfollows : List.Forall₂ (fun a a' => Follows k fuel rest S σ
        (solveF k fuel (goals ++ rest) a)
        (solveF k fuel (goals.map (.map (Term.relabel (renumber σ)))) a'))
        solutions (solutions.map (Bindings.relabel (renumber σ))) :=
      List.forall₂_map_right_iff.2 <| List.forall₂_same.2 fun a ha =>
        hfuel goals rest a S σ hgoals (hnumbered a ha)
    exact gather_follows (solveF_advances k fuel _) (solveF_advances k fuel _) hfollows _ _ _ _
      (hlinked.mono (Nat.le_of_eq hs₁.symm) (Nat.le_of_eq ht₁.symm)) h

/-- A call is followed by a call. -/
theorem callTerm_follows (hk : k.Parametric) (ht : t.Everywhere (Numbered S)) :
    Follows k fuel rest S σ (callTerm k (solveF k fuel) t depth (goals ++ rest) e)
      (callTerm k (solveF k fuel) (t.relabel (renumber σ)) depth
        (goals.map (.map (Term.relabel (renumber σ)))) (e.relabel (renumber σ))) := by
  intro s u found s' hlinked h
  have hcall := Bindings.everywhere_walk he.everywhere ht
  simp only [callTerm, Bindings.walk_relabel (renumber_injective σ.injective), Term.functor?_relabel,
    Term.args_relabel] at h ⊢
  generalize e.walk t = call at h hcall ⊢
  rcases hf : call.functor? with _ | ⟨name, arity⟩ <;> rw [hf] at h
  · cases h
    exact ⟨[], _, rfl, .nil⟩
  rcases hb : k.builtins.find? name arity with _ | b
  · simp only [hb] at h ⊢
    split at h
    · next hdeep =>
        cases h
        rw [if_pos hdeep]
        exact ⟨[], _, rfl, .nil⟩
    · next hdeep =>
        rw [if_neg hdeep]
        have hgather : ∀ cs : List Clause, Follows k fuel rest S σ
            (gather (tryClause (solveF k fuel) call depth (goals ++ rest) e) cs)
            (gather (tryClause (solveF k fuel) (call.relabel (renumber σ)) depth
              (goals.map (.map (Term.relabel (renumber σ)))) (e.relabel (renumber σ))) cs) :=
          fun cs => gather_follows (tryClause_advances k fuel _ _ _ _)
            (tryClause_advances k fuel _ _ _ _)
            (List.forall₂_same.2 fun c _ => tryClause_follows hfuel he hgoals hcall c)
        refine hgather _ _ _ _ _ ?_ h
        refine hlinked.mono (Nat.le_of_eq ?_) (Nat.le_of_eq ?_) <;> split <;> rfl
  · simp only [hb] at h ⊢
    exact callBuiltin_follows hfuel he hgoals hk hb hcall.args k.bpm _ _ _ _ hlinked h

end Steps

/-- **The search for the first goals follows the search for all goals.** -/
theorem solveF_follows (hk : k.Parametric) (fuel : ℕ) : SearchFollows k fuel := by
  induction fuel with
  | zero =>
      intro goals rest e S σ _ _ s t found s' _ h
      cases h
  | succ fuel ih =>
      intro goals rest e S σ hgoals he s t found s' hlinked h
      rcases goals with _ | ⟨⟨goal, depth⟩, goals⟩
      · -- the search for all goals takes up the goals that are left
        exact ⟨[e.relabel (renumber σ)], t, rfl, .single
          (.intro (Nat.le_refl _) subset_rfl (fun _ _ => rfl) hlinked he h)⟩
      rw [pendingEverywhere_cons] at hgoals
      obtain ⟨hgoal, hgoals⟩ := hgoals
      have hmore : ∀ {run run' : Progress → Found} {s t : Progress}, Linked S σ s.fresh t.fresh →
          Follows k fuel rest S σ run run' → run s = .ok (found, s') →
          ∃ mids t', run' t = .ok (mids, t') ∧
            Spread (Continues k (fuel + 1) rest S σ t'.fresh) found mids := by
        intro run run' s t hlinked hfollows hs
        obtain ⟨mids, t', ht, hspread⟩ := hfollows s t found s' hlinked hs
        exact ⟨mids, t', ht, hspread.mono fun part mid hc =>
          hc.mono (Nat.le_succ _) subset_rfl (fun _ _ => rfl) (Nat.le_refl _)⟩
      cases goal with
      | call t =>
          exact hmore hlinked (callTerm_follows ih he hgoals hk (Goal.everywhere_call.1 hgoal)) h
      | negation alternatives =>
          rw [Goal.everywhere_negation] at hgoal
          simp only [List.cons_append, solveF] at h
          simp only [List.map_cons, Pending.map, Goal.map_negation, solveF]
          split at h
          · cases h
          · next s₁ hs =>
              cases h
              obtain ⟨t₁, ht, -⟩ := alternatives_follow ih he hgoal hlinked hs
              rw [ht]
              exact ⟨[], t₁, rfl, .nil⟩
          · next s₁ hs =>
              obtain ⟨t₁, ht, hlinked'⟩ := alternatives_follow ih he hgoal hlinked hs
              rw [ht]
              exact hmore hlinked' (ih goals rest e S σ hgoals he) h

end RhythmLogic
