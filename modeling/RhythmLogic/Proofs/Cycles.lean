/-
**Cycles through a list, from query to query.**

A call of `cycle` gives one item of its list, the one at the place of the counter for the text of
the list, and steps the counter.  A list without variables has the same items whatever the bindings
are, and the same text, so that all calls with it turn one counter by one length.  So one call goes on
where the one before it ended, in whichever queries they are and however deep in them.  What else is
called in between does not matter, unless it is a cycle through another list with this text.

Main definitions:

* `Lists` — a list without variables, and its items;
* `Query`, `Query.ask` — queries, of which each knows what was remembered by those before it;
* `Uncrossed` — queries that come to no cycle through another list with the same text.

Main results:

* `substF_of_isGround` — a term without variables stands for the same in all bindings;
* `solveF_cycle` — **a cycle binds its output to the item at its counter**, and goes on;
* `visitsAll_counts` — how far on the counter is at each call of some queries, and in the end;
* `cycles_wrap` — **counters step and wrap, each by itself, and so do cycles**.
-/

import RhythmLogic.CommandLine.Mixer
import RhythmLogic.Proofs.Equality
import RhythmLogic.Proofs.Frames
import RhythmLogic.Proofs.Indexes
import RhythmLogic.Proofs.Visits

set_option autoImplicit false

namespace RhythmLogic

open Bindings Term

/-! ### Terms without variables -/

section Ground

variable {t : Term} {e : Bindings}

theorem walk_of_isGround (e : Bindings) (h : t.isGround = true) : e.walk t = t := by
  cases t with
  | var => cases h
  | number | atom | compound | list | partialList | expr => rfl

/-- What stands for a term without variables has none either. -/
theorem isGround_substF (e : Bindings) (depth : ℕ) (h : t.isGround = true) :
    (e.substF depth t).isGround = true := by
  induction depth generalizing t with
  | zero => exact h
  | succ depth ih =>
      rw [Bindings.substF, walk_of_isGround e h]
      cases t with
      | var => cases h
      | number | atom => rfl
      | compound f args =>
          rw [Term.isGround, allGround_iff] at h
          simpa only [Term.isGround, allGround_iff, List.forall_mem_map] using
            fun a ha => ih (h a ha)
      | list items =>
          rw [Term.isGround, allGround_iff] at h
          simpa only [Term.isGround, allGround_iff, List.forall_mem_map] using
            fun a ha => ih (h a ha)
      | partialList items tail =>
          rw [Term.isGround, Bool.and_eq_true, allGround_iff] at h
          simp only [Term.isGround_joinTail, List.forall_mem_map]
          exact ⟨fun a ha => ih (h.1 a ha), ih h.2⟩
      | expr op l r =>
          rw [Term.isGround, Bool.and_eq_true] at h ⊢
          exact ⟨ih h.1, ih h.2⟩

/-- **A term without variables stands for the same in all bindings.** -/
theorem substF_of_isGround (e e' : Bindings) (depth : ℕ) (h : t.isGround = true) :
    e.substF depth t = e'.substF depth t := by
  induction depth generalizing t with
  | zero => rfl
  | succ depth ih =>
      rw [Bindings.substF, Bindings.substF, walk_of_isGround e h, walk_of_isGround e' h]
      cases t with
      | var => cases h
      | number | atom => rfl
      | compound f args | list args =>
          rw [Term.isGround, allGround_iff] at h
          dsimp only
          rw [List.map_congr_left fun a ha => ih (h a ha)]
      | partialList items tail =>
          rw [Term.isGround, Bool.and_eq_true, allGround_iff] at h
          dsimp only
          rw [List.map_congr_left fun a ha => ih (h.1 a ha), ih h.2]
      | expr op l r =>
          rw [Term.isGround, Bool.and_eq_true] at h
          dsimp only
          rw [ih h.1, ih h.2]

/-- **A list without variables**: what it stands for, in any bindings. -/
structure Lists (list : Term) (items : List Term) : Prop where
  ground : list.isGround = true
  proper : Bindings.empty.subst list = .list items
  nonempty : items ≠ []

variable {list : Term} {items : List Term}

theorem Lists.subst (h : Lists list items) (e : Bindings) : e.subst list = .list items :=
  (substF_of_isGround e .empty _ h.ground).trans h.proper

/-- Its items have no variables either. -/
theorem Lists.isVar (h : Lists list items) {item : Term} (hitem : item ∈ items) :
    item.isVar = false := by
  have hground := isGround_substF .empty Bindings.levels h.ground
  have hproper : Bindings.empty.substF Bindings.levels list = .list items := h.proper
  rw [hproper, Term.isGround, allGround_iff] at hground
  cases item with
  | var => exact absurd (hground _ hitem) Bool.false_ne_true
  | number | atom | compound | list | partialList | expr => rfl

theorem Lists.length_pos (h : Lists list items) : 0 < items.length :=
  List.length_pos_iff.2 h.nonempty

end Ground

/-! ### One call -/

section Call

variable {k : Knowledge} {list : Term} {items : List Term} {x : String} {e : Bindings}

/-- The item at a place, counted around. -/
def itemAt (items : List Term) (place : ℕ) : Term := items.getD (place % items.length) (.list [])

theorem itemAt_congr {p q : ℕ} (h : p ≡ q [MOD items.length]) : itemAt items p = itemAt items q :=
  congrArg (items.getD · _) h

theorem Lists.getElem?_itemAt (h : Lists list items) (place : ℕ) :
    items[place % items.length]? = some (itemAt items place) := by
  have hlt := Nat.mod_lt place h.length_pos
  rw [itemAt, List.getD_eq_getElem?_getD, List.getElem?_eq_getElem hlt, Option.getD_some]

theorem Lists.unify_item (h : Lists list items) (hx : e.get? x = none) (place : ℕ) :
    unify (.var x) (itemAt items place) e = .ok (some (e.bind x (itemAt items place))) := by
  have hshape := h.isVar (List.mem_of_getElem? (h.getElem?_itemAt place))
  refine unify_fresh hx (settles_shape hshape) ?_
  intro heq
  rw [heq] at hshape
  cases hshape

/-- **A call gives the item at the counter**, and steps the counter. -/
theorem Lists.call_cycle (h : Lists list items) (hx : e.get? x = none) (bpm : Float) (w : World) :
    Builtin.cycle.call bpm [list, .var x] e w =
      ⟨[e.bind x (itemAt items (w.memory.counter list.text))],
        { w with memory := (w.memory.step list.text items.length).2 }, none⟩ := by
  have hplace := Memory.step_fst w.memory list.text items.length
  rw [if_neg h.length_pos.ne'] at hplace
  rcases hstep : w.memory.step list.text items.length with ⟨place, memory⟩
  rw [hstep] at hplace
  have hitem : items[place % items.length]? = some (itemAt items (w.memory.counter list.text)) := by
    rw [show place = _ from hplace, Nat.mod_mod]
    exact h.getElem?_itemAt _
  have hdone : Builtin.cycle.run bpm [list, .var x] e ⟨w, []⟩ =
      Body.unifyInto e (.var x) (itemAt items (w.memory.counter list.text))
        ⟨{ w with memory := memory }, []⟩ := by
    rw [Builtin.run_cycle (h.subst e) h.nonempty, Body.bind_apply, Body.stepCounter_of_step hstep]
    simp only [ExceptT.bindCont, hitem, Body.machine, pure_bind]
  simp only [Builtin.call, hdone, Body.unifyInto, h.unify_item hx]
  rfl

/-- The progress with another memory. -/
def Progress.recall (s : Progress) (m : Memory) : Progress :=
  { s with world := { s.world with memory := m } }

theorem gather_singleton {α : Type} (run : α → Progress → Found) (a : α) (s : Progress) :
    gather run [a] s = run a s := by
  rcases h : run a s with cause | ⟨found, s'⟩ <;> simp [gather, h]

/-- **A cycle binds its output to the item at its counter**, and the search goes on. -/
theorem solveF_cycle (hk : k.builtins = .standard) (h : Lists list items) {t : Term}
    (ht : e.walk t = .compound "cycle" [list, .var x]) (hx : e.get? x = none) (fuel depth : ℕ)
    (rest : List Pending) (s : Progress) :
    solveF k (fuel + 1) (⟨.call t, depth⟩ :: rest) e s =
      solveF k fuel rest (e.bind x (itemAt items (s.world.memory.counter list.text)))
        (s.recall (s.world.memory.step list.text items.length).2) := by
  have hfind : k.builtins.find? "cycle" [list, .var x].length = some .cycle := find?_cycle hk
  rw [solveF]
  simp only [callTerm, ht, Term.functor?, hfind, Term.args, callBuiltin, h.call_cycle hx,
    gather_singleton]
  rfl

end Call

/-! ### From query to query -/

/-- A query: what is known and asked, and the bindings and the progress that it starts with. -/
structure Query where
  knowledge : Knowledge
  goals : List Goal
  bindings : Bindings
  progress : Progress

namespace Query

/-- **A query is answered**, with what is remembered at the end of the one before it. -/
def ask (q : Query) (s : Progress) : Found :=
  solve q.knowledge q.goals q.bindings (q.progress.recall s.world.memory)

/-- What its search starts with. -/
def start (q : Query) (s : Progress) : Progress :=
  { q.progress.recall s.world.memory with warned := false }

/-- The calls that it comes to. -/
def visits (q : Query) (s : Progress) : List Stage :=
  visitsF q.knowledge searchBudget (pendingAt 0 q.goals) q.bindings (q.start s)

end Query

/-- The calls that queries come to, one query after the other. -/
def visitsAll (qs : List Query) (s : Progress) : List Stage :=
  visitsOf (fun _ => false) Query.ask Query.visits qs s

/-- **The queries come to no cycle through another list** that has the text of this one. -/
structure Uncrossed (list : Term) (qs : List Query) (s : Progress) : Prop where
  standard : ∀ q ∈ qs, q.knowledge.builtins = .standard
  same : ∀ a ∈ visitsAll qs s, ∀ other, a.cycled? = some other → other.text = list.text →
    other = list

/-- **A cycle through a list is called next**, with an output that is not bound. -/
structure Stage.Asks (list : Term) (x : String) (rest : List Pending) (a : Stage) : Prop where
  call : ∃ t depth, a.goals = ⟨.call t, depth⟩ :: rest ∧
    a.bindings.walk t = .compound "cycle" [list, .var x]
  fresh : a.bindings.get? x = none

section History

variable {list : Term} {items : List Term} {qs : List Query} {s s' : Progress}

/-- **The counter along queries**: at each call it is as many places on as there were cycles through
the list before, and so it is in the end. -/
theorem visitsAll_counts (h : Lists list items) (hqs : Uncrossed list qs s) :
    Counts list.text items.length (s.world.memory.counter list.text) (visitsAll qs s)
      (gather Query.ask qs s) := by
  refine visitsOf_counts (fun q hq s => ?_) fun a ha other hother htext => ?_
  · exact solveF_counts (hqs.standard q hq) h.length_pos searchBudget _ _ _
  · rw [hqs.same a ha other hother htext]
    exact ⟨items, h.subst a.bindings, rfl⟩

/-- **The cycle that is called after some others** binds its output to the item that is as far on
as there were such cycles. -/
theorem solveF_visit (h : Lists list items) (hqs : Uncrossed list qs s) {before after : List Stage}
    {a : Stage} (hsplit : visitsAll qs s = before ++ a :: after) {x : String} {rest : List Pending}
    (ha : a.Asks list x rest) {k : Knowledge} (hk : k.builtins = .standard) (fuel : ℕ) :
    solveF k (fuel + 1) a.goals a.bindings a.progress =
      solveF k fuel rest
        (a.bindings.bind x (itemAt items
          (s.world.memory.counter list.text + before.countP (Stage.turns list.text))))
        (a.progress.recall (a.progress.world.memory.step list.text items.length).2) := by
  obtain ⟨⟨t, depth, hgoals, hwalk⟩, hfresh⟩ := ha
  have halong := (visitsAll_counts h hqs).along
  rw [hsplit, along_append] at halong
  rw [hgoals, solveF_cycle hk h hwalk hfresh, itemAt_congr halong.2.1]

/-- **A query for the next item** after some others is answered by the item that is as far on. -/
theorem ask_next (h : Lists list items) (hqs : Uncrossed list qs s) {found : List Bindings}
    (hasked : gather Query.ask qs s = .ok (found, s')) {q : Query} {x : String}
    (hk : q.knowledge.builtins = .standard)
    (hgoals : q.goals = [.call (.compound "cycle" [list, .var x])])
    (hx : q.bindings.get? x = none) :
    ∃ s'', q.ask s' = .ok ([q.bindings.bind x (itemAt items
      (s.world.memory.counter list.text + (visitsAll qs s).countP (Stage.turns list.text)))],
        s'') := by
  have hplace := (visitsAll_counts h hqs).last found s' hasked
  have hwalk : q.bindings.walk (.compound "cycle" [list, .var x]) =
    .compound "cycle" [list, .var x] := rfl
  have hask : q.ask s' =
      .ok ([q.bindings.bind x (itemAt items (s'.world.memory.counter list.text))],
        (q.start s').recall (s'.world.memory.step list.text items.length).2) := by
    rw [Query.ask, solve, hgoals]
    exact solveF_cycle hk h hwalk hx 4611686018427387903 0 [] (q.start s')
  exact ⟨_, itemAt_congr hplace ▸ hask⟩

end History

/-- **Counters step and wrap, each by itself, and so do cycles.**

* The steps of one length under a key give the places around the cycle, from zero on since the last
  reset, whatever is done under other keys, with times, or with cycles of length zero.
* A step of whatever length gives a place of its cycle, and one of length zero gives zero and does
  nothing.
* Let queries come to no cycle through another list that has the text of a list without variables.
  Each cycle through this list that they call with an unbound output, be it however deep in a
  search, binds the output to the item that is as many places on as there were such calls before;
  and so does a query for an item that is put after them. -/
theorem cycles_wrap :
    (∀ (past since : List Memory.Deed) (key : String) (n : ℕ), 0 < n → .reset ∉ since →
      (∀ length, .step key length ∈ since → length = 0 ∨ length = n) →
      ∀ m, m = Memory.empty.performs since ∨ m = Memory.empty.performs (past ++ .reset :: since) →
        (m.step key n).1 = since.countP (Memory.Deed.turns key) % n) ∧
    (∀ (m : Memory) (key : String), m.step key 0 = (0, m) ∧ ∀ n, 0 < n → (m.step key n).1 < n) ∧
    ∀ (list : Term) (items : List Term), Lists list items →
      ∀ (qs : List Query) (s : Progress), Uncrossed list qs s →
        (∀ before a after x rest, visitsAll qs s = before ++ a :: after → a.Asks list x rest →
          ∀ (k : Knowledge) (fuel : ℕ), k.builtins = .standard →
            solveF k (fuel + 1) a.goals a.bindings a.progress =
              solveF k fuel rest
                (a.bindings.bind x (itemAt items
                  (s.world.memory.counter list.text + before.countP (Stage.turns list.text))))
                (a.progress.recall (a.progress.world.memory.step list.text items.length).2)) ∧
        ∀ found s', gather Query.ask qs s = .ok (found, s') →
          ∀ (q : Query) (x : String), q.knowledge.builtins = .standard →
            q.goals = [.call (.compound "cycle" [list, .var x])] → q.bindings.get? x = none →
            ∃ s'', q.ask s' = .ok ([q.bindings.bind x (itemAt items
              (s.world.memory.counter list.text +
                (visitsAll qs s).countP (Stage.turns list.text)))], s'') := by
  refine ⟨?_, fun m key => ⟨m.step_zero key, fun _ => m.step_lt key⟩,
    fun list items h qs s hqs => ⟨?_, ?_⟩⟩
  · intro past since key n hn hreset hlength m hm
    have hsince : m = Memory.empty.performs since := by
      obtain rfl | rfl := hm
      · rfl
      · exact List.foldl_append
    rw [Memory.step_fst, if_neg hn.ne', hsince, Memory.counter_performs hn hreset hlength]
    exact congrArg (· % n) (Nat.zero_add _)
  · intro before a after x rest hsplit ha k fuel hk
    exact solveF_visit h hqs hsplit ha hk fuel
  · intro found s' hasked q x hk hgoals hx
    exact ask_next h hqs hasked hk hgoals hx

/-- A counter under one key is stepped around a cycle of three, with other things done in between;
and a list of two is cycled through by three queries, with a query for another list in between. -/
theorem cycles_wrap_between :
    let list : Term := .list [.atom "a", .atom "b"]
    let other : Term := .list [.atom "x", .atom "y", .atom "z"]
    let s : Progress := ⟨⟨.empty, .ofSeed 1, []⟩, 0, false⟩
    let query : Term → Query := fun l =>
      ⟨⟨⟨[]⟩, .standard, 8, 120⟩, [.call (.compound "cycle" [l, .var "X"])], .empty, s⟩
    let qs : List Query := [query list, query other, query list]
    ((Memory.empty.performs [.step "k" 3, .step "other" 5, .setTime "k" 1, .step "k" 0, .step "k" 3,
      .step "k" 3]).step "k" 3).1 = 0 ∧
    ∃ found s' s'', gather Query.ask qs s = .ok (found, s') ∧
      (query list).ask s' = .ok ([Bindings.empty.bind "X" (.atom "a")], s'') := by
  intro list other s query qs
  have hvisit : ∀ l s₁, ∀ a ∈ (query l).visits s₁, a.cycled? = some l := by
    intro l s₁ a ha
    have hvisits : (query l).visits s₁ = [⟨pendingAt 0 (query l).goals, .empty, _⟩] :=
      visitsF_builtin rfl rfl 4611686018427387903 0 _
    rw [hvisits, List.mem_singleton] at ha
    rw [ha]
    rfl
  have huncrossed : Uncrossed list qs s := by
    refine ⟨by simp [qs, query], fun a ha t ht htext => ?_⟩
    obtain ⟨q, hq, s₁, hmem⟩ := mem_visitsOf ha
    have hqueries : q = query list ∨ q = query other := by
      simpa [qs, or_comm, or_left_comm] using hq
    obtain rfl | rfl := hqueries
    · exact Option.some.inj (ht.symm.trans (hvisit _ _ _ hmem))
    · obtain rfl := Option.some.inj (ht.symm.trans (hvisit _ _ _ hmem))
      exact absurd htext (by decide)
  have hcount : (visitsAll qs s).countP (Stage.turns list.text) = 2 := by decide +kernel
  have hzero : s.world.memory.counter list.text = 0 := rfl
  have hlength : (gather Query.ask qs s).toOption.map (fun r => r.1.length) = some 3 := by
    decide +kernel
  obtain ⟨⟨found, s'⟩, hasked, -⟩ := exists_ok hlength
  obtain ⟨hsteps, -, hcycles⟩ := cycles_wrap
  have hlist : Lists list [.atom "a", .atom "b"] := ⟨rfl, rfl, List.cons_ne_nil _ _⟩
  obtain ⟨s'', hask⟩ := (hcycles list _ hlist qs s huncrossed).2 found s' hasked (query list) "X"
    rfl rfl rfl
  rw [hcount, hzero] at hask
  refine ⟨?_, found, s', s'', hasked, hask⟩
  exact (hsteps [] _ "k" 3 (by decide) (by simp) (by simp) _ (.inl rfl)).trans rfl

end RhythmLogic
