/-
**Counters that turn, each by itself.**

A memory has a counter for each key.  Stepping one of them moves it around a cycle, of a length that
is given anew at every step; nothing else that is done to the memory moves it.  So what a counter
gives can be told from the steps that were made under its key alone.  It is the number of these
steps, counted around, as long as the length stays.

A builtin moves a counter in one way only: it is `cycle`, and its list has the key as its text.

Main definitions:

* `Memory.Deed`, `Memory.performs` — what is done to a memory, one thing after the other;
* `Memory.Deed.turns` — a step under a key, of a cycle that is not empty;
* `Body.Leaves` — a run of a builtin that leaves a counter where it stands.

Main results:

* `Memory.counter_performs` — **a counter counts its steps, around the cycle**;
* `Builtin.counter_cycle` — a cycle steps the counter for the text of its list;
* `Builtin.counter_call` — **no other call of a standard builtin moves a counter**.
-/

import RhythmLogic.Proofs.Refusals

set_option autoImplicit false

namespace RhythmLogic

variable {key : String}

/-! ### Deeds -/

namespace Memory

/-- **What is done to a memory.**  What is only read of it changes nothing. -/
inductive Deed where
  | reset
  | step (key : String) (length : ℕ)
  | setTime (key : String) (time : Float)

/-- The memory after a deed. -/
def perform (m : Memory) : Deed → Memory
  | .reset => .empty
  | .step key length => (m.step key length).2
  | .setTime key time => m.setTime key time

/-- The memory after several deeds. -/
def performs (m : Memory) (deeds : List Deed) : Memory := deeds.foldl perform m

/-- A step under a key, of a cycle that is not empty. -/
def Deed.turns (key : String) : Deed → Bool
  | step other length => other == key && length != 0
  | _ => false

variable {n : ℕ} {m : Memory}

theorem step_fst (m : Memory) (key : String) (n : ℕ) :
    (m.step key n).1 = if n = 0 then 0 else m.counter key % n := by
  rw [step]
  split <;> rfl

/-- A cycle of length zero has no counter. -/
theorem step_zero (m : Memory) (key : String) : m.step key 0 = (0, m) := rfl

/-- **A step moves the counter of its key** to the next place. -/
theorem counter_step_self (m : Memory) (key : String) (hn : 0 < n) :
    (m.step key n).2.counter key = (m.counter key % n + 1) % n := by
  rw [step, if_neg (by omega)]
  simp only [counter, Keyed.get?_put_self, Option.getD_some]

/-- It moves no other counter. -/
theorem counter_step_of_ne (m : Memory) {other : String} (h : key ≠ other) (n : ℕ) :
    (m.step other n).2.counter key = m.counter key := by
  rw [step]
  split
  · rfl
  · simp only [counter, Keyed.get?_put_of_ne _ _ h]

/-- **What is no step under a key, and no reset, leaves its counter where it stands.** -/
theorem counter_perform {d : Deed} (hreset : d ≠ .reset) (h : d.turns key = false) :
    (m.perform d).counter key = m.counter key := by
  cases d with
  | reset => exact absurd rfl hreset
  | setTime => rfl
  | step other length =>
      by_cases hkey : other = key
      · subst hkey
        have hzero : length = 0 := by simpa [Deed.turns] using h
        subst hzero
        rfl
      · exact counter_step_of_ne m (Ne.symm hkey) length

/-- **A counter counts its steps, around the cycle**, while the length stays. -/
theorem counter_performs (hn : 0 < n) {deeds : List Deed} (hreset : .reset ∉ deeds)
    (hlength : ∀ length, .step key length ∈ deeds → length = 0 ∨ length = n) (m : Memory) :
    (m.performs deeds).counter key % n = (m.counter key + deeds.countP (Deed.turns key)) % n := by
  induction deeds generalizing m with
  | nil => rfl
  | cons d deeds ih =>
      rw [List.mem_cons, not_or] at hreset
      have hrest : (m.performs (d :: deeds)).counter key % n =
          ((m.perform d).counter key + deeds.countP (Deed.turns key)) % n :=
        ih hreset.2 (fun length h => hlength length (.tail _ h)) (m.perform d)
      rw [hrest, List.countP_cons]
      cases hturns : d.turns key with
      | false => simp only [counter_perform (Ne.symm hreset.1) hturns, Bool.false_eq_true, if_false,
          Nat.add_zero]
      | true =>
          -- it is a step of the length that stays
          obtain ⟨rfl⟩ : d = .step key n := by
            cases d with
            | reset | setTime => cases hturns
            | step other length =>
                obtain ⟨rfl, hpos⟩ : other = key ∧ length ≠ 0 := by simpa [Deed.turns] using hturns
                rw [(hlength length List.mem_cons_self).resolve_left hpos]
          have hstep : (m.perform (.step key n)).counter key = (m.counter key % n + 1) % n :=
            counter_step_self m key hn
          rw [hstep, if_pos rfl, Nat.mod_add_mod, Nat.add_assoc, Nat.mod_add_mod,
            Nat.add_comm 1]

end Memory

/-! ### Builtins -/

namespace Body

variable {α β : Type} {b : Body α}

/-- **The run leaves a counter where it stands.** -/
def Leaves (key : String) (b : Body α) : Prop :=
  ∀ s, (b s).2.world.memory.counter key = s.world.memory.counter key

namespace Leaves

theorem pure (a : α) : Leaves key (pure a : Body α) := fun _ => rfl

theorem halt (cause : Halt) : Leaves key (halt cause : Body α) := fun _ => rfl

theorem refuse (error : ArgumentError) : Leaves key (refuse error : Body α) := fun _ => rfl

theorem bind {f : α → Body β} (hb : b.Leaves key) (hf : ∀ a, (f a).Leaves key) :
    (b >>= f).Leaves key := by
  intro s
  rw [bind_apply]
  have hfirst := hb s
  rcases hrun : b s with ⟨stop | a, s₁⟩ <;> rw [hrun] at hfirst
  · exact hfirst
  · exact (hf a s₁).trans hfirst

theorem ite {c : Prop} [Decidable c] {b b' : Body α} (hb : b.Leaves key) (hb' : b'.Leaves key) :
    (if c then b else b').Leaves key := by
  split
  · exact hb
  · exact hb'

/-- An argument is read. -/
theorem read {f : α → Body β} (hb : b.Reads) (hf : ∀ a, (f a).Leaves key) :
    (b >>= f).Leaves key := by
  obtain ⟨a, rfl⟩ | ⟨error, rfl⟩ := hb
  · exact hf a
  · exact .refuse error

theorem machine (o : Option α) : (machine o).Leaves key := by
  cases o with
  | none => exact .halt .arithmetic
  | some a => exact .pure a

theorem succeedIf (test : Bool) (e : Bindings) : (succeedIf test e).Leaves key :=
  .ite (fun _ => rfl) (.pure ())

theorem unifyInto (e : Bindings) (s t : Term) : (unifyInto e s t).Leaves key := by
  simp only [Body.unifyInto]
  split
  · exact fun _ => rfl
  · exact .pure ()
  · exact .halt _

/-- Another counter is stepped. -/
theorem stepCounter {other : String} (h : key ≠ other) (length : ℕ) :
    (stepCounter other length).Leaves key := by
  intro s
  rw [stepCounter_of_step rfl]
  exact Memory.counter_step_of_ne _ h length

theorem drawUnit : drawUnit.Leaves key := by
  intro s
  rcases h : s.world.chance.unit with ⟨x, chance⟩
  rw [drawUnit_of_unit h]

theorem drawBelow (bound : ℕ) : (drawBelow bound).Leaves key := by
  intro s
  rcases h : s.world.chance.below bound with _ | ⟨n, chance⟩
  · rw [drawBelow_none h]
  · rw [drawBelow_some h]

end Leaves

end Body

namespace Builtin

open Body

variable {bpm : Float} {args : List Term} {e : Bindings} {w : World}

/-- A cycle through a list with another text. -/
theorem cycle_leaves (h : ∀ list out, args = [list, out] → list.text ≠ key) :
    (cycle.run bpm args e).Leaves key := by
  rcases args with _ | ⟨list, _ | ⟨out, _ | ⟨_, _⟩⟩⟩
  case cons.cons.nil =>
    refine .read (reads_properList e list) fun items => .ite (.pure ()) ?_
    exact (Leaves.stepCounter (h list out rfl).symm _).bind fun place =>
      (Leaves.machine _).bind fun item => .unifyInto e out item
  all_goals exact .halt _

theorem pick_leaves : (pick.run bpm args e).Leaves key := by
  rcases args with _ | ⟨list, _ | ⟨out, _ | ⟨_, _⟩⟩⟩
  case cons.cons.nil =>
    refine .read (reads_properList e list) fun items => .ite (.pure ()) ?_
    exact (Leaves.drawBelow _).bind fun place => (Leaves.machine _).bind fun item =>
      .unifyInto e out item
  all_goals exact .halt _

theorem probability_leaves : (probability.run bpm args e).Leaves key := by
  rcases args with _ | ⟨a, _ | ⟨_, _⟩⟩
  case cons.nil =>
    exact .read (reads_number e a) fun p => Leaves.drawUnit.bind fun x => .succeedIf _ e
  all_goals exact .halt _

theorem uniform_leaves : (uniform.run bpm args e).Leaves key := by
  rcases args with _ | ⟨a, _ | ⟨b, _ | ⟨out, _ | ⟨_, _⟩⟩⟩⟩
  case cons.cons.cons.nil =>
    exact .read (reads_number e a) fun lo => .read (reads_number e b) fun hi =>
      Leaves.drawUnit.bind fun x => .unifyInto e out _
  all_goals exact .halt _

theorem uniformWhole_leaves : (uniformWhole.run bpm args e).Leaves key := by
  rcases args with _ | ⟨a, _ | ⟨b, _ | ⟨out, _ | ⟨_, _⟩⟩⟩⟩
  case cons.cons.cons.nil =>
    refine .read (reads_number e a) fun x => .read (reads_number e b) fun y => ?_
    exact (Leaves.machine _).bind fun difference => (Leaves.drawBelow _).bind fun n =>
      (Leaves.machine _).bind fun value => .unifyInto e out _
  all_goals exact .halt _

/-- A cycle through a list that has items. -/
theorem run_cycle {list out : Term} {items : List Term} (h : e.subst list = .list items)
    (hne : items ≠ []) :
    cycle.run bpm [list, out] e =
      (stepCounter list.text items.length >>= fun place =>
        machine items[place % items.length]? >>= fun item => unifyInto e out item) := by
  simp only [cycle, properList, h, pure_bind, List.isEmpty_iff, hne, if_false]

/-- **It steps the counter for the text of the list**, whatever its output is. -/
theorem counter_cycle {list out : Term} {items : List Term} (h : e.subst list = .list items)
    (hne : items ≠ []) :
    (cycle.call bpm [list, out] e w).world.memory.counter list.text =
      (w.memory.counter list.text % items.length + 1) % items.length := by
  have hafter : ∀ place, Leaves list.text (machine items[place % items.length]? >>= fun item =>
      unifyInto e out item) :=
    fun _ => (Leaves.machine _).bind fun item => .unifyInto e out item
  have hrun : (cycle.run bpm [list, out] e ⟨w, []⟩).2.world.memory.counter list.text =
      (w.memory.step list.text items.length).2.counter list.text := by
    rw [run_cycle h hne, bind_apply, stepCounter_of_step rfl]
    exact hafter _ _
  exact hrun.trans (Memory.counter_step_self _ _ (List.length_pos_iff.2 hne))

/-- **A standard builtin leaves a counter where it stands**, unless it is a cycle through a list whose
text is the key. -/
theorem counter_call {b : Builtin} (hb : b ∈ standard)
    (hcycle : b = cycle → ∀ list out, args = [list, out] → list.text ≠ key) :
    (b.call bpm args e w).world.memory.counter key = w.memory.counter key := by
  -- of the world after a builtin that keeps matchings only the counter is looked at
  let W : World → World → Prop := fun after _ => after.memory.counter key = w.memory.counter key
  obtain hunsteady | hkeeps := unsteady_or_keeps matching_eq (W := W) (fun _ _ _ h => h) b hb
  · have hleaves : (b.run bpm args e).Leaves key := by
      simp only [unsteady, List.mem_cons, List.not_mem_nil, or_false] at hunsteady
      obtain rfl | rfl | rfl | rfl | rfl := hunsteady
      · exact cycle_leaves (hcycle rfl)
      · exact pick_leaves
      · exact probability_leaves
      · exact uniform_leaves
      · exact uniformWhole_leaves
    exact hleaves ⟨w, []⟩
  · have hagree := hkeeps bpm args args e e (List.forall₂_same.2 fun _ _ => rfl) rfl
    exact (hagree ⟨w, []⟩ ⟨w, []⟩ rfl .nil).2.1

end Builtin

end RhythmLogic
