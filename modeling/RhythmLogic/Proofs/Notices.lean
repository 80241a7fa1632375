/-
**Notices: what was told stays told.**

A search tells its notices on top of those that it starts with, and the builtins do the same: what a
builtin is given to read, and may change, holds all notices, but it only adds to them.  So what a
search told is the front of what has been told after it.  The mark that the depth limit was hit is
set together with a notice that says so; a search that did not tell of the limit has not hit it.

Main definitions:

* `Notice.isDepthLimit` — a call was nested too deep;
* `Progress.told` — what was told from one progress to a later one;
* `Builtin.OnlyTells`, `Knowledge.OnlyTells` — **builtins take no notice back**;
* `Progress.Adds` — notices are added, and the mark comes with its notice.

Main results:

* `onlyTells_of_mem_standard` — no standard builtin takes a notice back;
* `solveF_adds` — no search does;
* `Progress.Adds.warned_eq_false` — **where the limit was not told, the mark is not set**.
-/

import RhythmLogic.Proofs.Changes
import RhythmLogic.Proofs.Parametric

set_option autoImplicit false

namespace RhythmLogic

variable {k : Knowledge} {s s' : Progress}

/-! ### What was told -/

/-- The notice tells of a call that was nested too deep. -/
def Notice.isDepthLimit : Notice → Bool
  | .depthLimit .. => true
  | _ => false

/-- **What was told** from `s` to a later progress `s'`, newest first. -/
def Progress.told (s s' : Progress) : List Notice :=
  s'.world.notices.take (s'.world.notices.length - s.world.notices.length)

/-- What was added is what was told. -/
theorem Progress.told_eq {told : List Notice}
    (h : s'.world.notices = told ++ s.world.notices) : s.told s' = told := by
  simp [Progress.told, h]

/-! ### Builtins -/

/-- A builtin takes no notice back: it tells on top of what was told. -/
def Builtin.OnlyTells (b : Builtin) : Prop :=
  ∀ (bpm : Float) (args : List Term) (e : Bindings) (w : World),
    ∃ told, (b.call bpm args e w).world.notices = told ++ w.notices

/-- No builtin of the table takes a notice back. -/
def Knowledge.OnlyTells (k : Knowledge) : Prop := ∀ b ∈ k.builtins.builtins, b.OnlyTells

/-- The same notices on top of given ones, and all else alike. -/
structure World.Onto (before before' : List Notice) (w w' : World) : Prop where
  memory : w.memory = w'.memory
  chance : w.chance = w'.chance
  notices : ∃ told, w.notices = told ++ before ∧ w'.notices = told ++ before'

/-- **No builtin sees what was told before.** -/
theorem seenAlike_onto (before before' : List Notice) :
    Body.SeenAlike (World.Onto before before') where
  tells n w w' h := by
    obtain ⟨told, hw, hw'⟩ := h.notices
    refine ⟨h.memory, h.chance, n :: told, ?_, ?_⟩
    · exact congrArg (List.cons n) hw
    · exact congrArg (List.cons n) hw'
  memory h := h.memory
  chance h := h.chance
  setMemory h _ := ⟨rfl, h.chance, h.notices⟩
  setChance h _ := ⟨h.memory, rfl, h.notices⟩

/-- **No standard builtin takes a notice back,** also none of those that remember or draw. -/
theorem onlyTells_of_mem_standard : ∀ b ∈ Builtin.standard, b.OnlyTells := by
  intro b hb bpm args e w
  have hkeeps : b.Keeps Eq Eq (World.Onto w.notices w.notices) :=
    keeps_of_mem_standard matching_eq (seenAlike_onto _ _) (fun _ _ h => h) b hb
  have hstart : World.Onto w.notices w.notices w w := ⟨rfl, rfl, [], rfl, rfl⟩
  obtain ⟨-, hend, -⟩ :=
    hkeeps bpm args args e e (List.forall₂_same.2 fun _ _ => rfl) rfl ⟨w, []⟩ ⟨w, []⟩ hstart .nil
  obtain ⟨told, htold, -⟩ := hend.notices
  exact ⟨told, htold⟩

/-! ### Searches -/

/-- **Notices are added, and the mark comes with its notice**: where the mark that the limit was hit
is set now, it was set before or was told of since. -/
def Progress.Adds (s s' : Progress) : Prop :=
  ∃ told, s'.world.notices = told ++ s.world.notices ∧
    (s'.warned = true → s.warned = true ∨ ∃ n ∈ told, n.isDepthLimit = true)

/-- Where only notices are added, the mark stays as it is. -/
theorem Progress.Adds.of_warned_eq (told : List Notice) (hwarned : s'.warned = s.warned)
    (h : s'.world.notices = told ++ s.world.notices) : s.Adds s' :=
  ⟨told, h, fun hs' => .inl (hwarned ▸ hs')⟩

theorem Progress.Adds.trans {s₁ s₂ : Progress} (h : s.Adds s₁) (h' : s₁.Adds s₂) :
    s.Adds s₂ := by
  obtain ⟨told, htold, hwarned⟩ := h
  obtain ⟨told', htold', hwarned'⟩ := h'
  refine ⟨told' ++ told, ?_, fun hs₂ => ?_⟩
  · rw [htold', htold, List.append_assoc]
  · rcases hwarned' hs₂ with hs₁ | ⟨n, hn, hlimit⟩
    · rcases hwarned hs₁ with hs | ⟨n, hn, hlimit⟩
      · exact .inl hs
      · exact .inr ⟨n, List.mem_append_right _ hn, hlimit⟩
    · exact .inr ⟨n, List.mem_append_left _ hn, hlimit⟩

/-- A call that is nested too deep sets the mark, and is told if the mark was not set. -/
theorem Progress.adds_prune (s : Progress) (limit : Nat) (call : Term) :
    s.Adds (prune limit call s) := by
  rw [prune]
  split
  · exact .of_warned_eq [] rfl rfl
  · exact ⟨[.depthLimit limit call], rfl, fun _ => .inr ⟨_, List.mem_singleton_self _, rfl⟩⟩

/-- **What a search does only adds notices,** where builtins do. -/
theorem allows_adds (hk : k.OnlyTells) : Allows k Progress.Adds where
  refl s := .of_warned_eq [] rfl rfl
  trans := Progress.Adds.trans
  trial s := .of_warned_eq [] rfl rfl
  tell s n := .of_warned_eq [n] rfl rfl
  prune := Progress.adds_prune
  builtin hb args e s := by
    obtain ⟨told, htold⟩ := hk _ (List.mem_of_find?_eq_some hb) k.bpm args e s.world
    exact .of_warned_eq told rfl htold

/-- **No search takes a notice back.** -/
theorem solveF_adds (hk : k.OnlyTells) (fuel : Nat) (goals : List Pending) (e : Bindings) :
    Moves Progress.Adds (solveF k fuel goals e) := solveF_moves (allows_adds hk) fuel goals e

/-- **Where the limit was not told, the mark is not set.** -/
theorem Progress.Adds.warned_eq_false (h : s.Adds s') (hs : s.warned = false)
    (hquiet : ∀ n ∈ s.told s', n.isDepthLimit = false) : s'.warned = false := by
  obtain ⟨told, htold, hwarned⟩ := h
  rw [Progress.told_eq htold] at hquiet
  rw [← Bool.not_eq_true]
  intro hs'
  rcases hwarned hs' with hmark | ⟨n, hn, hlimit⟩
  · exact Bool.false_ne_true (hs.symm.trans hmark)
  · exact Bool.false_ne_true ((hquiet n hn).symm.trans hlimit)

end RhythmLogic
