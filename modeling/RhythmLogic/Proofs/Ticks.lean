/-
**Ticks: which program is asked, and when.**

What a tick of the transport does to the program is that it asks it for events at some grid times.
Which times these are, and which program it is, can be read off the state before the tick, and
nothing that is answered changes it: a grid time that is dispatched changes the memory, the chance
and the output, and what was dispatched last.

Main definitions:

* `Asking` — a grid time that a program is asked for, and the tick that asks;
* `Transport.asks` — what a tick asks;
* `Dispatches` — grid times that are asked for, one after the other.

Main results:

* `tickAt_dispatches` — **a tick dispatches what it asks**, in order, and nothing else;
* `tickAt_state` — what a tick leaves as it was.
-/

import RhythmLogic.Transport.Basic

set_option autoImplicit false

namespace RhythmLogic

variable {α : Type} [Quantity α]

/-- **A grid time that a program is asked for**, and the time of the tick that asks. -/
structure Asking (α : Type) where
  now : α
  program : Program
  time : α

/-- **What a tick asks**: the program that plays, at the grid times that are due. -/
def Transport.asks (s : Transport α) (now : α) : List (Asking α) :=
  if s.running then
    match s.program with
    | none => []
    | some p => ((s.timing.gridTimes s.last now).getD []).map fun t => ⟨now, p, t⟩
  else []

/-- **Grid times that are asked for**, one after the other, and what they come to. -/
inductive Dispatches : List (Asking α) → Transport α → Step (Transport α) Nat → Prop where
  | nil (s : Transport α) : Dispatches [] s ⟨s, 0, []⟩
  | cons {a : Asking α} {asked : List (Asking α)} {s : Transport α}
      {first more : Step (Transport α) Nat} :
      Transport.dispatch s a.program a.time = .ok first → Dispatches asked first.state more →
      Dispatches (a :: asked) s
        ⟨more.state, first.result + more.result, first.signals ++ more.signals⟩

namespace Transport

variable {s : Transport α} {p : Program} {t now : α} {played tick : Step (Transport α) Nat}
  {asked : List (Asking α)}

theorem dispatchAll_dispatches (now : α) {times : List α}
    (h : dispatchAll p times s = .ok played) :
    Dispatches (times.map fun t => ⟨now, p, t⟩) s played := by
  induction times generalizing s played with
  | nil =>
      cases h
      exact .nil s
  | cons t times ih =>
      simp only [dispatchAll] at h
      split at h
      · cases h
      next first hfirst =>
      split at h
      · cases h
      next more hmore =>
      cases h
      exact .cons hfirst (ih hmore)

theorem asks_of_plays {times : List α} (hruns : s.running = true) (hp : s.program = some p)
    (htimes : s.timing.gridTimes s.last now = some times) :
    s.asks now = times.map fun t => ⟨now, p, t⟩ := by
  simp only [asks, if_pos hruns, hp, htimes, Option.getD_some]

theorem asks_of_stands (hruns : s.running = false) : s.asks now = [] := by
  simp [asks, hruns]

theorem asks_of_program_none (hp : s.program = none) : s.asks now = [] := by
  simp [asks, hp]

/-- **A tick dispatches what it asks,** after the beat was noted. -/
theorem tickAt_dispatches (h : s.tickAt now = .ok tick) :
    ∃ beat played, Dispatches (s.asks now) { s with beat := beat } played ∧
      tick.state = played.state ∧ tick.result = played.result := by
  simp only [tickAt] at h
  split at h
  · next hstands =>
      cases h
      rw [asks_of_stands (by simpa using hstands)]
      exact ⟨s.beat, _, .nil s, rfl, rfl⟩
  next hruns =>
  split at h
  · next hnone =>
      cases h
      rw [asks_of_program_none hnone]
      exact ⟨_, _, .nil _, rfl, rfl⟩
  next p hp =>
  split at h
  · cases h
  next times htimes =>
  split at h
  · cases h
  next played hplayed =>
  cases h
  rw [asks_of_plays (by simpa using hruns) hp htimes]
  exact ⟨_, played, dispatchAll_dispatches now hplayed, rfl, rfl⟩

/-- A grid time changes what plays in no other way than this. -/
theorem dispatch_state (h : dispatch s p t = .ok played) : ∃ output memory chance,
    played.state =
      { s with output := output, memory := memory, chance := chance, last := some t } := by
  simp only [dispatch] at h
  split at h
  · cases h
  · cases h
    exact ⟨_, _, _, rfl⟩

end Transport

/-- Grid times change what plays in no other way than this: the last of them was dispatched. -/
theorem Dispatches.state {asked : List (Asking α)} {s : Transport α}
    {played : Step (Transport α) Nat} (h : Dispatches asked s played) :
    ∃ output memory chance, played.state =
      { s with output := output, memory := memory, chance := chance,
               last := (asked.map Asking.time).getLast?.or s.last } := by
  induction h with
  | nil s => exact ⟨s.output, s.memory, s.chance, rfl⟩
  | @cons a asked s first more hfirst _ ih =>
      obtain ⟨output, memory, chance, hstate⟩ := Transport.dispatch_state hfirst
      obtain ⟨output', memory', chance', hmore⟩ := ih
      refine ⟨output', memory', chance', hmore.trans ?_⟩
      rw [hstate, List.map_cons, List.getLast?_cons]
      cases (asked.map Asking.time).getLast? <;> rfl

/-- **What a tick leaves as it was**: all but the output, what builtins remember and draw, the beat
and the last grid time. -/
theorem Transport.tickAt_state {s : Transport α} {now : α} {tick : Step (Transport α) Nat}
    (h : s.tickAt now = .ok tick) : ∃ output memory chance beat, tick.state =
      { s with output := output, memory := memory, chance := chance, beat := beat,
               last := ((s.asks now).map Asking.time).getLast?.or s.last } := by
  obtain ⟨beat, played, hdispatches, hstate, -⟩ := tickAt_dispatches h
  obtain ⟨output, memory, chance, hplayed⟩ := hdispatches.state
  exact ⟨output, memory, chance, beat, hstate.trans hplayed⟩

end RhythmLogic
