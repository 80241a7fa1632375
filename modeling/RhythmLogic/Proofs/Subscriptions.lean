/-
**Who is subscribed after a history.**

Subscribers come and go.  Whether one is still there is told by what happened after it came: it stays
until its handle is removed, whoever else comes or goes.  The table of subscribers knows nothing of
this; it is filtered each time that a handle is removed.  Both ways come to the same subscribers, in
the same order.

Main definitions:

* `Enrolment`, `Subscribers.after` — a subscriber comes or a handle is removed, and the table after
  a history of these;
* `staying` — **those who came and whose handle was not removed since**.

Main results:

* `entries_after` — the table holds those who stay, and nobody else;
* `staying_pairwise` — the handles of those who stay are ascending, so no two are the same, as long
  as fewer come than there are handles.
-/

import RhythmLogic.Subscribers
import Mathlib.Data.List.Basic

set_option autoImplicit false

namespace RhythmLogic

variable {τ : Type}

/-- A subscriber comes, or the one with a handle is removed. -/
inductive Enrolment (τ : Type) where
  | join (tag : τ)
  | leave (handle : Nat)

/-- A subscriber comes. -/
def Enrolment.joins : Enrolment τ → Bool
  | join _ => true
  | leave _ => false

/-- The handle is removed. -/
def Enrolment.leaves (handle : Nat) : Enrolment τ → Bool
  | join _ => false
  | leave other => other == handle

namespace Subscribers

/-- The subscribers after one of them came or was removed. -/
def enrol (s : Subscribers τ) : Enrolment τ → Subscribers τ
  | .join tag => (s.add tag).2
  | .leave handle => (s.remove handle).2

/-- The subscribers after a history, the first enrolment first. -/
def after (s : Subscribers τ) (history : List (Enrolment τ)) : Subscribers τ :=
  history.foldl enrol s

end Subscribers

/-- **Those who stay**: everyone who came and whose handle was not removed later, in the order in
which they came.  Handles are counted from `next` on. -/
def staying (next : Nat) : List (Enrolment τ) → List (Nat × τ)
  | [] => []
  | .join tag :: later =>
      if later.any (Enrolment.leaves next) then staying (Subscribers.following next) later
      else (next, tag) :: staying (Subscribers.following next) later
  | .leave _ :: later => staying next later

/-- **The table holds those who stay**: those who were there before, unless their handle was removed,
and behind them those who came. -/
theorem Subscribers.entries_after (s : Subscribers τ) (history : List (Enrolment τ)) :
    (s.after history).entries =
      s.entries.filter (fun entry => !history.any (Enrolment.leaves entry.1)) ++
        staying s.next history := by
  induction history generalizing s with
  | nil => simp [after, staying]
  | cons a later ih =>
      have hstep : s.after (a :: later) = (s.enrol a).after later := rfl
      rw [hstep, ih]
      cases a with
      | join tag =>
          have hkept : ∀ entry : Nat × τ, (Enrolment.join tag :: later).any
              (Enrolment.leaves entry.1) = later.any (Enrolment.leaves entry.1) := fun _ => rfl
          simp only [enrol, add, List.filter_append, List.append_assoc, hkept, staying]
          -- the one who comes now is kept by the same test
          by_cases hleaves : later.any (Enrolment.leaves s.next) = true <;> simp [hleaves]
      | leave handle =>
          simp only [enrol, remove, List.filter_filter, staying, List.any_cons, Enrolment.leaves]
          congr 2
          funext entry
          rw [Bool.not_or, Bool.and_comm, bne_comm]
          rfl

/-- **Removing a handle tells whether it was there.** -/
theorem Subscribers.remove_fst (s : Subscribers τ) (handle : Nat) :
    (s.remove handle).1 = true ↔ ∃ tag, (handle, tag) ∈ s.entries := by
  have hkept : (s.entries.filter fun entry => entry.1 != handle).length = s.entries.length ↔
      ∀ entry ∈ s.entries, (entry.1 != handle) = true := List.length_filter_eq_length_iff
  rw [remove, bne_iff_ne, ne_eq, hkept]
  simp

/-- After one who comes there is a handle less to give. -/
theorem following_of_joins {next : Nat} {tag : τ} {later : List (Enrolment τ)}
    (h : next + (Enrolment.join tag :: later).countP Enrolment.joins < 4294967296) :
    Subscribers.following next = next + 1 ∧
      next + 1 + later.countP Enrolment.joins < 4294967296 := by
  rw [List.countP_cons_of_pos rfl] at h
  exact ⟨Subscribers.following_of_lt (by omega), by omega⟩

/-- Those who come have handles from the next one on, as long as there are some. -/
theorem le_of_mem_staying {next : Nat} {history : List (Enrolment τ)} {entry : Nat × τ}
    (hbound : next + history.countP Enrolment.joins < 4294967296)
    (h : entry ∈ staying next history) : next ≤ entry.1 := by
  induction history generalizing next with
  | nil => cases h
  | cons a later ih =>
      cases a with
      | join tag =>
          obtain ⟨hnext, hlater⟩ := following_of_joins hbound
          rw [staying, hnext] at h
          split at h
          · exact Nat.le_of_succ_le (ih hlater h)
          · rcases List.mem_cons.1 h with rfl | h
            · exact Nat.le_refl next
            · exact Nat.le_of_succ_le (ih hlater h)
      | leave handle => exact ih hbound h

/-- **The handles of those who stay are ascending**, as long as there are some to give. -/
theorem staying_pairwise {next : Nat} {history : List (Enrolment τ)}
    (hbound : next + history.countP Enrolment.joins < 4294967296) :
    (staying next history).Pairwise fun a b => a.1 < b.1 := by
  induction history generalizing next with
  | nil => exact .nil
  | cons a later ih =>
      cases a with
      | join tag =>
          obtain ⟨hnext, hlater⟩ := following_of_joins hbound
          rw [staying, hnext]
          split
          · exact ih hlater
          · exact .cons (fun _ hentry => le_of_mem_staying hlater hentry) (ih hlater)
      | leave handle => exact ih hbound

end RhythmLogic
