/-
**Ranges of code points.**

A property of characters is a table of closed ranges, ascending and apart from each other, so that a
search may stop at the first range beyond the character.

Main definitions:

* `Ascends`, `RangeTable` — ranges in order, and tables of such ranges;
* `RangeTable.covers` — a character lies in one of the ranges.

Main result:

* `RangeTable.covers_eq_any` — **the search finds what lies in a range**, though it stops early.
-/

set_option autoImplicit false

namespace RhythmLogic

/-- The ranges ascend and are apart, and the first one starts at `low` or later. -/
def Ascends (low : Nat) : List (Nat × Nat) → Bool
  | [] => true
  | (first, last) :: rest => low ≤ first && first ≤ last && Ascends (last + 2) rest

/-- **A table of closed ranges of code points**: the first and the last one of each, in order. -/
structure RangeTable where
  ranges : List (Nat × Nat)
  ascends : Ascends 0 ranges = true := by decide +kernel

namespace RangeTable

/-- A code point lies in one of the ranges. -/
def coversCode (n : Nat) : List (Nat × Nat) → Bool
  | [] => false
  | (first, last) :: rest => first ≤ n && (n ≤ last || coversCode n rest)

/-- **A character lies in one of the ranges.** -/
def covers (t : RangeTable) (c : Char) : Bool := coversCode c.toNat t.ranges

/-- Before the first range nothing is covered. -/
theorem coversCode_eq_false_of_lt {n low : Nat} {ranges : List (Nat × Nat)}
    (h : Ascends low ranges = true) (hn : n < low) : coversCode n ranges = false := by
  cases ranges with
  | nil => rfl
  | cons r rest =>
    obtain ⟨first, last⟩ := r
    simp only [Ascends, Bool.and_eq_true, decide_eq_true_eq] at h
    have hf : ¬ first ≤ n := by omega
    simp [coversCode, hf]

theorem coversCode_eq_any {n low : Nat} {ranges : List (Nat × Nat)}
    (h : Ascends low ranges = true) :
    coversCode n ranges = ranges.any fun r => r.1 ≤ n && n ≤ r.2 := by
  induction ranges generalizing low with
  | nil => rfl
  | cons r rest ih =>
    obtain ⟨first, last⟩ := r
    simp only [Ascends, Bool.and_eq_true, decide_eq_true_eq] at h
    obtain ⟨⟨_, hle⟩, hrest⟩ := h
    have hnext := ih hrest
    simp only [List.any_cons, coversCode]
    by_cases hf : first ≤ n
    · simp [hf, hnext]
    · have hnone : coversCode n rest = false := coversCode_eq_false_of_lt hrest (by omega)
      simp [hf, ← hnext, hnone]

/-- **The search finds what lies in a range,** though it stops early. -/
theorem covers_eq_any (t : RangeTable) (c : Char) :
    t.covers c = t.ranges.any fun r => r.1 ≤ c.toNat && c.toNat ≤ r.2 :=
  coversCode_eq_any t.ascends

end RangeTable

end RhythmLogic
