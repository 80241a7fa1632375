/-
**Blank characters, trimming and splitting.**

Blank means the Unicode property `White_Space`, wherever text is trimmed, split or skipped.

Main definitions:

* `isBlank` — the property;
* `trimStart`, `trimBlank` — text without the blanks at its ends;
* `words` — the runs of characters that are not blank.
-/

set_option autoImplicit false

namespace RhythmLogic

/-- The Unicode property `White_Space`. -/
def isBlank (c : Char) : Bool :=
  let n := c.toNat
  (9 ≤ n && n ≤ 13) || n == 0x20 || n == 0x85 || n == 0xa0 || n == 0x1680 ||
    (0x2000 ≤ n && n ≤ 0x200a) || n == 0x2028 || n == 0x2029 || n == 0x202f || n == 0x205f ||
    n == 0x3000

/-- Text without the blanks at its start. -/
def trimStart (cs : List Char) : List Char := cs.dropWhile isBlank

/-- Text without the blanks at its end. -/
def trimEnd (cs : List Char) : List Char := (trimStart cs.reverse).reverse

/-- **Text without the blanks at either end.** -/
def trimBlank (cs : List Char) : List Char := trimEnd (trimStart cs)

/-- The words of a text: `current` holds the word being read, last character first. -/
def wordsFrom (current : List Char) : List Char → List (List Char)
  | [] => if current.isEmpty then [] else [current.reverse]
  | c :: cs =>
      if isBlank c then
        if current.isEmpty then wordsFrom [] cs else current.reverse :: wordsFrom [] cs
      else wordsFrom (c :: current) cs

/-- **The words of a text:** the longest runs of characters that are not blank. -/
def words (cs : List Char) : List (List Char) := wordsFrom [] cs

end RhythmLogic
