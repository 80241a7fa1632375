/-
**Texts that spell tokens.**

The scanner takes the longest lexeme that starts where it is, so the tokens of a text put together
from two are not always those of the two texts: a name goes on over another name, a numeral over
digits, and over a period with a digit behind it.  A text *spells* a row of tokens if it is scanned
as that row before everything at which names and numerals stop.  The marks between the parts of a
term, brackets, commas and operators, are read as they stand, and names and numerals stop at all of
them.

Main definitions:

* `Lexed` — the tokens of a text, without their places;
* `Stops` — names and numerals stop at the start of a text;
* `Spells` — a text is scanned as a row of tokens, before every text at which it stops;
* `Mark` — a text that is scanned as a row of tokens before every text, and at which names and
  numerals stop.

Main results:

* `Spells.mark`, `Mark.spells`, `Spells.between` — **texts put together**;
* `IsName.spells` — a name is one token;
* `numberText_spells` — **a finite number is a numeral**, perhaps with a minus before it, and its
  text as a whole is read as what the tokens say.
-/

import Mathlib
import RhythmLogic.Token.Scan

set_option autoImplicit false

namespace RhythmLogic

variable {c : Char} {cs ds rest : List Char} {ks ls ms more : List TokenKind} {k : TokenKind}
  {s t u : String}

/-! ### The tokens of a text -/

/-- **A text has these tokens**, from wherever it starts. -/
def Lexed (cs : List Char) (ks : List TokenKind) : Prop :=
  ∀ (fuel : ℕ) (p : Position), cs.length < fuel →
    ∃ tokens, tokenizeF fuel p cs = .ok tokens ∧ tokens.map Token.kind = ks

namespace Lexed

theorem nil : Lexed [] [.eof] := by
  intro fuel p hfuel
  obtain ⟨f, rfl⟩ : ∃ f, fuel = f + 1 := ⟨fuel - 1, by omega⟩
  exact ⟨[⟨.eof, p⟩], rfl, rfl⟩

/-- A blank says nothing. -/
theorem blank (hc : isBlank c = true) (h : Lexed cs ks) : Lexed (c :: cs) ks := by
  intro fuel p hfuel
  obtain ⟨f, rfl⟩ : ∃ f, fuel = f + 1 := ⟨fuel - 1, by omega⟩
  obtain ⟨tokens, htokens, hks⟩ := h (f + 1) (p.next c) (by simp at hfuel; omega)
  refine ⟨tokens, ?_, hks⟩
  rw [← htokens, tokenizeF, tokenizeF, skipTrivia, if_neg Bool.false_ne_true, if_pos hc]

/-- A lexeme is one token. -/
theorem lexeme (hblank : isBlank c = false) (hcomment : c ≠ '%')
    (hlexeme : lexemeAt c (cs ++ rest) = .ok ⟨k, c :: cs⟩) (h : Lexed rest ks) :
    Lexed (c :: cs ++ rest) (k :: ks) := by
  intro fuel p hfuel
  obtain ⟨f, rfl⟩ : ∃ f, fuel = f + 1 := ⟨fuel - 1, by omega⟩
  obtain ⟨tokens, htokens, hks⟩ := h f (p.advance (c :: cs)) (by simp at hfuel; omega)
  refine ⟨⟨k, p⟩ :: tokens, ?_, by rw [List.map_cons, hks]⟩
  have hskip : skipTrivia false p (c :: (cs ++ rest)) = (p, c :: (cs ++ rest)) := by
    rw [skipTrivia, if_neg Bool.false_ne_true, hblank, if_neg Bool.false_ne_true, if_neg hcomment]
  have hdrop : (c :: (cs ++ rest)).drop (c :: cs).length = rest := by simp
  rw [List.cons_append, tokenizeF, hskip]
  dsimp only
  rw [hlexeme]
  dsimp only
  rw [hdrop, htokens]

/-- A symbol that is found whatever follows it is one token. -/
theorem symbol (x : Sym) (hx : ∀ rest, symbolAt? (x.text.toList ++ rest) = some x)
    (h : Lexed rest ks) : Lexed (x.text.toList ++ rest) (.symbol x :: ks) := by
  obtain ⟨c, cs, htext⟩ : ∃ c cs, x.text.toList = c :: cs := by cases x <;> exact ⟨_, _, rfl⟩
  have hchar : isBlank c = false ∧ c ≠ '%' ∧ c.isDigit = false ∧ isNameStart c = false := by
    cases x <;> cases htext <;> decide
  obtain ⟨hblank, hcomment, hdigit, hstart⟩ := hchar
  have hfound := hx rest
  rw [htext, List.cons_append] at hfound
  rw [htext]
  refine .lexeme hblank hcomment ?_ h
  rw [lexemeAt, hdigit, if_neg Bool.false_ne_true, hstart, if_neg Bool.false_ne_true, hfound]
  dsimp only
  rw [htext]

end Lexed

/-! ### Texts that spell tokens -/

/-- **Names and numerals stop** at the start of a text. -/
def Stops : List Char → Prop
  | [] => True
  | c :: cs => isNameChar c = false ∧ (c = '.' → ∀ d ∈ cs.head?, d.isDigit = false)

/-- No name goes on at the start of a text. -/
theorem Stops.head_isNameChar (h : Stops cs) : ∀ d ∈ cs.head?, isNameChar d = false := by
  rcases cs with _ | ⟨c, cs⟩
  · exact nofun
  · rintro _ ⟨⟩
    exact h.1

/-- No row of digits goes on at the start of a text. -/
theorem Stops.head_isDigit (h : Stops cs) : ∀ d ∈ cs.head?, d.isDigit = false := by
  intro d hd
  have hname := h.head_isNameChar d hd
  simp only [isNameChar, Char.isAlphanum, Bool.or_eq_false_iff] at hname
  exact hname.1.2

/-- **A text is scanned as these tokens**, before every text at which it stops. -/
def Spells (s : String) (ks : List TokenKind) : Prop :=
  ∀ rest more, Stops rest → Lexed rest more → Lexed (s.toList ++ rest) (ks ++ more)

/-- **A mark** is scanned as its tokens before every text, and names and numerals stop at it. -/
structure Mark (s : String) (ks : List TokenKind) : Prop where
  stops : ∀ rest, Stops (s.toList ++ rest)
  lexed : ∀ rest more, Lexed rest more → Lexed (s.toList ++ rest) (ks ++ more)

theorem spells_empty : Spells "" [] := fun _ _ _ h => h

/-- A text with a mark after it, before every text. -/
theorem Spells.lexed_mark (ht : Spells t ks) (hs : Mark s ls) (hrest : Lexed rest more) :
    Lexed ((t ++ s).toList ++ rest) (ks ++ ls ++ more) := by
  rw [String.toList_append, List.append_assoc, List.append_assoc]
  exact ht _ _ (hs.stops rest) (hs.lexed rest more hrest)

/-- A text with a mark after it. -/
theorem Spells.mark (ht : Spells t ks) (hs : Mark s ls) : Spells (t ++ s) (ks ++ ls) :=
  fun _ _ _ hrest => ht.lexed_mark hs hrest

/-- A text with a mark before it. -/
theorem Mark.spells (hs : Mark s ks) (ht : Spells t ls) : Spells (s ++ t) (ks ++ ls) := by
  intro rest more hstops hrest
  rw [String.toList_append, List.append_assoc, List.append_assoc]
  exact hs.lexed _ _ (ht rest more hstops hrest)

/-- **Two texts with a mark between them.** -/
theorem Spells.between (ht : Spells t ks) (hs : Mark s ls) (hu : Spells u ms) :
    Spells (t ++ s ++ u) (ks ++ (ls ++ ms)) := by
  intro rest more hstops hrest
  simp only [String.toList_append, List.append_assoc]
  exact ht _ _ (hs.stops _) (hs.lexed _ _ (hu rest more hstops hrest))

/-! ### Letters and digits -/

theorem isUpper_iff : c.isUpper = true ↔ 65 ≤ c.toNat ∧ c.toNat ≤ 90 := by
  rw [Char.isUpper, decide_eq_true_eq]
  exact Iff.rfl

theorem isLower_iff : c.isLower = true ↔ 97 ≤ c.toNat ∧ c.toNat ≤ 122 := by
  rw [Char.isLower, Bool.and_eq_true, decide_eq_true_eq, decide_eq_true_eq]
  exact Iff.rfl

theorem isDigit_iff : c.isDigit = true ↔ 48 ≤ c.toNat ∧ c.toNat ≤ 57 := by
  rw [Char.isDigit, Bool.and_eq_true, decide_eq_true_eq, decide_eq_true_eq]
  exact Iff.rfl

/-! ### Names -/

/-- A name that is scanned as one: it starts like one, and goes on with the characters of names. -/
def IsName (x : String) : Prop :=
  ∃ c cs, x.toList = c :: cs ∧ isNameStart c = true ∧ ∀ d ∈ cs, isNameChar d = true

/-- What starts a name starts nothing else. -/
theorem isNameStart_apart (hc : isNameStart c = true) :
    isBlank c = false ∧ c ≠ '%' ∧ c.isDigit = false := by
  simp only [isNameStart, Char.isAlpha, Bool.or_eq_true, isUpper_iff, isLower_iff,
    beq_iff_eq] at hc
  have hcode : (65 ≤ c.toNat ∧ c.toNat ≤ 90) ∨ (97 ≤ c.toNat ∧ c.toNat ≤ 122) ∨ c.toNat = 95 := by
    rcases hc with (hc | hc) | rfl
    · exact .inl hc
    · exact .inr (.inl hc)
    · exact .inr (.inr rfl)
  refine ⟨?_, ?_, ?_⟩
  · simp only [isBlank, Bool.or_eq_false_iff, Bool.and_eq_false_iff, decide_eq_false_iff_not,
      beq_eq_false_iff_ne]
    omega
  · rintro rfl
    revert hcode
    decide
  · rw [Bool.eq_false_iff, ne_eq, isDigit_iff]
    omega

theorem takeWhile_append_stops {p : Char → Bool} (rest : List Char) (hcs : ∀ d ∈ cs, p d = true)
    (hrest : ∀ d ∈ rest.head?, p d = false) :
    (cs ++ rest).takeWhile p = cs ∧ (cs ++ rest).dropWhile p = rest := by
  rw [List.takeWhile_append_of_pos hcs, List.dropWhile_append_of_pos hcs]
  rcases rest with _ | ⟨d, rest⟩
  · simp
  · have hd : p d = false := hrest d rfl
    simp [hd]

/-- **A name is one token.** -/
theorem IsName.spells {x : String} (hx : IsName x) : Spells x [.name x] := by
  intro rest more hstops hrest
  obtain ⟨c, cs, hxs, hc, hcs⟩ := hx
  obtain ⟨hblank, hcomment, hdigit⟩ := isNameStart_apart hc
  rw [hxs]
  refine .lexeme hblank hcomment ?_ hrest
  rw [lexemeAt, hdigit, if_neg Bool.false_ne_true, if_pos hc]
  dsimp only
  rw [(takeWhile_append_stops rest hcs hstops.head_isNameChar).1, ← hxs, String.ofList_toList]

/-! ### Numerals -/

/-- What starts a numeral starts nothing else, and has no small letter. -/
theorem isDigit_apart (hc : c.isDigit = true) :
    isBlank c = false ∧ c ∉ ['%', '-', '+'] ∧ c.toLower = c := by
  have hcode := isDigit_iff.1 hc
  refine ⟨?_, ?_, ?_⟩
  · simp only [isBlank, Bool.or_eq_false_iff, Bool.and_eq_false_iff, decide_eq_false_iff_not,
      beq_eq_false_iff_ne]
    omega
  · intro hmem
    simp only [List.mem_cons, List.not_mem_nil, or_false] at hmem
    rcases hmem with rfl | rfl | rfl <;> revert hc <;> decide
  · refine Char.toLower_eq_of_not_isUpper fun hupper => ?_
    rw [isUpper_iff] at hupper
    omega

/-- The parts of a numeral that stands in a text: a row of digits, and perhaps another one. -/
structure NumeralParts where
  whole : List Char
  fraction : List Char
  whole_ne : whole ≠ []
  whole_digits : ∀ d ∈ whole, d.isDigit = true
  fraction_digits : ∀ d ∈ fraction, d.isDigit = true

namespace NumeralParts

variable (n : NumeralParts)

/-- The digits, with a point where there are two rows of them. -/
def spelling : List Char :=
  n.whole ++ if n.fraction.isEmpty then [] else '.' :: n.fraction

/-- What the digits say. -/
def numeral (negative : Bool) : Numeral :=
  ⟨negative, naturalOfDigits (n.whole ++ n.fraction), 0 - Int.ofNat n.fraction.length⟩

/-- A numeral starts with a digit. -/
theorem exists_cons : ∃ c cs, n.spelling = c :: cs ∧ c.isDigit = true := by
  obtain ⟨c, cs, hcs⟩ := List.exists_cons_of_ne_nil n.whole_ne
  refine ⟨c, _, by rw [spelling, hcs, List.cons_append], n.whole_digits c ?_⟩
  rw [hcs]
  exact List.mem_cons_self

/-- The numeral at the start of a text ends where it stops. -/
theorem numeralAt_spelling (hrest : Stops rest) : numeralAt (n.spelling ++ rest) = n.spelling := by
  have hend : ∀ d ∈ rest.head?, d.isDigit = false := hrest.head_isDigit
  obtain ⟨whole, fraction, hne, hwhole, hfraction⟩ := n
  rcases fraction with _ | ⟨d, ds⟩
  · obtain ⟨htake, hdrop⟩ := takeWhile_append_stops rest hwhole hend
    simp only [spelling, List.isEmpty_nil, if_true, List.append_nil, numeralAt, htake, hdrop]
    split
    · next d rest =>
      have hd : d.isDigit = false := hrest.2 rfl d rfl
      rw [hd, if_neg Bool.false_ne_true]
    · rfl
  · obtain ⟨hd, hds⟩ := List.forall_mem_cons.1 hfraction
    obtain ⟨htake, hdrop⟩ := takeWhile_append_stops ('.' :: d :: (ds ++ rest)) hwhole (by simp)
    have hspelling : whole ++ '.' :: d :: ds ++ rest = whole ++ '.' :: d :: (ds ++ rest) := by simp
    simp only [spelling, List.isEmpty_cons, if_neg Bool.false_ne_true, hspelling, numeralAt, htake,
      hdrop, if_pos hd, (takeWhile_append_stops rest hds hend).1]

/-- The whole of a spelling is a numeral. -/
theorem unsigned?_spelling (negative : Bool) :
    Numeral.unsigned? negative n.spelling = some (n.numeral negative) := by
  obtain ⟨whole, fraction, hne, hwhole, hfraction⟩ := n
  have hwhole_ne : whole.isEmpty = false := by simpa using hne
  rcases fraction with _ | ⟨d, ds⟩
  · obtain ⟨htake, hdrop⟩ := takeWhile_append_stops [] hwhole nofun
    rw [List.append_nil] at htake hdrop
    simp [spelling, numeral, Numeral.unsigned?, htake, hdrop, hwhole_ne, Numeral.exponentPart]
  · obtain ⟨htake, hdrop⟩ := takeWhile_append_stops ('.' :: d :: ds) hwhole (by simp)
    obtain ⟨htake', hdrop'⟩ := takeWhile_append_stops [] hfraction nofun
    rw [List.append_nil] at htake' hdrop'
    simp [spelling, numeral, Numeral.unsigned?, htake, hdrop, htake', hdrop', hwhole_ne,
      Numeral.exponentPart]

/-- **A numeral is one token.** -/
theorem lexed (hrest : Stops rest) (h : Lexed rest more) :
    Lexed (n.spelling ++ rest) (.number (n.numeral false).toFloat :: more) := by
  have hat := n.numeralAt_spelling hrest
  have hvalue := n.unsigned?_spelling false
  obtain ⟨c, cs, hcs, hc⟩ := n.exists_cons
  obtain ⟨hblank, hother, -⟩ := isDigit_apart hc
  rw [hcs] at hat hvalue ⊢
  refine .lexeme hblank (by rintro rfl; simp at hother) ?_ h
  rw [lexemeAt, if_pos hc]
  dsimp only
  rw [← List.cons_append, hat, hvalue]

/-- **The whole of a spelling with a sign** is read as a number. -/
theorem readFloat?_spelling (negative : Bool) :
    readFloat? (signText negative ++ n.spelling) = some (n.numeral negative).toFloat := by
  obtain ⟨c, cs, hcs, hc⟩ := n.exists_cons
  obtain ⟨-, hother, hlower⟩ := isDigit_apart hc
  have hname : n.spelling.map Char.toLower = c :: cs.map Char.toLower := by
    rw [hcs, List.map_cons, hlower]
  have hi : c ≠ 'i' := by rintro rfl; revert hc; decide
  have hn : c ≠ 'n' := by rintro rfl; revert hc; decide
  cases negative with
  | false =>
      rw [signText, if_neg Bool.false_ne_true, List.nil_append, readFloat?]
      · simp [hname, hi, hn, n.unsigned?_spelling]
      · rintro rest hrest
        rw [hcs, List.cons.injEq] at hrest
        simp [hrest.1] at hother
      · rintro rest hrest
        rw [hcs, List.cons.injEq] at hrest
        simp [hrest.1] at hother
  | true =>
      rw [signText, if_pos rfl, List.singleton_append, readFloat?]
      simp [hname, hi, hn, n.unsigned?_spelling]

end NumeralParts

theorem isDigit_of_mem_decimalText {m : ℕ} (hc : c ∈ decimalText m) : c.isDigit = true :=
  Nat.isDigit_of_mem_toDigits (by decide) (by decide) hc

/-- **Digits and a point** are the spelling of a numeral. -/
theorem exists_positional (m : ℕ) (e : ℤ) :
    ∃ n : NumeralParts, Numeral.positional m e = n.spelling := by
  rcases e with k | k
  · refine ⟨⟨decimalText m ++ List.replicate k '0', [], ?_, ?_, nofun⟩, ?_⟩
    · simp [decimalText, Nat.toDigits_ne_nil]
    · intro d hd
      rw [List.mem_append, List.mem_replicate] at hd
      rcases hd with hd | ⟨-, rfl⟩
      · exact isDigit_of_mem_decimalText hd
      · rfl
    · simp [Numeral.positional, NumeralParts.spelling]
  · -- the row is long enough for a digit on both sides of the point
    let padded := List.replicate (k + 1 + 1 - (decimalText m).length) '0' ++ decimalText m
    have hpadded : ∀ d ∈ padded, d.isDigit = true := by
      intro d hd
      rw [List.mem_append, List.mem_replicate] at hd
      rcases hd with ⟨-, rfl⟩ | hd
      · rfl
      · exact isDigit_of_mem_decimalText hd
    have hlength : k + 2 ≤ padded.length := by
      simp only [padded, List.length_append, List.length_replicate]
      omega
    refine ⟨⟨padded.take (padded.length - (k + 1)), padded.drop (padded.length - (k + 1)), ?_, ?_, ?_⟩,
      ?_⟩
    · rw [← List.length_pos_iff, List.length_take]
      omega
    · exact fun d hd => hpadded d (List.mem_of_mem_take hd)
    · exact fun d hd => hpadded d (List.mem_of_mem_drop hd)
    · have hdrop : (padded.drop (padded.length - (k + 1))).isEmpty = false := by
        rw [List.isEmpty_eq_false_iff, ← List.length_pos_iff, List.length_drop]
        omega
      simp only [NumeralParts.spelling, hdrop, if_neg Bool.false_ne_true]
      rfl

/-- **A finite double** is one whose parts are those of a finite one. -/
theorem exists_finite_of_isFinite {x : Float} (hx : x.isFinite = true) :
    ∃ negative m e, Binary.ofFloat x = .finite negative m e := by
  by_cases hfield : x.toBits.toNat / twoTo 52 % twoTo 11 = 2047
  · -- all bits of the exponent are set, which are the numbers that are not finite
    have hexponent : @Float.Model.UnpackedFloat.unpackExponent .binary64
        x.toModel.toBits.toBitVec = -1#11 := by
      apply BitVec.eq_of_toNat_eq
      simp only [Float.toBits, twoTo] at hfield
      simp [Float.Model.UnpackedFloat.unpackExponent, Nat.shiftRight_eq_div_pow, hfield]
    simp only [Float.isFinite, Float.Model.isFinite, Float.Model.unpack,
      Float.Model.UnpackedFloat.unpack, if_pos hexponent] at hx
    split at hx <;> cases hx
  · simp only [Binary.ofFloat, if_neg hfield]
    split <;> exact ⟨_, _, _, rfl⟩

/-- The text of a finite number is the spelling of a numeral, with a sign before it. -/
theorem exists_numberText {x : Float} (hx : x.isFinite = true) :
    ∃ (negative : Bool) (n : NumeralParts), (numberText x).toList = signText negative ++ n.spelling := by
  obtain ⟨negative, m, e, hparts⟩ := exists_finite_of_isFinite hx
  rw [numberText]
  split_ifs
  · exact ⟨false, ⟨['0'], [], by simp, by simp, nofun⟩, rfl⟩
  · obtain ⟨n, hn⟩ := exists_positional (Numeral.shortest .upward negative m e).mantissa
      (Numeral.shortest .upward negative m e).exponent
    refine ⟨negative, n, ?_⟩
    rw [floatText, hparts]
    simp only [String.toList_ofList, hn]

/-- **A finite number is scanned as a numeral**, perhaps with a minus before it, and its text as a
whole is read as what the tokens say. -/
theorem numberText_spells {x : Float} (hx : x.isFinite = true) :
    ∃ ks y, readFloat? (numberText x).toList = some y ∧ Spells (numberText x) ks ∧
      (ks = [.number y] ∨ ∃ z, ks = [.symbol .minus, .number z] ∧ y = -z) := by
  obtain ⟨negative, n, htext⟩ := exists_numberText hx
  have hread := n.readFloat?_spelling negative
  rw [← htext] at hread
  cases negative with
  | false =>
      refine ⟨_, _, hread, ?_, .inl rfl⟩
      intro rest more hstops hrest
      rw [htext, signText, if_neg Bool.false_ne_true, List.nil_append]
      exact n.lexed hstops hrest
  | true =>
      refine ⟨_, _, hread, ?_, .inr ⟨(n.numeral false).toFloat, rfl, rfl⟩⟩
      intro rest more hstops hrest
      rw [htext]
      exact Lexed.symbol .minus (fun _ => rfl) (n.lexed hstops hrest)

end RhythmLogic
