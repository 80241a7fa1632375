/-
**Strings and numbers of JSON are read back.**

A string is written with escapes, and one that is read gives the characters that were escaped.  A
number is another matter.  The numeral `60` is written `60.0`, and that is read as six hundred
tenths; so a numeral is *reread* as what its text says, which is another spelling of the same number.
What has to be shown is that there always is such a numeral: that the writer lays out digits, point
and exponent so that the text is one number of the grammar, without an idle zero before the point and
with digits behind it.

Where a number ends is only seen from what comes next, so all of this is said before every rest at
which numbers end.

Main definitions:

* `Json.Ends` — no number goes on at the start of a text;
* `Json.Whole`, `Json.GoesOn` — what may stand before the point, and what may stand behind it;
* `Numeral.reread` — what the text of a numeral is read as.

Main results:

* `Json.stringTail_escaped` — strings are read back, whatever had to be escaped;
* `Json.exists_magnitudeText` — the text of a numeral has these parts;
* `Json.numberAt_numeralText` — **every numeral is written as a number**.
-/

import RhythmLogic.Json.Reader
import RhythmLogic.Proofs.Spelling

set_option autoImplicit false

namespace RhythmLogic

namespace Json

variable {c : Char} {digits rest : List Char} {fuel : ℕ}

/-! ### Strings -/

theorem hexValue?_hexDigit : ∀ n < 16, hexValue? (hexDigit n) = some n := by decide

/-- The four digits of a control character are read as its number. -/
theorem escapeTail?_control (hc : c.toNat < 32) (rest : List Char) :
    escapeTail? ('u' :: '0' :: '0' :: hexDigit (c.toNat / 16) :: hexDigit (c.toNat % 16) :: rest) =
      some (c, rest) := by
  have hhigh := hexValue?_hexDigit (c.toNat / 16) (by omega)
  have hlow := hexValue?_hexDigit (c.toNat % 16) (by omega)
  have hzero : hexValue? '0' = some 0 := rfl
  have hcode : c.toNat / 16 * 16 + c.toNat % 16 = c.toNat := by omega
  have hunit : unitTail? c.toNat rest = some (c, rest) := by
    unfold unitTail?
    rw [if_neg (by omega), if_neg (by omega), Char.ofNat_toNat]
  simp [escapeTail?, hexUnit?, hzero, hhigh, hlow, hcode, hunit]

/-- **An escaped character is read as the character.** -/
theorem stringTailF_escaped (c : Char) (fuel : ℕ) (read rest : List Char) :
    stringTailF (fuel + 1) read (escaped c ++ rest) = stringTailF fuel (c :: read) rest := by
  unfold escaped
  split_ifs with hquote hslash hline hreturn htab hback hfeed hcontrol
  · subst hquote
    rfl
  · subst hslash
    rfl
  · subst hline
    rfl
  · subst hreturn
    rfl
  · subst htab
    rfl
  · obtain rfl : c = '\x08' := by rw [← Char.ofNat_toNat c, hback]
    rfl
  · obtain rfl : c = '\x0c' := by rw [← Char.ofNat_toNat c, hfeed]
    rfl
  · have htail := escapeTail?_control hcontrol rest
    simp [stringTailF, htail]
  · simp [stringTailF, hquote, hslash, hcontrol]

theorem stringTailF_flatMap (chars : List Char) (read rest : List Char)
    (hfuel : chars.length < fuel) :
    stringTailF fuel read (chars.flatMap escaped ++ '"' :: rest) =
      some (String.ofList (read.reverse ++ chars), rest) := by
  induction chars generalizing fuel read with
  | nil =>
      obtain ⟨fuel, rfl⟩ := Nat.exists_eq_add_of_lt hfuel
      simp [stringTailF]
  | cons c chars ih =>
      obtain ⟨fuel, rfl⟩ : ∃ n, fuel = n + 1 := ⟨fuel - 1, by simp at hfuel; omega⟩
      rw [List.length_cons] at hfuel
      rw [List.flatMap_cons, List.append_assoc, stringTailF_escaped, ih _ (by omega)]
      simp

theorem length_le_flatMap_escaped (chars : List Char) :
    chars.length ≤ (chars.flatMap escaped).length := by
  induction chars with
  | nil => exact Nat.le_refl 0
  | cons c chars ih =>
      have hpos : 0 < (escaped c).length := by
        unfold escaped
        split_ifs <;> exact Nat.succ_pos _
      rw [List.flatMap_cons, List.length_append, List.length_cons]
      omega

/-- **A string is read back**, whatever had to be escaped in it. -/
theorem stringTail_escaped (s : String) (rest : List Char) :
    stringTail (s.toList.flatMap escaped ++ '"' :: rest) = some (s, rest) := by
  have hlength := length_le_flatMap_escaped s.toList
  rw [stringTail, stringTailF_flatMap, List.reverse_nil, List.nil_append, String.ofList_toList]
  simp only [List.length_append]
  omega

/-! ### Numbers -/

/-- **No number goes on** at the start of a text. -/
def Ends (rest : List Char) : Prop :=
  ∀ c ∈ rest.head?, c.isDigit = false ∧ c ≠ 'e' ∧ c ≠ 'E'

theorem Ends.isDigit (h : Ends rest) : ∀ c ∈ rest.head?, c.isDigit = false :=
  fun c hc => (h c hc).1

/-- No exponent. -/
theorem exponentPart_ends (h : Ends rest) : Numeral.exponentPart rest = some (0, rest) := by
  unfold Numeral.exponentPart
  split
  · exact absurd rfl (h 'e' rfl).2.1
  · exact absurd rfl (h 'E' rfl).2.2
  · rfl

/-- An exponent with its sign. -/
theorem exponentPart_sign (negative : Bool) (hne : digits ≠ [])
    (hdigits : ∀ d ∈ digits, d.isDigit = true) (hrest : Ends rest) :
    Numeral.exponentPart ('e' :: (if negative then '-' else '+') :: (digits ++ rest)) =
      some (signed negative (naturalOfDigits digits), rest) := by
  obtain ⟨htake, hdrop⟩ := takeWhile_append_stops rest hdigits hrest.isDigit
  have hempty : digits.isEmpty = false := by simpa using hne
  cases negative <;> simp [Numeral.exponentPart, htake, hdrop, hempty]

/-- A fraction. -/
theorem fractionAt_point (hne : digits ≠ []) (hdigits : ∀ d ∈ digits, d.isDigit = true)
    (hrest : ∀ c ∈ rest.head?, c.isDigit = false) :
    fractionAt ('.' :: (digits ++ rest)) = some (digits, rest) := by
  obtain ⟨htake, hdrop⟩ := takeWhile_append_stops rest hdigits hrest
  have hempty : digits.isEmpty = false := by simpa using hne
  simp [fractionAt, htake, hdrop, hempty]

/-- A row of digits that may stand before the point: it is not empty, and has no idle zero. -/
structure Whole (digits : List Char) : Prop where
  ne : digits ≠ []
  digit : ∀ d ∈ digits, d.isDigit = true
  noIdleZero : digits.length = 1 ∨ digits.head? ≠ some '0'

/-- **What may stand behind the whole part of a number**: it does not go on with a digit, and it is
read as the digits behind the point and an exponent before every text at which numbers end. -/
def GoesOn (tail : List Char) : Prop :=
  ∃ (places : List Char) (e : ℤ), ∀ rest, Ends rest →
    (∀ c ∈ (tail ++ rest).head?, c.isDigit = false) ∧
      ∃ tail', fractionAt (tail ++ rest) = some (places, tail') ∧
        Numeral.exponentPart tail' = some (e, rest)

theorem goesOn_point (hne : digits ≠ []) (hdigits : ∀ d ∈ digits, d.isDigit = true) :
    GoesOn ('.' :: digits) :=
  ⟨digits, 0, fun rest hrest => ⟨by simp, rest, fractionAt_point hne hdigits hrest.isDigit,
    exponentPart_ends hrest⟩⟩

theorem goesOn_power (negative : Bool) (hne : digits ≠ [])
    (hdigits : ∀ d ∈ digits, d.isDigit = true) :
    GoesOn ('e' :: (if negative then '-' else '+') :: digits) :=
  ⟨[], _, fun rest hrest => ⟨by simp, _, rfl, exponentPart_sign negative hne hdigits hrest⟩⟩

theorem goesOn_point_power {places : List Char} (negative : Bool) (hplaces : places ≠ [])
    (hdigits' : ∀ d ∈ places, d.isDigit = true) (hne : digits ≠ [])
    (hdigits : ∀ d ∈ digits, d.isDigit = true) :
    GoesOn ('.' :: (places ++ 'e' :: (if negative then '-' else '+') :: digits)) := by
  refine ⟨places, _, fun rest hrest =>
    ⟨by simp, _, ?_, exponentPart_sign negative hne hdigits hrest⟩⟩
  rw [List.cons_append, List.append_assoc]
  exact fractionAt_point hplaces hdigits' (by simp)

/-- **A number**, from its parts. -/
theorem exists_numberAt_parts {whole tail : List Char} (negative : Bool) (hwhole : Whole whole)
    (htail : GoesOn tail) : ∃ d : Numeral, ∀ rest, Ends rest →
      numberAt (signText negative ++ (whole ++ (tail ++ rest))) = some (d, rest) := by
  obtain ⟨places, e, hrest⟩ := htail
  refine ⟨⟨negative, naturalOfDigits (whole ++ places), e - Int.ofNat places.length⟩, ?_⟩
  intro rest hends
  obtain ⟨hstops, tail', hfraction, hexponent⟩ := hrest rest hends
  obtain ⟨htake, hdrop⟩ := takeWhile_append_stops (tail ++ rest) hwhole.digit hstops
  have hidle : (whole.isEmpty || (whole.length != 1 && whole.head? == some '0')) = false := by
    have hempty : whole.isEmpty = false := by simpa using hwhole.ne
    rcases hwhole.noIdleZero with h | h <;> simp [hempty, h]
  cases negative with
  | true =>
      simp only [signText, if_true, List.singleton_append, numberAt, htake, hdrop, hidle]
      simp [hfraction, hexponent]
  | false =>
      obtain ⟨c, cs, rfl⟩ := List.exists_cons_of_ne_nil hwhole.ne
      have hminus : c ≠ '-' := by
        rintro rfl
        exact absurd (hwhole.digit '-' List.mem_cons_self) (by decide)
      rw [signText, if_neg Bool.false_ne_true, List.nil_append, numberAt]
      · rw [htake, hdrop, hidle, if_neg Bool.false_ne_true]
        simp [hfraction, hexponent]
      · intro more hmore
        exact hminus (List.cons.inj hmore).1

/-! ### Numerals -/

/-- A natural number that is not zero has no idle zero. -/
theorem head?_decimalText {m : ℕ} (hm : m ≠ 0) : (decimalText m).head? ≠ some '0' := by
  induction m using Nat.strongRecOn with
  | ind m ih =>
      rw [decimalText, Nat.toDigits_eq_if (by decide)]
      split
      · next hlt =>
          have hdigit : ∀ n < 10, n ≠ 0 → n.digitChar ≠ '0' := by decide
          simpa using hdigit m hlt hm
      · next hle =>
          obtain ⟨d, ds, hds⟩ := List.exists_cons_of_ne_nil
            (Nat.toDigits_ne_nil : Nat.toDigits 10 (m / 10) ≠ [])
          have hhead := ih (m / 10) (by omega) (by omega)
          rw [decimalText, hds] at hhead
          simpa [hds] using hhead

theorem whole_decimalText {m : ℕ} (hm : m ≠ 0) : Whole (decimalText m) where
  ne := Nat.toDigits_ne_nil
  digit _ := isDigit_of_mem_decimalText
  noIdleZero := .inr (head?_decimalText hm)

/-- A row of digits goes on before the point with more of them. -/
theorem Whole.append (h : Whole digits) (hzero : digits.head? ≠ some '0') {more : List Char}
    (hmore : ∀ d ∈ more, d.isDigit = true) : Whole (digits ++ more) where
  ne := by simp [h.ne]
  digit := List.forall_mem_append.2 ⟨h.digit, hmore⟩
  noIdleZero := by
    obtain ⟨d, ds, rfl⟩ := List.exists_cons_of_ne_nil h.ne
    exact .inr hzero

/-- **Digits with a point among them** are a row before it, without an idle zero, and a row behind
it. -/
theorem exists_pointed {m : ℕ} (hm : m ≠ 0) (k : ℕ) : ∃ whole fraction,
    Numeral.pointed (decimalText m) (k + 1) = whole ++ '.' :: fraction ∧ Whole whole ∧
      fraction ≠ [] ∧ ∀ d ∈ fraction, d.isDigit = true := by
  have hwhole := whole_decimalText hm
  have hzero := head?_decimalText hm
  generalize decimalText m = digits at hwhole hzero
  by_cases hlength : digits.length ≤ k + 1
  · -- the number is below one, and gets a zero before the point
    obtain ⟨j, hj⟩ := Nat.exists_eq_add_of_le hlength
    have hpadding : k + 1 + 1 - digits.length = j + 1 := by omega
    have hplaces : (List.replicate (j + 1) '0' ++ digits).length - (k + 1) = 1 := by
      simp only [List.length_append, List.length_replicate]
      omega
    refine ⟨['0'], List.replicate j '0' ++ digits, ?_, ⟨by simp, by simp, .inl rfl⟩, ?_, ?_⟩
    · simp only [Numeral.pointed, hpadding, hplaces]
      rfl
    · simp [hwhole.ne]
    · refine List.forall_mem_append.2 ⟨fun d hd => ?_, hwhole.digit⟩
      rw [(List.mem_replicate.1 hd).2]
      rfl
  · have hpadding : k + 1 + 1 - digits.length = 0 := by omega
    have hplaces : digits.length - (k + 1) ≠ 0 := by omega
    refine ⟨digits.take (digits.length - (k + 1)), digits.drop (digits.length - (k + 1)), ?_,
      ⟨?_, fun d hd => hwhole.digit d (List.mem_of_mem_take hd), .inr ?_⟩, ?_,
      fun d hd => hwhole.digit d (List.mem_of_mem_drop hd)⟩
    · simp only [Numeral.pointed, hpadding]
      rfl
    · simp [hplaces, hwhole.ne]
    · rwa [List.head?_take, if_neg hplaces]
    · rw [← List.length_pos_iff, List.length_drop]
      omega

/-- The magnitude of a numeral has a whole part, and goes on behind it. -/
theorem exists_magnitudeText (m : ℕ) (e : ℤ) : ∃ whole tail,
    magnitudeText m e = whole ++ tail ∧ Whole whole ∧ GoesOn tail := by
  have hzero : GoesOn ['.', '0'] := goesOn_point (by simp) (by simp)
  unfold magnitudeText
  by_cases hm : m = 0
  · exact ⟨['0'], ['.', '0'], by simp [hm], ⟨by simp, by simp, .inl rfl⟩, hzero⟩
  have hwhole := whole_decimalText hm
  rw [if_neg hm]
  dsimp only
  split
  · rcases e with k | k
    · refine ⟨_, _, rfl, hwhole.append (head?_decimalText hm) fun d hd => ?_, hzero⟩
      rw [(List.mem_replicate.1 hd).2]
      rfl
    · obtain ⟨whole, fraction, htext, hwhole', hne, hdigits⟩ := exists_pointed hm k
      exact ⟨whole, _, htext, hwhole', goesOn_point hne hdigits⟩
  · -- one digit stands before the point
    generalize Int.ofNat (decimalText m).length + e - 1 = power
    generalize decimalText m = digits at hwhole
    have hne : decimalText power.natAbs ≠ [] := Nat.toDigits_ne_nil
    have hdigits : ∀ d ∈ decimalText power.natAbs, d.isDigit = true :=
      fun _ => isDigit_of_mem_decimalText
    obtain ⟨d, ds, rfl⟩ := List.exists_cons_of_ne_nil hwhole.ne
    obtain ⟨hd, hds⟩ := List.forall_mem_cons.1 hwhole.digit
    have hfirst : Whole [d] := ⟨by simp, by simpa using hd, .inl rfl⟩
    cases ds with
    | nil =>
        refine ⟨[d], _, rfl, hfirst, ?_⟩
        simpa using goesOn_power (decide (power < 0)) hne hdigits
    | cons d' ds =>
        refine ⟨[d], _, rfl, hfirst, ?_⟩
        simpa using goesOn_point_power (decide (power < 0)) (by simp) hds hne hdigits

/-- **Every numeral is written as a number**, which is read before every text at which numbers
end. -/
theorem exists_numberAt (d : Numeral) : ∃ d' : Numeral, ∀ rest, Ends rest →
    numberAt ((numeralText d).toList ++ rest) = some (d', rest) := by
  obtain ⟨whole, tail, htext, hwhole, htail⟩ := exists_magnitudeText d.mantissa d.exponent
  obtain ⟨d', hd'⟩ := exists_numberAt_parts d.negative hwhole htail
  refine ⟨d', fun rest hrest => ?_⟩
  rw [numeralText, String.toList_ofList, htext, List.append_assoc, List.append_assoc]
  exact hd' rest hrest

theorem ends_nil : Ends [] := nofun

theorem ends_cons (hdigit : c.isDigit = false) (he : c ≠ 'e' ∧ c ≠ 'E') (cs : List Char) :
    Ends (c :: cs) := by
  rintro d hd
  cases hd
  exact ⟨hdigit, he⟩

end Json

/-- **What the text of a numeral is read as.** -/
def Numeral.reread (d : Numeral) : Numeral :=
  ((Json.numberAt (Json.numeralText d).toList).map Prod.fst).getD d

namespace Json

variable {rest : List Char}

theorem numberAt_numeralText (d : Numeral) (hrest : Ends rest) :
    numberAt ((numeralText d).toList ++ rest) = some (d.reread, rest) := by
  obtain ⟨d', hd'⟩ := exists_numberAt d
  have halone := hd' [] ends_nil
  rw [List.append_nil] at halone
  rw [hd' rest hrest, Numeral.reread, halone]
  rfl

end Json

end RhythmLogic
