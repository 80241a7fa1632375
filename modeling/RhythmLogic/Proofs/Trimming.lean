/-
**The tokens of a text without its blanks, and with one character more.**

Source is trimmed before it is read, and a period may be put behind it, by someone who looks at
characters and knows nothing of tokens.  The last character of the trimmed text may be inside a
comment, and then so is the period; a blank that is cut off may have ended a comment, a name or a
numeral.  None of this changes the tokens, for three reasons: blanks and periods go on with no
lexeme, what is skipped at the end of a text ends in a blank or in a comment, and a comment takes up
whatever is put behind it.

Main definitions:

* `behind` — a text after the blanks and comments at its start;
* `Scans` — the tokens of a text, as the scanner finds them one after the other, without places;
* `Quiet` — a character that goes on with no lexeme;
* `Closed` — a row of tokens with a period at its end.

Main results:

* `scans_of_tokenizeF`, `Scans.lexed` — this is what the scanner finds, from wherever it starts;
* `Scans.trimBlank` — **a trimmed text has the same tokens**;
* `Scans.append_of_closed` — **what is put behind a closed text is in a comment**, unless the text
  ends in a blank or in its period.
-/

import RhythmLogic.Proofs.Spelling

set_option autoImplicit false

namespace RhythmLogic

variable {b : Bool} {c d : Char} {cs ds rest : List Char} {ks : List TokenKind} {l : Lexeme}

/-! ### Blanks and comments -/

/-- **A text after the blanks and comments at its start**, or after the rest of a comment. -/
def behind (comment : Bool) (cs : List Char) : List Char := (skipTrivia comment .start cs).2

/-- What is skipped does not depend on the place. -/
theorem snd_skipTrivia (b : Bool) (p : Position) (cs : List Char) :
    (skipTrivia b p cs).2 = behind b cs := by
  unfold behind
  generalize Position.start = q
  induction cs generalizing b p q with
  | nil => rfl
  | cons c cs ih =>
      rw [skipTrivia, skipTrivia]
      split_ifs
      · exact ih _ _ _
      · exact ih _ _ _
      · exact ih _ _ _
      · rfl

theorem exists_skipTrivia (b : Bool) (p : Position) (cs : List Char) :
    ∃ q, skipTrivia b p cs = (q, behind b cs) :=
  ⟨(skipTrivia b p cs).1, by rw [← snd_skipTrivia b p]⟩

theorem behind_nil : behind b [] = [] := rfl

theorem behind_comment : behind true (c :: cs) = behind (c != '\n') cs := by
  rw [behind, skipTrivia, if_pos rfl, snd_skipTrivia]

theorem behind_cons : behind false (c :: cs) =
    if isBlank c then behind false cs else if c = '%' then behind true cs else c :: cs := by
  rw [behind, skipTrivia, if_neg Bool.false_ne_true]
  split_ifs <;> first | exact snd_skipTrivia _ _ _ | rfl

theorem behind_suffix (b : Bool) (cs : List Char) : behind b cs <:+ cs := by
  induction cs generalizing b with
  | nil => exact List.suffix_rfl
  | cons c cs ih =>
      have hcons := List.suffix_cons c cs
      cases b with
      | true =>
          rw [behind_comment]
          exact (ih _).trans hcons
      | false =>
          rw [behind_cons]
          split_ifs
          · exact (ih _).trans hcons
          · exact (ih _).trans hcons
          · exact List.suffix_rfl

/-- Where something comes after the blanks and comments, they end there in a longer text too. -/
theorem behind_append (h : behind b cs ≠ []) (ds : List Char) :
    behind b (cs ++ ds) = behind b cs ++ ds := by
  induction cs generalizing b with
  | nil => exact absurd rfl h
  | cons c cs ih =>
      cases b with
      | true =>
          rw [behind_comment] at h
          rw [List.cons_append, behind_comment, behind_comment, ih h]
      | false =>
          rw [behind_cons] at h
          rw [List.cons_append, behind_cons, behind_cons]
          split_ifs at h ⊢
          · exact ih h
          · exact ih h
          · rfl

/-- A blank after blanks and comments is skipped. -/
theorem behind_append_blank (h : behind b cs = []) (hd : isBlank d = true) :
    behind b (cs ++ [d]) = [] := by
  induction cs generalizing b with
  | nil =>
      cases b with
      | true => rw [List.nil_append, behind_comment, behind_nil]
      | false => rw [List.nil_append, behind_cons, if_pos hd, behind_nil]
  | cons c cs ih =>
      cases b with
      | true =>
          rw [behind_comment] at h
          rw [List.cons_append, behind_comment, ih h]
      | false =>
          rw [behind_cons] at h
          rw [List.cons_append, behind_cons]
          split_ifs at h ⊢
          · exact ih h
          · exact ih h

/-- **Blanks and comments that do not end in a blank end in a comment**, and the comment takes up
one character more. -/
theorem behind_append_comment (h : behind b cs = []) (hb : cs = [] → b = true)
    (hlast : ∀ z ∈ cs.getLast?, isBlank z = false) (d : Char) : behind b (cs ++ [d]) = [] := by
  induction cs generalizing b with
  | nil =>
      obtain rfl := hb rfl
      rw [List.nil_append, behind_comment, behind_nil]
  | cons c cs ih =>
      have hrest : ∀ z ∈ cs.getLast?, isBlank z = false := by
        intro z hz
        refine hlast z ?_
        rw [List.getLast?_cons, Option.mem_def.1 hz]
        rfl
      have hend : cs = [] → isBlank c = false := by
        rintro rfl
        exact hlast c rfl
      have hnewline : isBlank c = false → (c != '\n') = true := by
        intro hc
        rw [bne_iff_ne]
        rintro rfl
        revert hc
        decide
      cases b with
      | true =>
          rw [behind_comment] at h
          rw [List.cons_append, behind_comment]
          exact ih h (fun hnil => hnewline (hend hnil)) hrest
      | false =>
          rw [behind_cons] at h
          rw [List.cons_append, behind_cons]
          split_ifs at h ⊢ with hblank hcomment
          · exact ih h (fun hnil => by rw [hend hnil] at hblank; cases hblank) hrest
          · exact ih h (fun _ => rfl) hrest

/-! ### The scan of a text -/

/-- **The tokens of a text**, one lexeme after the other. -/
inductive Scans : List Char → List TokenKind → Prop where
  | done {cs : List Char} : behind false cs = [] → Scans cs [.eof]
  | lexeme {cs rest : List Char} {c : Char} {l : Lexeme} {ks : List TokenKind} :
      behind false cs = c :: rest → lexemeAt c rest = .ok l →
      Scans ((c :: rest).drop l.spelling.length) ks → Scans cs (l.kind :: ks)

/-- What the scanner finds is the scan of the text. -/
theorem scans_of_tokenizeF {fuel : ℕ} {p : Position} {tokens : List Token}
    (h : tokenizeF fuel p cs = .ok tokens) : Scans cs (tokens.map Token.kind) := by
  induction fuel generalizing p cs tokens with
  | zero => cases h
  | succ fuel ih =>
      obtain ⟨q, hskip⟩ := exists_skipTrivia false p cs
      rw [tokenizeF, hskip] at h
      rcases hbehind : behind false cs with _ | ⟨c, rest⟩
      · rw [hbehind] at h
        cases h
        exact .done hbehind
      rw [hbehind] at h
      dsimp only at h
      cases hl : lexemeAt c rest with
      | error cause =>
          rw [hl] at h
          cases h
      | ok l =>
          rw [hl] at h
          dsimp only at h
          split at h
          · cases h
          · next more hmore =>
            cases h
            exact .lexeme hbehind hl (ih hmore)

/-- The symbols in the order in which they are looked for. -/
def symbols : List Sym :=
  [.sameNumber, .otherNumber, .atMost, .atLeast, .neck, .not, .assign, .openParen, .closeParen,
    .openBracket, .closeBracket, .comma, .period, .semicolon, .bar, .plus, .minus, .star, .slash,
    .less, .greater, .equal]

theorem isPrefixOf_eq_false (h : ∀ t, cs = ds ++ t → False) : ds.isPrefixOf cs = false := by
  rw [← Bool.not_eq_true, List.isPrefixOf_iff_prefix]
  rintro ⟨t, rfl⟩
  exact h t rfl

/-- **The longest symbol** at the start of a text is the first one in this order that starts it. -/
theorem symbolAt?_eq_find? (cs : List Char) :
    symbolAt? cs = symbols.find? fun s => s.text.toList.isPrefixOf cs := by
  unfold symbolAt?
  split
  case h_21 tail h =>
    have hatLeast : ['='].isPrefixOf tail = false := isPrefixOf_eq_false h
    simp [symbols, Sym.text, List.isPrefixOf, hatLeast]
  case h_22 tail h₁ h₂ h₃ =>
    have hsame : [':', '='].isPrefixOf tail = false := isPrefixOf_eq_false h₁
    have hother : ['\\', '='].isPrefixOf tail = false := isPrefixOf_eq_false h₂
    have hatMost : ['<'].isPrefixOf tail = false := isPrefixOf_eq_false h₃
    simp [symbols, Sym.text, List.isPrefixOf, hsame, hother, hatMost]
  case h_23 =>
    refine (List.find?_eq_none.2 fun s _ hs => ?_).symm
    obtain ⟨t, rfl⟩ := List.isPrefixOf_iff_prefix.1 hs
    cases s <;> solve_by_elim [rfl]
  all_goals rfl

/-- A numeral starts where it is looked for. -/
theorem numeralAt_isPrefix (cs : List Char) : numeralAt cs <+: cs := by
  have hsplit := List.takeWhile_append_dropWhile (p := Char.isDigit) (l := cs)
  rw [numeralAt]
  split
  · next d more hdrop =>
    rw [hdrop] at hsplit
    split
    · refine (congrArg (_ <+: ·) hsplit).mp ?_
      rw [List.prefix_append_right_inj, List.cons_prefix_cons, List.cons_prefix_cons]
      exact ⟨rfl, rfl, List.takeWhile_prefix _⟩
    · exact List.takeWhile_prefix _
  · exact List.takeWhile_prefix _

theorem numeralAt_ne_nil (hc : c.isDigit = true) : numeralAt (c :: cs) ≠ [] := by
  have hne : (c :: cs).takeWhile Char.isDigit ≠ [] := by
    rw [List.takeWhile_cons_of_pos hc]
    exact List.cons_ne_nil _ _
  rw [numeralAt]
  split
  · split
    · exact List.append_ne_nil_of_left_ne_nil hne _
    · exact hne
  · exact hne

/-- **The three kinds of lexemes**, each with how it is spelled. -/
theorem lexemeAt_cases (h : lexemeAt c rest = .ok l) :
    (c.isDigit = true ∧ ∃ x, l = ⟨.number x, numeralAt (c :: rest)⟩) ∨
    (∃ name, l = ⟨.name name, c :: rest.takeWhile isNameChar⟩) ∨
    ∃ s, symbolAt? (c :: rest) = some s ∧ l = ⟨.symbol s, s.text.toList⟩ := by
  rw [lexemeAt] at h
  split_ifs at h with hdigit
  · dsimp only at h
    split at h
    · cases h
      exact .inl ⟨hdigit, _, rfl⟩
    · cases h
  · cases h
    exact .inr (.inl ⟨_, rfl⟩)
  · split at h
    · next s hs =>
      cases h
      exact .inr (.inr ⟨s, hs, rfl⟩)
    · cases h

/-- **A lexeme starts where it is looked for**, and is not empty. -/
theorem lexemeAt_isPrefix (h : lexemeAt c rest = .ok l) :
    l.spelling <+: c :: rest ∧ l.spelling ≠ [] := by
  obtain ⟨hdigit, _, rfl⟩ | ⟨_, rfl⟩ | ⟨s, hs, rfl⟩ := lexemeAt_cases h
  · exact ⟨numeralAt_isPrefix _, numeralAt_ne_nil hdigit⟩
  · exact ⟨List.cons_prefix_cons.2 ⟨rfl, List.takeWhile_prefix _⟩, List.cons_ne_nil _ _⟩
  · rw [symbolAt?_eq_find?] at hs
    have hstarts := List.find?_some hs
    refine ⟨List.isPrefixOf_iff_prefix.1 hstarts, ?_⟩
    cases s <;> simp [Sym.text]

/-- A lexeme is no end mark, and a symbol is spelled as it is. -/
theorem lexemeAt_kind (h : lexemeAt c rest = .ok l) :
    l.kind ≠ .eof ∧ ∀ s, l.kind = .symbol s → l.spelling = s.text.toList := by
  obtain ⟨-, _, rfl⟩ | ⟨_, rfl⟩ | ⟨_, -, rfl⟩ := lexemeAt_cases h <;> simp

/-- **What the scan of a text finds is found from wherever the text starts.** -/
theorem Scans.lexed (h : Scans cs ks) : Lexed cs ks := by
  induction h with
  | @done cs hbehind =>
      intro fuel p hfuel
      obtain ⟨f, rfl⟩ : ∃ f, fuel = f + 1 := ⟨fuel - 1, by omega⟩
      obtain ⟨q, hskip⟩ := exists_skipTrivia false p cs
      rw [tokenizeF, hskip, hbehind]
      exact ⟨_, rfl, rfl⟩
  | @lexeme cs rest c l ks hbehind hl _ ih =>
      intro fuel p hfuel
      obtain ⟨f, rfl⟩ : ∃ f, fuel = f + 1 := ⟨fuel - 1, by omega⟩
      obtain ⟨hstarts, hne⟩ := lexemeAt_isPrefix hl
      have hpos := List.length_pos_of_ne_nil hne
      have hlength := (behind_suffix false cs).length_le
      rw [hbehind, List.length_cons] at hlength
      obtain ⟨q, hskip⟩ := exists_skipTrivia false p cs
      obtain ⟨tokens, htokens, hks⟩ := ih f (q.advance l.spelling)
        (by rw [List.length_drop, List.length_cons]; omega)
      refine ⟨⟨l.kind, q⟩ :: tokens, ?_, by rw [List.map_cons, hks]⟩
      rw [tokenizeF, hskip, hbehind]
      dsimp only
      rw [hl]
      dsimp only
      rw [htokens]

/-! ### One character more -/

/-- **A character that goes on with no lexeme**: with no name, no numeral and no symbol. -/
structure Quiet (d : Char) : Prop where
  isNameChar : isNameChar d = false
  tail : ∀ s : Sym, d ∉ s.text.toList.tail

theorem Quiet.isDigit (hd : Quiet d) : d.isDigit = false := by
  have hname := hd.isNameChar
  simp only [RhythmLogic.isNameChar, Char.isAlphanum, Bool.or_eq_false_iff] at hname
  exact hname.1.2

theorem quiet_period : Quiet '.' := by
  refine ⟨by decide, fun s => ?_⟩
  cases s <;> simp [Sym.text]

theorem quiet_of_isBlank (hd : isBlank d = true) : Quiet d := by
  constructor
  case isNameChar =>
    rw [← Bool.not_eq_true]
    intro hname
    have hstart : isNameStart d = true ∨ d.isDigit = true := by
      simp only [isNameChar, Char.isAlphanum, Bool.or_eq_true] at hname
      simp only [isNameStart, Bool.or_eq_true]
      tauto
    have hblank : isBlank d = false := hstart.elim (isNameStart_apart · |>.1) (isDigit_apart · |>.1)
    rw [hd] at hblank
    cases hblank
  case tail =>
    intro s hs
    have hblank : ∀ z ∈ s.text.toList, isBlank z = false := by
      cases s <;> simp [Sym.text, isBlank]
    rw [hblank d (List.mem_of_mem_tail hs)] at hd
    cases hd

theorem takeWhile_append_of_not {p : Char → Bool} (hd : p d = false) (cs : List Char) :
    (cs ++ [d]).takeWhile p = cs.takeWhile p ∧ (cs ++ [d]).dropWhile p = cs.dropWhile p ++ [d] := by
  induction cs with
  | nil => simp [hd]
  | cons c cs ih =>
      rw [List.cons_append, List.takeWhile_cons, List.takeWhile_cons, List.dropWhile_cons,
        List.dropWhile_cons, ih.1, ih.2]
      split <;> simp

theorem symbolAt?_append (hd : Quiet d) (hne : cs ≠ []) :
    symbolAt? (cs ++ [d]) = symbolAt? cs := by
  rw [symbolAt?_eq_find?, symbolAt?_eq_find?]
  refine List.find?_congr fun s _ => ?_
  rw [Bool.eq_iff_iff, List.isPrefixOf_iff_prefix, List.isPrefixOf_iff_prefix,
    List.prefix_concat_iff]
  -- a symbol that ends in the new character would have it behind its first one
  refine or_iff_right fun hwhole => hd.tail s ?_
  obtain ⟨c, cs, rfl⟩ := List.exists_cons_of_ne_nil hne
  simp [hwhole]

theorem numeralAt_append (hd : Quiet d) (cs : List Char) :
    numeralAt (cs ++ [d]) = numeralAt cs := by
  obtain ⟨htake, hdrop⟩ := takeWhile_append_of_not hd.isDigit cs
  rw [numeralAt, numeralAt, htake, hdrop]
  -- a point needs a digit behind it, which the new character is not
  rcases cs.dropWhile Char.isDigit with _ | ⟨x, _ | ⟨y, more⟩⟩
  · simp
  · by_cases hx : x = '.'
    · subst hx
      simp [hd.isDigit]
    · simp [hx]
  · by_cases hx : x = '.'
    · subst hx
      simp only [List.cons_append, (takeWhile_append_of_not hd.isDigit more).1]
    · simp [hx]

/-- **A quiet character goes on with no lexeme.** -/
theorem lexemeAt_append (hd : Quiet d) (c : Char) (rest : List Char) :
    lexemeAt c (rest ++ [d]) = lexemeAt c rest := by
  rw [lexemeAt, lexemeAt, ← List.cons_append, numeralAt_append hd,
    symbolAt?_append hd (List.cons_ne_nil _ _), (takeWhile_append_of_not hd.isNameChar rest).1]

/-- What a lexeme leaves of a text, with one character more behind it. -/
theorem drop_append_of_lexeme (hl : lexemeAt c rest = .ok l) (d : Char) :
    (c :: (rest ++ [d])).drop l.spelling.length =
      (c :: rest).drop l.spelling.length ++ [d] := by
  rw [← List.cons_append, List.drop_append_of_le_length (lexemeAt_isPrefix hl).1.length_le]

/-! ### Trimmed texts -/

namespace Scans

/-- Texts that are alike behind their blanks and comments are scanned alike. -/
theorem of_behind (h : Scans cs ks) (hbehind : behind false ds = behind false cs) :
    Scans ds ks := by
  cases h with
  | done hcs => exact .done (hbehind.trans hcs)
  | lexeme hcs hl hscan => exact .lexeme (hbehind.trans hcs) hl hscan

/-- A blank at the end makes no difference. -/
theorem of_append_blank (hd : isBlank d = true) (h : Scans (cs ++ [d]) ks) : Scans cs ks := by
  generalize htext : cs ++ [d] = text at h
  induction h generalizing cs with
  | done hbehind =>
      subst htext
      refine .done ?_
      by_contra hne
      rw [behind_append hne] at hbehind
      exact List.append_ne_nil_of_right_ne_nil _ (List.cons_ne_nil _ _) hbehind
  | @lexeme text rest c l ks hbehind hl _ ih =>
      subst htext
      have hne : behind false cs ≠ [] := by
        intro hnil
        rw [behind_append_blank hnil hd] at hbehind
        cases hbehind
      obtain ⟨c', rest', hrest⟩ := List.exists_cons_of_ne_nil hne
      rw [behind_append hne, hrest, List.cons_append] at hbehind
      cases hbehind
      rw [lexemeAt_append (quiet_of_isBlank hd)] at hl
      exact .lexeme hrest hl (ih (drop_append_of_lexeme hl d).symm)

theorem trimStart (h : Scans cs ks) : Scans (trimStart cs) ks := by
  induction cs with
  | nil => exact h
  | cons c cs ih =>
      rw [RhythmLogic.trimStart, List.dropWhile_cons]
      split
      · next hblank => exact ih (h.of_behind (by rw [behind_cons, if_pos hblank]))
      · exact h

theorem trimEnd (h : Scans cs ks) : Scans (trimEnd cs) ks := by
  induction cs using List.reverseRecOn with
  | nil => exact h
  | append_singleton cs d ih =>
      rw [RhythmLogic.trimEnd, List.reverse_append, List.reverse_singleton, List.singleton_append,
        RhythmLogic.trimStart, List.dropWhile_cons]
      split
      · next hblank => exact ih (h.of_append_blank hblank)
      · simpa using h

/-- **A trimmed text has the same tokens.** -/
theorem trimBlank (h : Scans cs ks) : Scans (trimBlank cs) ks := h.trimStart.trimEnd

/-! ### A period behind a text -/

/-- The end mark comes last and only there. -/
theorem exists_ends (h : Scans cs ks) : ∃ ms, ks = ms ++ [.eof] ∧ .eof ∉ ms := by
  induction h with
  | done _ => exact ⟨[], rfl, List.not_mem_nil⟩
  | @lexeme cs rest c l ks _ hl _ ih =>
      obtain ⟨ms, rfl, hms⟩ := ih
      refine ⟨l.kind :: ms, rfl, ?_⟩
      rw [List.mem_cons, not_or]
      exact ⟨(lexemeAt_kind hl).1.symm, hms⟩

/-- A text without characters has the end mark only. -/
theorem of_nil (h : Scans [] ks) : ks = [.eof] := by
  cases h with
  | done _ => rfl
  | lexeme hbehind _ _ => cases hbehind

end Scans

/-- **A closed row of tokens**: the last one before the end mark, if there is one, is a period. -/
def Closed (ks : List TokenKind) : Prop :=
  ∃ ms, ks = ms ++ [.eof] ∧ ∀ k ∈ ms.getLast?, k = .symbol .period

/-- A closed row stays closed without its first token. -/
theorem Closed.tail {k : TokenKind} (h : Closed (k :: ks)) (hks : ks ≠ []) : Closed ks := by
  obtain ⟨ms, hms, hlast⟩ := h
  rcases ms with _ | ⟨m, ms⟩
  · cases hms
    exact absurd rfl hks
  · rw [List.cons_append, List.cons.injEq] at hms
    refine ⟨ms, hms.2, fun k hk => hlast k ?_⟩
    rw [List.getLast?_cons, Option.mem_def.1 hk]
    rfl

theorem Closed.eq_period {k : TokenKind} (h : Closed [k, .eof]) : k = .symbol .period := by
  obtain ⟨ms, hms, hlast⟩ := h
  have hfront : [k] ++ [.eof] = ms ++ [.eof] := hms
  obtain rfl := List.append_cancel_right hfront
  exact hlast k rfl

/-- **A closed text that ends in neither a blank nor a period ends in a comment**, and has the same
tokens with one character more.  The last lexeme would be the period. -/
theorem Scans.append_of_closed (h : Scans cs ks) (hclosed : Closed ks) (hne : cs ≠ [])
    (hlast : ∀ z ∈ cs.getLast?, isBlank z = false ∧ z ≠ '.') (hd : Quiet d) :
    Scans (cs ++ [d]) ks := by
  induction h with
  | done hbehind =>
      exact .done (behind_append_comment hbehind (absurd · hne) (fun z hz => (hlast z hz).1) d)
  | @lexeme cs rest c l ks hbehind hl hscan ih =>
      have hsuffix := behind_suffix false cs
      rw [hbehind] at hsuffix
      have hends : (c :: rest).drop l.spelling.length ≠ [] := by
        intro hnil
        rw [hnil] at hscan
        obtain rfl := hscan.of_nil
        have hspelling := (lexemeAt_kind hl).2 .period hclosed.eq_period
        have hwhole : c :: rest = ['.'] := by
          rw [← List.take_append_drop l.spelling.length (c :: rest), hnil, List.append_nil,
            ← List.prefix_iff_eq_take.1 (lexemeAt_isPrefix hl).1, hspelling]
          rfl
        obtain ⟨before, rfl⟩ := hsuffix
        rw [hwhole] at hlast
        exact (hlast '.' List.getLast?_concat).2 rfl
      obtain ⟨before, hbefore⟩ := (List.drop_suffix l.spelling.length (c :: rest)).trans hsuffix
      have hbehind' : behind false (cs ++ [d]) = c :: (rest ++ [d]) := by
        rw [behind_append (by rw [hbehind]; exact List.cons_ne_nil _ _), hbehind, List.cons_append]
      have hscan' := ih (hclosed.tail ?_) hends ?_
      · rw [← drop_append_of_lexeme hl] at hscan'
        exact .lexeme hbehind' ((lexemeAt_append hd c rest).trans hl) hscan'
      · obtain ⟨ms, rfl, -⟩ := hscan.exists_ends
        exact List.append_ne_nil_of_right_ne_nil _ (List.cons_ne_nil _ _)
      · intro z hz
        refine hlast z ?_
        rw [← hbefore, List.getLast?_append_of_ne_nil _ hends]
        exact hz

end RhythmLogic
