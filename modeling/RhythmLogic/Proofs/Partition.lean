/-
**Texts cut up into lexemes.**

The scanner works its way through a text with a place that it moves along, a table of symbols in a
fixed order, and a look ahead behind a point.  What it is to find can be said without any of this.
A lexeme is a name, a numeral or a symbol; the text is cut up into lexemes and what stands between
them, each lexeme is the longest that starts where it starts, and its token has the place that the
characters before it have.  However a text is cut up like this, the tokens are those that the
scanner finds; and where it stops, no lexeme starts.

Main definitions:

* `Position.after` — the place after some characters, counted;
* `Trivia`, `LastTrivia` — what may stand before a lexeme, and at the end;
* `IsLexeme`, `Longest` — lexemes, and those that do not go on;
* `Cut` — a text cut up into lexemes.

Main results:

* `lexemeAt_ok`, `lexemeAt_error` — the scanner takes the longest lexeme, and stops where none
  starts;
* `exists_cut` — every text is cut up as far as lexemes go;
* `Cut.tokenizeF` — **a text that is cut up is scanned like this**;
* `tokenize_iff` — **what the scanner finds, and where it stops**.
-/

import RhythmLogic.Proofs.Trimming

set_option autoImplicit false

namespace RhythmLogic

variable {c : Char} {cs ds gap before read rest text w v : List Char} {k k' : TokenKind}
  {l : Lexeme}

/-! ### Places -/

/-- **The place after some characters**: the line is one more than the newlines, and the column one
more than the characters after the last of them. -/
def Position.after (before : List Char) : Position :=
  ⟨1 + before.count '\n', 1 + (before.reverse.takeWhile (· ≠ '\n')).length⟩

/-- The place that is moved along is the place that is counted. -/
theorem Position.advance_start (before : List Char) : start.advance before = after before := by
  induction before using List.reverseRecOn with
  | nil => rfl
  | append_singleton before c ih =>
      rw [advance_append, ih, advance_cons, advance_nil, next]
      split
      · next hc =>
        subst hc
        simp [after, Nat.add_assoc]
      · next hc => simp [after, hc, Nat.add_assoc]

theorem Position.advance_after (before cs : List Char) :
    (after before).advance cs = after (before ++ cs) := by
  rw [← advance_start, ← advance_start, advance_append]

/-! ### Between the lexemes -/

/-- **What may stand before a lexeme**: blanks, and comments with the newlines that end them. -/
inductive Trivia : List Char → Prop where
  | nil : Trivia []
  | blank {c : Char} {cs : List Char} : isBlank c = true → Trivia cs → Trivia (c :: cs)
  | comment {body cs : List Char} : '\n' ∉ body → Trivia cs → Trivia ('%' :: body ++ '\n' :: cs)

/-- **What may stand at the end**: the last comment may be without a newline. -/
inductive LastTrivia : List Char → Prop where
  | trivia {gap : List Char} : Trivia gap → LastTrivia gap
  | comment {gap body : List Char} : Trivia gap → '\n' ∉ body → LastTrivia (gap ++ '%' :: body)

theorem skipTrivia_comment (hbody : '\n' ∉ ds) (p : Position) (cs : List Char) :
    skipTrivia true p (ds ++ '\n' :: cs) = skipTrivia false ((p.advance ds).next '\n') cs := by
  induction ds generalizing p with
  | nil => rfl
  | cons d ds ih =>
      rw [List.mem_cons, not_or] at hbody
      rw [List.cons_append, skipTrivia, if_pos rfl, bne_iff_ne.2 (Ne.symm hbody.1), ih hbody.2,
        Position.advance_cons]

theorem skipTrivia_lastComment (hbody : '\n' ∉ ds) (p : Position) :
    skipTrivia true p ds = (p.advance ds, []) := by
  induction ds generalizing p with
  | nil => rfl
  | cons d ds ih =>
      rw [List.mem_cons, not_or] at hbody
      rw [skipTrivia, if_pos rfl, bne_iff_ne.2 (Ne.symm hbody.1), ih hbody.2, Position.advance_cons]

theorem skipTrivia_percent (p : Position) (cs : List Char) :
    skipTrivia false p ('%' :: cs) = skipTrivia true (p.next '%') cs := by
  have hpercent : isBlank '%' = false := by decide
  rw [skipTrivia, if_neg Bool.false_ne_true, hpercent, if_neg Bool.false_ne_true, if_pos rfl]

/-- **Trivia are skipped**, and move the place along. -/
theorem Trivia.skipTrivia_append (h : Trivia gap) (p : Position) (cs : List Char) :
    skipTrivia false p (gap ++ cs) = skipTrivia false (p.advance gap) cs := by
  induction h generalizing p with
  | nil => rfl
  | blank hc _ ih =>
      rw [List.cons_append, skipTrivia, if_neg Bool.false_ne_true, if_pos hc, ih,
        Position.advance_cons]
  | @comment body gap hbody _ ih =>
      have hsplit : '%' :: body ++ '\n' :: gap ++ cs = '%' :: (body ++ '\n' :: (gap ++ cs)) := by
        simp
      rw [hsplit, skipTrivia_percent, skipTrivia_comment hbody, ih, List.cons_append,
        Position.advance_cons, Position.advance_append, Position.advance_cons]

theorem LastTrivia.skipTrivia_eq (h : LastTrivia gap) (p : Position) :
    skipTrivia false p gap = (p.advance gap, []) := by
  cases h with
  | trivia h =>
      have hskip := h.skipTrivia_append p []
      rwa [List.append_nil] at hskip
  | comment h hbody =>
      rw [h.skipTrivia_append, skipTrivia_percent, skipTrivia_lastComment hbody,
        Position.advance_append, Position.advance_cons]

/-- What stops the scanner from skipping. -/
theorem skipTrivia_stops (hblank : isBlank c = false) (hcomment : c ≠ '%') (p : Position)
    (cs : List Char) : skipTrivia false p (c :: cs) = (p, c :: cs) := by
  rw [skipTrivia, if_neg Bool.false_ne_true, hblank, if_neg Bool.false_ne_true, if_neg hcomment]

/-- **A text is trivia, or has trivia up to a character that is neither.** -/
theorem exists_trivia (cs : List Char) : LastTrivia cs ∨ ∃ gap c rest,
    cs = gap ++ c :: rest ∧ Trivia gap ∧ isBlank c = false ∧ c ≠ '%' := by
  induction hlength : cs.length using Nat.strong_induction_on generalizing cs with
  | h n ih =>
  subst hlength
  rcases cs with _ | ⟨c, cs⟩
  · exact .inl (.trivia .nil)
  by_cases hblank : isBlank c = true
  · rcases ih cs.length (Nat.lt_succ_self _) cs rfl with hlast | ⟨gap, d, rest, rfl, hgap, hd⟩
    · left
      cases hlast with
      | trivia hgap => exact .trivia (.blank hblank hgap)
      | comment hgap hbody => exact .comment (.blank hblank hgap) hbody
    · exact .inr ⟨c :: gap, d, rest, rfl, .blank hblank hgap, hd⟩
  by_cases hcomment : c = '%'
  · subst hcomment
    by_cases hnewline : '\n' ∈ cs
    · obtain ⟨body, more, rfl, hbody⟩ := List.eq_append_cons_of_mem hnewline
      have hlt : more.length < ('%' :: (body ++ '\n' :: more)).length := by
        simp
        omega
      rcases ih more.length hlt more rfl with hlast | ⟨gap, d, rest, rfl, hgap, hd⟩
      · left
        cases hlast with
        | trivia hgap => exact .trivia (.comment hbody hgap)
        | @comment gap body' hgap hbody' =>
            have hsplit : '%' :: (body ++ '\n' :: (gap ++ '%' :: body')) =
              ('%' :: body ++ '\n' :: gap) ++ '%' :: body' := by simp
            rw [hsplit]
            exact .comment (.comment hbody hgap) hbody'
      · exact .inr ⟨'%' :: body ++ '\n' :: gap, d, rest, by simp, .comment hbody hgap, hd⟩
    · exact .inl (.comment .nil hnewline)
  · exact .inr ⟨[], c, cs, rfl, .nil, by simpa using hblank, hcomment⟩

/-! ### Lexemes -/

/-- **Names, numerals and symbols**, each with the token that it is. -/
inductive IsLexeme : TokenKind → List Char → Prop where
  | name {x : String} : IsName x → IsLexeme (.name x) x.toList
  | number (n : NumeralParts) : IsLexeme (.number (n.numeral false).toFloat) n.spelling
  | symbol (s : Sym) : IsLexeme (.symbol s) s.text.toList

/-- **A lexeme that does not go on**: none that starts where it starts is longer. -/
def Longest (w rest : List Char) : Prop :=
  ∀ k v, IsLexeme k v → v <+: w ++ rest → v.length ≤ w.length

/-- The first character of a symbol starts nothing else. -/
theorem Sym.exists_cons (s : Sym) : ∃ c cs, s.text.toList = c :: cs ∧ isBlank c = false ∧
    c ≠ '%' ∧ c.isDigit = false ∧ isNameStart c = false := by
  cases s <;> exact ⟨_, _, rfl, by decide, by decide, by decide, by decide⟩

/-- A lexeme has a first character, which is no trivia. -/
theorem IsLexeme.exists_cons (h : IsLexeme k w) :
    ∃ c cs, w = c :: cs ∧ isBlank c = false ∧ c ≠ '%' := by
  cases h with
  | name hx =>
      obtain ⟨c, cs, hxs, hc, -⟩ := hx
      obtain ⟨hblank, hcomment, -⟩ := isNameStart_apart hc
      exact ⟨c, cs, hxs, hblank, hcomment⟩
  | number n =>
      obtain ⟨c, cs, hspelling, hc⟩ := n.exists_cons
      obtain ⟨hblank, hother, -⟩ := isDigit_apart hc
      exact ⟨c, cs, hspelling, hblank, fun h => hother (h ▸ List.mem_cons_self)⟩
  | symbol s =>
      obtain ⟨c, cs, htext, hblank, hcomment, -⟩ := s.exists_cons
      exact ⟨c, cs, htext, hblank, hcomment⟩

/-- A lexeme at the start of a text has its first character. -/
theorem IsLexeme.of_prefix (h : IsLexeme k w) (hw : w <+: c :: cs) :
    ∃ ds, w = c :: ds ∧ ds <+: cs := by
  obtain ⟨d, ds, rfl, -⟩ := h.exists_cons
  obtain ⟨rfl, hds⟩ := List.cons_prefix_cons.1 hw
  exact ⟨ds, rfl, hds⟩

/-- What starts with a digit is a numeral. -/
theorem IsLexeme.number_of (h : IsLexeme k (c :: cs)) (hc : c.isDigit = true) :
    ∃ n : NumeralParts, k = .number (n.numeral false).toFloat ∧ c :: cs = n.spelling := by
  generalize hw : c :: cs = w at h
  cases h with
  | name hx =>
      obtain ⟨c', cs', hxs, hc', -⟩ := hx
      cases hw.trans hxs
      rw [(isNameStart_apart hc').2.2] at hc
      cases hc
  | number n => exact ⟨n, rfl, rfl⟩
  | symbol s =>
      obtain ⟨c', cs', htext, -, -, hdigit, -⟩ := s.exists_cons
      cases hw.trans htext
      rw [hdigit] at hc
      cases hc

/-- What starts like a name is a name. -/
theorem IsLexeme.name_of (h : IsLexeme k (c :: cs)) (hc : isNameStart c = true) :
    k = .name (String.ofList (c :: cs)) ∧ ∀ d ∈ cs, isNameChar d = true := by
  generalize hw : c :: cs = w at h
  cases h with
  | name hx =>
      obtain ⟨c', cs', hxs, -, hcs'⟩ := hx
      cases hw.trans hxs
      exact ⟨by rw [String.ofList_toList], hcs'⟩
  | number n =>
      obtain ⟨c', cs', hspelling, hdigit⟩ := n.exists_cons
      cases hw.trans hspelling
      rw [(isNameStart_apart hc).2.2] at hdigit
      cases hdigit
  | symbol s =>
      obtain ⟨c', cs', htext, -, -, -, hstart⟩ := s.exists_cons
      cases hw.trans htext
      rw [hstart] at hc
      cases hc

/-- What starts like neither is a symbol. -/
theorem IsLexeme.symbol_of (h : IsLexeme k (c :: cs)) (hdigit : c.isDigit = false)
    (hstart : isNameStart c = false) : ∃ s, k = .symbol s ∧ c :: cs = s.text.toList := by
  generalize hw : c :: cs = w at h
  cases h with
  | name hx =>
      obtain ⟨c', cs', hxs, hc', -⟩ := hx
      cases hw.trans hxs
      rw [hstart] at hc'
      cases hc'
  | number n =>
      obtain ⟨c', cs', hspelling, hc'⟩ := n.exists_cons
      cases hw.trans hspelling
      rw [hdigit] at hc'
      cases hc'
  | symbol s => exact ⟨s, rfl, rfl⟩

theorem symbolAt?_text (s : Sym) : symbolAt? s.text.toList = some s := by
  cases s <;> rfl

/-- **A lexeme is one token**: its characters say which. -/
theorem IsLexeme.kind_unique (h : IsLexeme k w) (h' : IsLexeme k' w) : k = k' := by
  obtain ⟨c, cs, rfl, -⟩ := h.exists_cons
  by_cases hdigit : c.isDigit = true
  · obtain ⟨n, rfl, hn⟩ := h.number_of hdigit
    obtain ⟨n', rfl, hn'⟩ := h'.number_of hdigit
    have hvalue := n.unsigned?_spelling false
    rw [← hn, hn', n'.unsigned?_spelling false, Option.some.injEq] at hvalue
    rw [hvalue]
  by_cases hstart : isNameStart c = true
  · rw [(h.name_of hstart).1, (h'.name_of hstart).1]
  · rw [Bool.not_eq_true] at hdigit hstart
    obtain ⟨s, rfl, hs⟩ := h.symbol_of hdigit hstart
    obtain ⟨s', rfl, hs'⟩ := h'.symbol_of hdigit hstart
    have hsame := symbolAt?_text s
    rw [← hs, hs', symbolAt?_text, Option.some.injEq] at hsame
    rw [hsame]

/-! ### The scanner takes the longest lexeme -/

/-- Characters of a kind that a text starts with are among the first of this kind. -/
theorem prefix_takeWhile {p : Char → Bool} (h : ds <+: cs) (hds : ∀ d ∈ ds, p d = true) :
    ds <+: cs.takeWhile p := by
  obtain ⟨more, rfl⟩ := h
  rw [List.takeWhile_append_of_pos hds]
  exact List.prefix_append _ _

/-- The numeral that is taken is one. -/
theorem exists_numeralAt (hc : c.isDigit = true) (cs : List Char) :
    ∃ n : NumeralParts, numeralAt (c :: cs) = n.spelling := by
  have hne : (c :: cs).takeWhile Char.isDigit ≠ [] := by
    rw [List.takeWhile_cons_of_pos hc]
    exact List.cons_ne_nil _ _
  have hdigits : ∀ {ds : List Char}, ∀ d ∈ ds.takeWhile Char.isDigit, d.isDigit = true :=
    fun d hd => List.mem_takeWhile_imp hd
  have hwhole : ∃ n : NumeralParts, (c :: cs).takeWhile Char.isDigit = n.spelling :=
    ⟨⟨_, [], hne, hdigits, nofun⟩, by simp [NumeralParts.spelling]⟩
  rw [numeralAt]
  split
  · next d rest _ =>
    split
    · next hd =>
      refine ⟨⟨_, d :: rest.takeWhile Char.isDigit, hne, hdigits, ?_⟩,
        by simp [NumeralParts.spelling]⟩
      rintro x (_ | ⟨_, hx⟩)
      · exact hd
      · exact hdigits x hx
    · exact hwhole
  · exact hwhole

/-- **The longest numeral is taken**: a point and the digits behind it belong to it. -/
theorem length_le_numeralAt (n : NumeralParts) (h : n.spelling <+: cs) :
    n.spelling.length ≤ (numeralAt cs).length := by
  obtain ⟨whole, fraction, hne, hwhole, hfraction⟩ := n
  rcases fraction with _ | ⟨d, ds⟩
  · have hstart : whole <+: cs.takeWhile Char.isDigit := by
      refine prefix_takeWhile ?_ hwhole
      simpa [NumeralParts.spelling] using h
    have hlength := hstart.length_le
    simp only [NumeralParts.spelling, List.isEmpty_nil, if_true, List.append_nil]
    rw [numeralAt]
    split
    · split
      · rw [List.length_append]
        omega
      · exact hlength
    · exact hlength
  · obtain ⟨more, rfl⟩ := h
    obtain ⟨hd, hds⟩ := List.forall_mem_cons.1 hfraction
    obtain ⟨htake, hdrop⟩ := takeWhile_append_stops ('.' :: d :: (ds ++ more)) hwhole (by simp)
    have hsplit : whole ++ '.' :: d :: ds ++ more = whole ++ '.' :: d :: (ds ++ more) := by simp
    have hrest := (prefix_takeWhile (List.prefix_append ds more) hds).length_le
    simp only [NumeralParts.spelling, List.isEmpty_cons, if_neg Bool.false_ne_true, hsplit,
      numeralAt, htake, hdrop, if_pos hd, List.length_append, List.length_cons]
    omega

/-- In the order in which symbols are looked for, none comes before one that it starts. -/
theorem symbols_pairwise :
    symbols.Pairwise fun s t => s.text.toList.isPrefixOf t.text.toList = false := by
  decide

theorem mem_symbols (s : Sym) : s ∈ symbols := by
  cases s <;> decide

/-- **The longest symbol is taken.** -/
theorem length_le_symbolAt? {s t : Sym} (hs : symbolAt? cs = some s) (ht : t.text.toList <+: cs) :
    t.text.toList.length ≤ s.text.toList.length := by
  rw [symbolAt?_eq_find?, List.find?_eq_some_iff_append] at hs
  obtain ⟨hstarts, earlier, later, hsymbols, hearlier⟩ := hs
  have hmem := mem_symbols t
  rw [hsymbols, List.mem_append, List.mem_cons] at hmem
  rcases hmem with hmem | rfl | hmem
  · have hnot := hearlier t hmem
    rw [List.isPrefixOf_iff_prefix.2 ht] at hnot
    cases hnot
  · exact le_rfl
  · have hpairwise := symbols_pairwise
    rw [hsymbols, List.pairwise_append, List.pairwise_cons] at hpairwise
    have hnot := hpairwise.2.1.1 t hmem
    rcases List.prefix_or_prefix_of_prefix ht (List.isPrefixOf_iff_prefix.1 hstarts) with hle | hle
    · exact hle.length_le
    · rw [List.isPrefixOf_iff_prefix.2 hle] at hnot
      cases hnot

/-- **What the scanner takes is a lexeme, and the longest.** -/
theorem lexemeAt_ok (h : lexemeAt c cs = .ok l) : IsLexeme l.kind l.spelling ∧
    ∃ rest, c :: cs = l.spelling ++ rest ∧ Longest l.spelling rest := by
  obtain ⟨⟨rest, hrest⟩, hne⟩ := lexemeAt_isPrefix h
  suffices IsLexeme l.kind l.spelling ∧
      ∀ k w, IsLexeme k w → w <+: c :: cs → w.length ≤ l.spelling.length from
    ⟨this.1, rest, hrest.symm, by rw [Longest, hrest]; exact this.2⟩
  rw [lexemeAt] at h
  split_ifs at h with hdigit hstart
  · obtain ⟨n, hn⟩ := exists_numeralAt hdigit cs
    rw [hn] at h
    dsimp only at h
    rw [n.unsigned?_spelling false] at h
    cases h
    refine ⟨.number n, fun k w hw hprefix => ?_⟩
    obtain ⟨ds, rfl, -⟩ := hw.of_prefix hprefix
    obtain ⟨m, -, hm⟩ := hw.number_of hdigit
    rw [hm] at hprefix ⊢
    rw [← hn]
    exact length_le_numeralAt m hprefix
  · cases h
    have hname : IsLexeme (.name (String.ofList (c :: cs.takeWhile isNameChar)))
        (c :: cs.takeWhile isNameChar) := by
      have hlexeme := IsLexeme.name (x := String.ofList (c :: cs.takeWhile isNameChar))
        ⟨c, _, String.toList_ofList, hstart, fun d hd => List.mem_takeWhile_imp hd⟩
      rwa [String.toList_ofList] at hlexeme
    refine ⟨hname, fun k w hw hprefix => ?_⟩
    obtain ⟨ds, rfl, hrest⟩ := hw.of_prefix hprefix
    exact Nat.succ_le_succ (prefix_takeWhile hrest (hw.name_of hstart).2).length_le
  · split at h
    · next s hs =>
      cases h
      refine ⟨.symbol s, fun k w hw hprefix => ?_⟩
      obtain ⟨ds, rfl, -⟩ := hw.of_prefix hprefix
      obtain ⟨t, -, ht⟩ := hw.symbol_of (by simpa using hdigit) (by simpa using hstart)
      rw [ht] at hprefix ⊢
      exact length_le_symbolAt? hs hprefix
    · cases h

/-- **Where the scanner stops, no lexeme starts**; and a numeral is never malformed. -/
theorem lexemeAt_error {cause : ParseError.Cause} (h : lexemeAt c cs = .error cause) :
    cause = .invalidCharacter c ∧ ∀ k w, IsLexeme k w → ¬ w <+: c :: cs := by
  rw [lexemeAt] at h
  split_ifs at h with hdigit hstart
  · obtain ⟨n, hn⟩ := exists_numeralAt hdigit cs
    rw [hn] at h
    dsimp only at h
    rw [n.unsigned?_spelling false] at h
    cases h
  · split at h
    · cases h
    · next hnone =>
      cases h
      refine ⟨rfl, fun k w hw hprefix => ?_⟩
      obtain ⟨ds, rfl, -⟩ := hw.of_prefix hprefix
      obtain ⟨t, -, ht⟩ := hw.symbol_of (by simpa using hdigit) (by simpa using hstart)
      rw [ht] at hprefix
      rw [symbolAt?_eq_find?, List.find?_eq_none] at hnone
      exact hnone t (mem_symbols t) (List.isPrefixOf_iff_prefix.2 hprefix)

/-- **The longest lexeme is the one that is taken.** -/
theorem lexemeAt_of_longest (h : IsLexeme k w) (hlongest : Longest w rest)
    (hw : w ++ rest = c :: cs) : lexemeAt c cs = .ok ⟨k, w⟩ := by
  have hprefix : w <+: c :: cs := ⟨rest, hw⟩
  cases hl : lexemeAt c cs with
  | error cause => exact absurd hprefix ((lexemeAt_error hl).2 k w h)
  | ok l =>
      obtain ⟨hlexeme, more, hmore, hlongest'⟩ := lexemeAt_ok hl
      have hle := hlongest' k w h (hmore ▸ hprefix)
      have hge := hlongest l.kind l.spelling hlexeme (hw ▸ ⟨more, hmore.symm⟩)
      have hspelling : w = l.spelling :=
        (List.append_inj (hw.trans hmore) (Nat.le_antisymm hle hge)).1
      subst hspelling
      rw [h.kind_unique hlexeme]

/-! ### Texts cut up -/

/-- **A text cut up into lexemes**, behind what stands before it and up to what is left: trivia, a
lexeme that does not go on, and so on.  Each token has the place of its first character. -/
inductive Cut : List Char → List Char → List Token → List Char → Prop where
  | nil (before rest : List Char) : Cut before [] [] rest
  | cons {before gap w read rest : List Char} {k : TokenKind} {tokens : List Token} :
      Trivia gap → IsLexeme k w → Longest w (read ++ rest) →
      Cut (before ++ gap ++ w) read tokens rest →
      Cut before (gap ++ w ++ read) (⟨k, .after (before ++ gap)⟩ :: tokens) rest

variable {tokens ms : List Token} {e : ParseError}

/-- There are no more tokens than characters. -/
theorem Cut.length_le (h : Cut before read tokens rest) : tokens.length ≤ read.length := by
  induction h with
  | nil => exact le_rfl
  | cons _ hw _ _ ih =>
      obtain ⟨c, cs, rfl, -⟩ := hw.exists_cons
      simp only [List.length_append, List.length_cons]
      omega

/-- **A text that is cut up is scanned like this**, and then what is left is scanned. -/
theorem Cut.tokenizeF (h : Cut before read tokens rest) (fuel : ℕ) :
    tokenizeF (fuel + tokens.length) (.after before) (read ++ rest) =
      (tokenizeF fuel (.after (before ++ read)) rest).map (tokens ++ ·) := by
  induction h with
  | nil before rest =>
      rw [List.append_nil, List.nil_append, List.length_nil, Nat.add_zero]
      cases RhythmLogic.tokenizeF fuel (.after before) rest <;> rfl
  | @cons before gap w read rest k tokens hgap hw hlongest _ ih =>
      obtain ⟨c, cs, rfl, hblank, hcomment⟩ := hw.exists_cons
      have hsplit : gap ++ c :: cs ++ read ++ rest = gap ++ c :: (cs ++ (read ++ rest)) := by simp
      have hlexeme : lexemeAt c (cs ++ (read ++ rest)) = .ok ⟨k, c :: cs⟩ :=
        lexemeAt_of_longest hw hlongest rfl
      have hdrop : (c :: (cs ++ (read ++ rest))).drop (c :: cs).length = read ++ rest := by simp
      have hread : before ++ (gap ++ c :: cs ++ read) = before ++ gap ++ c :: cs ++ read := by simp
      rw [hsplit, List.length_cons, ← Nat.add_assoc, RhythmLogic.tokenizeF, hgap.skipTrivia_append,
        skipTrivia_stops hblank hcomment, Position.advance_after]
      dsimp only
      rw [hlexeme]
      dsimp only
      rw [hdrop, Position.advance_after, ih, hread]
      cases RhythmLogic.tokenizeF fuel (.after (before ++ gap ++ c :: cs ++ read)) rest <;> rfl

/-- **A text is cut up as far as lexemes go**: to its end, or to a character that starts none. -/
theorem exists_cut (before cs : List Char) : ∃ read rest ms, cs = read ++ rest ∧
    Cut before read ms rest ∧ (LastTrivia rest ∨ ∃ gap c more, rest = gap ++ c :: more ∧
      Trivia gap ∧ isBlank c = false ∧ c ≠ '%' ∧ ∀ k w, IsLexeme k w → ¬ w <+: c :: more) := by
  induction hlength : cs.length using Nat.strong_induction_on generalizing cs before with
  | h n ih =>
  subst hlength
  rcases exists_trivia cs with hlast | ⟨gap, c, more, rfl, hgap, hblank, hcomment⟩
  · exact ⟨[], cs, [], rfl, .nil _ _, .inl hlast⟩
  cases hl : lexemeAt c more with
  | error cause =>
      exact ⟨[], _, [], rfl, .nil _ _, .inr ⟨gap, c, more, rfl, hgap, hblank, hcomment,
        (lexemeAt_error hl).2⟩⟩
  | ok l =>
      obtain ⟨hlexeme, left, hleft, hlongest⟩ := lexemeAt_ok hl
      have hlt : left.length < (gap ++ c :: more).length := by
        obtain ⟨d, ds, hds, -⟩ := hlexeme.exists_cons
        rw [hleft, hds]
        simp
        omega
      obtain ⟨read, rest, ms, rfl, hcut, hend⟩ :=
        ih left.length hlt (before ++ gap ++ l.spelling) left rfl
      exact ⟨gap ++ l.spelling ++ read, rest, _, by rw [hleft]; simp,
        .cons hgap hlexeme hlongest hcut, hend⟩

/-- What is trivia to the end is scanned as the end mark. -/
theorem LastTrivia.tokenizeF (h : LastTrivia rest) (before : List Char) (fuel : ℕ) :
    tokenizeF (fuel + 1) (.after before) rest = .ok [⟨.eof, .after (before ++ rest)⟩] := by
  rw [RhythmLogic.tokenizeF, h.skipTrivia_eq, Position.advance_after]

/-- Where no lexeme starts the scanner stops. -/
theorem tokenizeF_stops {more : List Char} (hgap : Trivia gap) (hblank : isBlank c = false)
    (hcomment : c ≠ '%') (hno : ∀ k w, IsLexeme k w → ¬ w <+: c :: more) (before : List Char)
    (fuel : ℕ) : tokenizeF (fuel + 1) (.after before) (gap ++ c :: more) =
      .error ⟨.invalidCharacter c, .after (before ++ gap)⟩ := by
  rw [tokenizeF, hgap.skipTrivia_append, skipTrivia_stops hblank hcomment, Position.advance_after]
  dsimp only
  cases hl : lexemeAt c more with
  | error cause => rw [(lexemeAt_error hl).1]
  | ok l =>
      obtain ⟨hlexeme, left, hleft, -⟩ := lexemeAt_ok hl
      exact absurd ⟨left, hleft.symm⟩ (hno _ _ hlexeme)

/-- The fuel of the scanner suffices for what is cut up, and for one token more. -/
theorem Cut.exists_fuel (h : Cut [] read ms rest) : ∃ fuel, tokenize (read ++ rest) =
    (RhythmLogic.tokenizeF (fuel + 1) (.after read) rest).map (ms ++ ·) := by
  have hlength := h.length_le
  obtain ⟨fuel, hfuel⟩ : ∃ fuel, (read ++ rest).length + 1 = fuel + 1 + ms.length :=
    ⟨(read ++ rest).length - ms.length, by rw [List.length_append]; omega⟩
  refine ⟨fuel, ?_⟩
  rw [tokenize, hfuel]
  exact h.tokenizeF (fuel + 1)

/-- A text that is cut up to its end has these tokens. -/
theorem Cut.tokenize_last (h : Cut [] read ms rest) (hlast : LastTrivia rest) :
    tokenize (read ++ rest) = .ok (ms ++ [⟨.eof, .after (read ++ rest)⟩]) := by
  obtain ⟨fuel, htokens⟩ := h.exists_fuel
  rw [htokens, hlast.tokenizeF]
  rfl

/-- A text that is cut up to a character that starts no lexeme is refused there. -/
theorem Cut.tokenize_stops (h : Cut [] read ms (gap ++ c :: rest)) (hgap : Trivia gap)
    (hblank : isBlank c = false) (hcomment : c ≠ '%')
    (hno : ∀ k w, IsLexeme k w → ¬ w <+: c :: rest) :
    tokenize (read ++ gap ++ c :: rest) =
      .error ⟨.invalidCharacter c, .after (read ++ gap)⟩ := by
  obtain ⟨fuel, htokens⟩ := h.exists_fuel
  rw [List.append_assoc, htokens, tokenizeF_stops hgap hblank hcomment hno]
  rfl

/-- **What the scanner finds, and where it stops.**  The tokens of a text are those of the lexemes
into which it is cut up, each with its place, and the end mark behind what is left, which is trivia.
A text is refused if it is cut up to a character that starts no lexeme; the refusal names the
character and its place, and there is no other. -/
theorem tokenize_iff (cs : List Char) :
    (∀ tokens, tokenize cs = .ok tokens ↔ ∃ read last ms, cs = read ++ last ∧
      Cut [] read ms last ∧ LastTrivia last ∧ tokens = ms ++ [⟨.eof, .after cs⟩]) ∧
    ∀ e, tokenize cs = .error e ↔ ∃ read gap c rest ms, cs = read ++ gap ++ c :: rest ∧
      Cut [] read ms (gap ++ c :: rest) ∧ Trivia gap ∧ isBlank c = false ∧ c ≠ '%' ∧
      (∀ k w, IsLexeme k w → ¬ w <+: c :: rest) ∧
      e = ⟨.invalidCharacter c, .after (read ++ gap)⟩ := by
  obtain ⟨read, rest, ms, hcs, hcut, hend⟩ := exists_cut [] cs
  constructor
  · intro tokens
    constructor
    · intro htokens
      rcases hend with hlast | ⟨gap, c, more, rfl, hgap, hblank, hcomment, hno⟩
      · rw [hcs, hcut.tokenize_last hlast] at htokens
        cases htokens
        exact ⟨read, rest, ms, hcs, hcut, hlast, by rw [hcs]⟩
      · rw [hcs, ← List.append_assoc, hcut.tokenize_stops hgap hblank hcomment hno] at htokens
        cases htokens
    · rintro ⟨read, last, ms, rfl, hcut, hlast, rfl⟩
      exact hcut.tokenize_last hlast
  · intro e
    constructor
    · intro herror
      rcases hend with hlast | ⟨gap, c, more, rfl, hgap, hblank, hcomment, hno⟩
      · rw [hcs, hcut.tokenize_last hlast] at herror
        cases herror
      · rw [hcs, ← List.append_assoc, hcut.tokenize_stops hgap hblank hcomment hno] at herror
        cases herror
        exact ⟨read, gap, c, more, ms, by rw [hcs, List.append_assoc], hcut, hgap, hblank, hcomment,
          hno, rfl⟩
    · rintro ⟨read, gap, c, rest, ms, rfl, hcut, hgap, hblank, hcomment, hno, rfl⟩
      exact hcut.tokenize_stops hgap hblank hcomment hno

end RhythmLogic
