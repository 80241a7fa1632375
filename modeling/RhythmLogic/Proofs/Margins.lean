/-
**Where an error is told, when the blanks before a text were cut off.**

A text that is checked is read as it stands, and a text that is evaluated is trimmed first.  For a
text that ends in its period the only difference is its margin, the blanks at its start.  They are
no part of any token, so that both readings refuse the same texts for the same causes.  But places
are counted in what is read, and without its margin a text starts at the first line and column: each
line break that is cut off is missing from the line that is told, and each blank before the first
character that is left is missing from the column, as long as the error is on the first line.

How a place moves when something is put before the text is said once, and the scanner and the reader
carry it along.  For the reader this says more: it cannot tell a place that no token has, since the
error would have to move along with this place while the tokens stay.

Main definitions:

* `Position.behind` — a place of a text, counted from where something before the text starts;
* `margin` — the blanks at the start of a text.

Main results:

* `tokenize_behind`, `parseProgram_behind` — **the tokens and the errors of a text behind trivia**;
* `exists_token_of_programOf`, `exists_after_of_parseProgram` — an error is told at a token, and so
  at a place of the text;
* `readCompleted_error_margin` — **what is cut off is missing from the place that is told**;
* `readCompleted_blankLines` — an error on the third line that is told on the first one.
-/

import RhythmLogic.Proofs.FinalPeriod

set_option autoImplicit false

namespace RhythmLogic

variable {cs ms before read rest : List Char} {tokens : List Token} {text text' : String}
  {e : ParseError}

/-! ### Places behind something -/

namespace Position

/-- **A place of a text behind something that ends at `a`**: only on its first line columns are
counted on from there. -/
def behind (a p : Position) : Position :=
  if p.line = 1 then ⟨a.line, a.column + (p.column - 1)⟩ else ⟨a.line + (p.line - 1), p.column⟩

/-- Without a line break the columns are counted on. -/
theorem after_append_of_notMem (h : '\n' ∉ cs) (ms : List Char) :
    after (ms ++ cs) = ⟨(after ms).line, (after ms).column + cs.length⟩ := by
  have hall : ∀ c ∈ cs.reverse, decide (c ≠ '\n') = true := by
    intro c hc
    rw [decide_eq_true_eq]
    rintro rfl
    exact h (List.mem_reverse.1 hc)
  simp only [after, List.reverse_append, List.takeWhile_append_of_pos hall, List.count_append,
    List.count_eq_zero.2 h, List.length_append, List.length_reverse, mk.injEq]
  omega

/-- Behind a line break the column is that of the text alone. -/
theorem after_append_of_mem (h : '\n' ∈ cs) (ms : List Char) :
    after (ms ++ cs) = ⟨(after ms).line + cs.count '\n', (after cs).column⟩ := by
  have hstops : (cs.reverse.takeWhile (· ≠ '\n')).length ≠ cs.reverse.length := by
    intro hlength
    have hall := (List.takeWhile_prefix (· ≠ '\n')).eq_of_length hlength
    have hnot := List.takeWhile_eq_self_iff.1 hall '\n' (List.mem_reverse.2 h)
    simp at hnot
  simp only [after, List.reverse_append, List.takeWhile_append, if_neg hstops, List.count_append,
    mk.injEq, and_true]
  omega

/-- Without a line break a text is one line. -/
theorem after_of_notMem (h : '\n' ∉ cs) : after cs = ⟨1, 1 + cs.length⟩ := by
  simpa [after] using after_append_of_notMem h []

theorem behind_after (ms cs : List Char) : (after ms).behind (after cs) = after (ms ++ cs) := by
  by_cases hbreak : '\n' ∈ cs
  · have hcount := List.count_pos_iff.2 hbreak
    have hline : (after cs).line = 1 + cs.count '\n' := rfl
    rw [behind, if_neg (by omega), after_append_of_mem hbreak, hline, Nat.add_sub_cancel_left]
  · rw [after_of_notMem hbreak, after_append_of_notMem hbreak]
    simp [behind]

/-- **When what stands before a text does not change its places**: nothing stands there, or no line
break does and the place is behind one. -/
theorem after_eq_iff (ms cs : List Char) :
    after cs = after (ms ++ cs) ↔ ms = [] ∨ '\n' ∉ ms ∧ '\n' ∈ cs := by
  constructor
  · intro hsame
    have hcount : ms.count '\n' = 0 := by
      have hline : 1 + cs.count '\n' = 1 + (ms ++ cs).count '\n' := congrArg line hsame
      rw [List.count_append] at hline
      omega
    have hms := List.count_eq_zero.1 hcount
    by_cases hbreak : '\n' ∈ cs
    · exact .inr ⟨hms, hbreak⟩
    · have hcolumn := congrArg column hsame
      rw [after_append_of_notMem hbreak, after_of_notMem hbreak, after_of_notMem hms] at hcolumn
      dsimp only at hcolumn
      exact .inl (List.eq_nil_of_length_eq_zero (by omega))
  · rintro (rfl | ⟨hms, hbreak⟩)
    · rfl
    · rw [after_append_of_mem hbreak, after_of_notMem hms]
      rfl

end Position

/-! ### Texts behind trivia -/

/-- A text that is cut up is cut up in the same way behind something. -/
theorem Cut.behind {tokens : List Token} (h : Cut before read tokens rest) (ms : List Char) :
    Cut (ms ++ before) read (tokens.map (Token.moved (Position.after ms).behind)) rest := by
  induction h with
  | nil => exact .nil _ _
  | @cons before gap w read rest k tokens hgap hw hlongest _ ih =>
      have hplace : (Position.after ms).behind (.after (before ++ gap)) =
          .after (ms ++ before ++ gap) := by
        rw [Position.behind_after, List.append_assoc]
      have hrest : ms ++ (before ++ gap ++ w) = ms ++ before ++ gap ++ w := by simp
      rw [hrest] at ih
      rw [List.map_cons, Token.moved, hplace]
      exact .cons hgap hw hlongest ih

/-- **The tokens of a text behind trivia** are those of the text in other places, and the scanner
stops at the same character. -/
theorem tokenize_behind (hms : Trivia ms) (cs : List Char) :
    tokenize (ms ++ cs) =
      ((tokenize cs).map (List.map (Token.moved (Position.after ms).behind))).mapError
        (ParseError.moved (Position.after ms).behind) := by
  obtain ⟨read, rest, tokens, rfl, hcut, hend⟩ := exists_cut [] cs
  have hbehind := hcut.behind ms
  rw [List.append_nil] at hbehind
  have hlength := hbehind.length_le
  obtain ⟨fuel, hfuel⟩ : ∃ fuel, (ms ++ (read ++ rest)).length + 1 = fuel + 1 +
      (tokens.map (Token.moved (Position.after ms).behind)).length :=
    ⟨(ms ++ (read ++ rest)).length - tokens.length, by
      simp only [List.length_append, List.length_map] at hlength ⊢
      omega⟩
  -- the scanner skips the trivia, and has fuel enough to come to what is left
  have hscan : tokenize (ms ++ (read ++ rest)) =
      (tokenizeF (fuel + 1) (.after (ms ++ read)) rest).map
        (tokens.map (Token.moved (Position.after ms).behind) ++ ·) := by
    rw [← hbehind.tokenizeF (fuel + 1), ← hfuel, tokenize, tokenizeF, tokenizeF,
      hms.skipTrivia_append, Position.advance_start]
  rcases hend with hlast | ⟨gap, c, more, rfl, hgap, hblank, hcomment, hno⟩
  · rw [hscan, hlast.tokenizeF, hcut.tokenize_last hlast]
    simp [Except.map, Except.mapError, Token.moved, Position.behind_after]
  · rw [hscan, tokenizeF_stops hgap hblank hcomment hno, ← List.append_assoc read gap,
      hcut.tokenize_stops hgap hblank hcomment hno]
    simp [Except.map, Except.mapError, ParseError.moved, Position.behind_after]

/-! ### The reader behind trivia -/

theorem eof_mem_of_tokenize (h : tokenize cs = .ok tokens) : .eof ∈ tokens.map Token.kind := by
  obtain ⟨ks, hks, -⟩ := (scans_of_tokenizeF h).exists_ends
  simp [hks]

theorem parseProgram_eq_error (h : tokenize text.toList = .error e) :
    parseProgram text = .error e := by
  simp only [parseProgram, readProgram, h]

/-- **What becomes of a text behind trivia**: the same, and an error moves with the tokens. -/
theorem parseProgram_behind (hms : Trivia ms) (htext : text'.toList = ms ++ text.toList) :
    parseProgram text' =
      (parseProgram text).mapError (ParseError.moved (Position.after ms).behind) := by
  have htokens' := tokenize_behind hms text.toList
  rw [← htext] at htokens'
  cases htokens : tokenize text.toList with
  | error e =>
      rw [htokens] at htokens'
      rw [parseProgram_eq_error htokens, parseProgram_eq_error htokens']
      rfl
  | ok tokens =>
      rw [htokens] at htokens'
      rw [parseProgram_eq htokens, parseProgram_eq htokens']
      exact programOf_moved (.inr (eof_mem_of_tokenize htokens))

/-! ### An error has the place of a token -/

/-- **An error is told at a token.**  If the tokens stay where they are, then so does the error,
wherever other places move. -/
theorem exists_token_of_programOf (heof : .eof ∈ tokens.map Token.kind)
    (he : programOf tokens = .error e) : ∃ t ∈ tokens, e.position = t.position := by
  by_contra hnone
  push Not at hnone
  -- the place of the error moves to the next line, and no other one does
  have hstays : tokens.map (Token.moved fun p => if p = e.position then p.next '\n' else p) =
      tokens := by
    refine (List.map_congr_left fun t ht => ?_).trans (List.map_id tokens)
    rw [Token.moved, if_neg (Ne.symm (hnone t ht))]
    rfl
  have hmoved := programOf_moved (f := fun p => if p = e.position then p.next '\n' else p)
    (.inr heof)
  rw [hstays, he] at hmoved
  have hline := congrArg (fun e => e.position.line) (Except.error.inj hmoved)
  simp [ParseError.moved, Position.next] at hline

/-- The tokens of a text that is cut up have the places of its characters. -/
theorem Cut.exists_after (h : Cut before read tokens rest) :
    ∀ t ∈ tokens, ∃ cs, cs <+: read ∧ t.position = .after (before ++ cs) := by
  induction h with
  | nil => exact nofun
  | @cons before gap w read rest k tokens _ _ _ _ ih =>
      rintro t (_ | ⟨_, ht⟩)
      · exact ⟨gap, (List.prefix_append _ _).trans (List.prefix_append _ _), rfl⟩
      · obtain ⟨cs, hcs, hposition⟩ := ih t ht
        refine ⟨gap ++ w ++ cs, (List.prefix_append_right_inj _).2 hcs, ?_⟩
        rw [hposition]
        simp

/-- **An error is told at a place of the text**: that of a character, or that of the end. -/
theorem exists_after_of_parseProgram (he : parseProgram text = .error e) :
    ∃ before, before <+: text.toList ∧ e.position = .after before := by
  cases htokens : tokenize text.toList with
  | error e' =>
      obtain rfl : e' = e := Except.error.inj ((parseProgram_eq_error htokens).symm.trans he)
      obtain ⟨read, gap, c, rest, ms, htext, -, -, -, -, -, rfl⟩ :=
        ((tokenize_iff text.toList).2 e').1 htokens
      exact ⟨read ++ gap, htext ▸ List.prefix_append _ _, rfl⟩
  | ok tokens =>
      rw [parseProgram_eq htokens] at he
      obtain ⟨t, ht, hposition⟩ := exists_token_of_programOf (eof_mem_of_tokenize htokens) he
      obtain ⟨read, last, ms, htext, hcut, -, rfl⟩ :=
        ((tokenize_iff text.toList).1 tokens).1 htokens
      rw [List.mem_append, List.mem_singleton] at ht
      rw [hposition]
      rcases ht with ht | rfl
      · obtain ⟨cs, hcs, hplace⟩ := hcut.exists_after t ht
        exact ⟨cs, htext ▸ hcs.trans (List.prefix_append _ _), hplace⟩
      · exact ⟨_, List.prefix_rfl, rfl⟩

/-! ### Margins -/

/-- **The blanks at the start of a text.** -/
def margin (cs : List Char) : List Char := cs.takeWhile isBlank

theorem margin_append (cs : List Char) : margin cs ++ trimStart cs = cs :=
  List.takeWhile_append_dropWhile

/-- A margin is trivia. -/
theorem trivia_margin (cs : List Char) : Trivia (margin cs) := by
  have hblank : ∀ c ∈ margin cs, isBlank c = true := fun c hc => List.mem_takeWhile_imp hc
  generalize margin cs = ms at hblank
  induction ms with
  | nil => exact .nil
  | cons c ms ih =>
      obtain ⟨hc, hms⟩ := List.forall_mem_cons.1 hblank
      exact .blank hc (ih hms)

/-- **A text that ends in its period only loses its margin.** -/
theorem completed_of_period (hlast : text.toList.getLast? = some '.') :
    (completed text).toList = trimStart text.toList := by
  have hend : (trimStart text.toList).getLast? = some '.' := by
    rw [← margin_append text.toList, List.getLast?_append, Option.or_eq_some_iff] at hlast
    refine hlast.resolve_right fun hmargin => ?_
    have hblank := (trivia_margin _).getLast?_isBlank '.' hmargin.2
    revert hblank
    decide
  have htrim : trimBlank text.toList = trimStart text.toList := by
    rw [trimBlank, trimEnd, trimStart_eq_self, List.reverse_reverse]
    rw [List.head?_reverse, hend]
    rintro _ ⟨⟩
    decide
  obtain ⟨htext, -⟩ | ⟨-, -, hopen⟩ := toList_completed text
  · rw [htext, htrim]
  · rw [htrim] at hopen
    exact absurd hend hopen

-- what a text is read as is never computed in the next proofs
attribute [local irreducible] readCompleted

/-- A file is refused with the error of its completed text. -/
theorem fileRefusal_of_error {read : FileReader} {path : String} (hread : read path = .ok text)
    (h : (readCompleted text).result = .error e) :
    fileRefusal read path = some (.parse e) := by
  have htwice : (readCompleted (completed text)).result = .error e := by
    rw [readCompleted_eq, completed_completed, ← readCompleted_eq, h]
  unfold fileRefusal refusalOf
  rw [hread]
  dsimp only
  rw [htwice]

/-- **What is cut off is missing from the place that is told.**  Let a text end in a period and be
refused.  The error is told at a place behind its margin; evaluated or played, the text is refused
for the same cause, at the place that this is without the margin.  The two places are the same only
if there is no margin, or if there is no line break in it and the error is not on its last line. -/
theorem readCompleted_error_margin (hlast : text.toList.getLast? = some '.')
    (he : parseProgram text = .error e) :
    ∃ before, margin text.toList ++ before <+: text.toList ∧
      e.position = .after (margin text.toList ++ before) ∧
      (readCompleted text).result = .error ⟨e.cause, .after before⟩ ∧
      (∀ s : Editor, (s.evaluate text).result = .error ⟨e.cause, .after before⟩) ∧
      (∀ {α : Type} [Quantity α] (s : Session α) (read : FileReader) (path : String),
        read path = .ok text → (s.execute read (.play path)).result =
          .error (.parse ⟨e.cause, .after before⟩)) ∧
      (e = ⟨e.cause, .after before⟩ ↔
        margin text.toList = [] ∨ '\n' ∉ margin text.toList ∧ '\n' ∈ before) := by
  have hcompleted := completed_of_period hlast
  have htext : text.toList = margin text.toList ++ (completed text).toList := by
    rw [hcompleted, margin_append]
  have hmoved := parseProgram_behind (trivia_margin text.toList) htext
  have hresult : (readCompleted text).result = parseProgram (completed text) := by
    rw [readCompleted_eq, parseProgram]
  rw [he] at hmoved
  cases htold : parseProgram (completed text) with
  | ok p =>
      rw [htold] at hmoved
      cases hmoved
  | error told =>
      rw [htold] at hmoved hresult
      obtain ⟨before, hbefore, hplace⟩ := exists_after_of_parseProgram htold
      obtain ⟨cause, position⟩ := told
      obtain rfl : position = .after before := hplace
      obtain rfl : e = ⟨cause, .after (margin text.toList ++ before)⟩ := by
        rw [← Position.behind_after]
        exact Except.error.inj hmoved
      have hevaluate (s : Editor) : (s.evaluate text).result = .error ⟨cause, .after before⟩ :=
        (result_evaluate_eq text s).trans hresult
      refine ⟨before, ?_, rfl, hresult, hevaluate, fun s read path hread => ?_, ?_⟩
      · have hprefix := (List.prefix_append_right_inj (margin text.toList)).2 hbefore
        rwa [← htext] at hprefix
      · have hrefusal := fileRefusal_of_error hread hresult
        exact ((s.execute_goesBy read (.play path)).refused _ hrefusal).1
      · rw [← Position.after_eq_iff, eq_comm]
        simp

/-- What is refused is refused with an error of this description. -/
theorem exists_error {β γ : Type} {result : Except ParseError Program} {g : Program → β}
    {d : ParseError → γ} {x : γ} (h : (result.map g).mapError d = .error x) :
    ∃ e, result = .error e ∧ d e = x := by
  cases result with
  | ok p => cases h
  | error e => exact ⟨e, rfl, Except.error.inj h⟩

/-- A margin without line breaks, and an error behind the first line. -/
def indentedSource : String := " \tkick(36).\nsnare(."

/-- The margin of one line is missing from the places on that line only. -/
theorem readCompleted_error_margin_indented : ∃ e, indentedSource.toList.getLast? = some '.' ∧
    parseProgram indentedSource = .error e ∧ margin indentedSource.toList = [' ', '\t'] ∧
    e.text = "parse error at 2:7: unexpected token '.'" ∧
    (readCompleted indentedSource).result = .error e := by
  have hlast : indentedSource.toList.getLast? = some '.' := by decide +kernel
  have hmargin : margin indentedSource.toList = [' ', '\t'] := by decide +kernel
  have hread : ((parseProgram indentedSource).map Program.text).mapError
      (fun e => (e.text, e.position.line)) =
        .error ("parse error at 2:7: unexpected token '.'", 2) := by decide +kernel
  obtain ⟨e, he, hdescription⟩ := exists_error hread
  obtain ⟨htext, hline⟩ := Prod.mk.inj hdescription
  obtain ⟨before, -, hplace, hresult, -, -, hsame⟩ := readCompleted_error_margin hlast he
  have hbreak : '\n' ∈ before := by
    by_contra hnone
    have hno : '\n' ∉ margin indentedSource.toList ++ before := by simp [hmargin, hnone]
    rw [hplace, Position.after_of_notMem hno] at hline
    cases hline
  have hagrees := hsame.2 (.inr ⟨by rw [hmargin]; decide, hbreak⟩)
  exact ⟨e, hlast, he, hmargin, htext, hagrees ▸ hresult⟩

/-- An error behind two line breaks. -/
def lateSource : String := "\n\nkick(."

/-- **The line breaks before a text are missing from the line of an error**: the argument that is
missing on the third line is told on the first one, if the text is evaluated or played. -/
theorem readCompleted_blankLines : ∃ e told, lateSource.toList.getLast? = some '.' ∧
    parseProgram lateSource = .error e ∧ (readCompleted lateSource).result = .error told ∧
    e.text = "parse error at 3:6: unexpected token '.'" ∧
    told.text = "parse error at 1:6: unexpected token '.'" ∧ told ≠ e ∧
    (∀ s : Editor, (s.evaluate lateSource).result = .error told) ∧
    ∀ {α : Type} [Quantity α] (s : Session α) (read : FileReader) (path : String),
      read path = .ok lateSource → (s.execute read (.play path)).result = .error (.parse told) := by
  have hlast : lateSource.toList.getLast? = some '.' := by decide +kernel
  have hread : ((parseProgram lateSource).map Program.text).mapError ParseError.text =
      .error "parse error at 3:6: unexpected token '.'" := by decide +kernel
  have htold : ((readCompleted lateSource).result.map Program.text).mapError ParseError.text =
      .error "parse error at 1:6: unexpected token '.'" := by decide +kernel
  obtain ⟨e, he, htext⟩ := exists_error hread
  obtain ⟨told, hresult, htext'⟩ := exists_error htold
  refine ⟨e, told, hlast, he, hresult, htext, htext', ?_,
    fun s => (result_evaluate_eq lateSource s).trans hresult, fun s read path hfile =>
      ((s.execute_goesBy read (.play path)).refused _ (fileRefusal_of_error hfile hresult)).1⟩
  rintro rfl
  rw [htext] at htext'
  revert htext'
  decide

end RhythmLogic
