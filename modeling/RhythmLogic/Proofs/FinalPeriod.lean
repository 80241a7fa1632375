/-
**The period that is put behind a text, and the period that is missing.**

Source that is typed may leave its final period out, and gets one.  What would make the source a
program is a period behind its last *token*; what it gets is a period behind its last *character*.
Between the two there can only be trivia, and the text is trimmed, so that its last character is
that of its last lexeme, unless the text ends in a comment.  Then the period becomes a part of the
comment and the source is refused, however complete its tokens are.

A text that is trimmed ends in a comment exactly if there is a `%` on its last line, since no lexeme
has one.

Main definitions:

* `EndsInComment` — a text with a comment on its last line;
* `programOf` — what becomes of tokens;
* `withPeriod` — the tokens of a text with a period behind them.

Main results:

* `Cut.append`, `Cut.append_quiet` — texts that are cut up, put together and made longer;
* `Cut.tokenize_append_period`, `tokenize_append_comment` — **a period behind the last lexeme, and
  behind a comment**;
* `readCompleted_withPeriod` — **a missing period is supplied, unless the text ends in a comment**;
* `readCompleted_openClause` — a period that is lost in a comment.
-/

import RhythmLogic.Proofs.Completion
import RhythmLogic.Proofs.Failures
import RhythmLogic.Proofs.Partition

set_option autoImplicit false

namespace RhythmLogic

variable {c d : Char} {cs ds gap before read read' rest w : List Char} {k : TokenKind}
  {ms ms' tokens tokens' : List Token} {p : Program} {text : String}

/-! ### Cutting up longer texts -/

/-- **Two texts that are cut up, one behind the other.** -/
theorem Cut.append (h : Cut before read ms (read' ++ rest))
    (h' : Cut (before ++ read) read' ms' rest) :
    Cut before (read ++ read') (ms ++ ms') rest := by
  generalize hrest : read' ++ rest = more at h
  induction h with
  | nil => simpa using h'
  | @cons before gap w read more k tokens hgap hw hlongest _ ih =>
      subst hrest
      rw [List.append_assoc, List.cons_append]
      refine .cons hgap hw (by rwa [List.append_assoc]) (ih ?_ rfl)
      simpa using h'

/-- A quiet character goes on with no lexeme. -/
theorem Longest.append_quiet (hw : IsLexeme k w) (h : Longest w rest) (hd : Quiet d) :
    Longest w (rest ++ [d]) := by
  obtain ⟨c, cs, rfl, -⟩ := hw.exists_cons
  have hl := lexemeAt_of_longest hw h rfl
  rw [← lexemeAt_append hd] at hl
  obtain ⟨-, more, hmore, hlongest⟩ := lexemeAt_ok hl
  have hsame : cs ++ rest ++ [d] = cs ++ more := List.cons.inj hmore |>.2
  rw [List.append_assoc, List.append_cancel_left_eq] at hsame
  rwa [hsame]

/-- What is cut up stays cut up with a quiet character behind the text. -/
theorem Cut.append_quiet (h : Cut before read ms rest) (hd : Quiet d) :
    Cut before read ms (rest ++ [d]) := by
  induction h with
  | nil => exact .nil _ _
  | cons hgap hw hlongest _ ih =>
      refine .cons hgap hw ?_ ih
      rw [← List.append_assoc]
      exact hlongest.append_quiet hw hd

/-! ### Comments at the end -/

/-- **There is a comment on the last line**, where it ends with the text. -/
def EndsInComment (cs : List Char) : Prop :=
  ∃ before body, cs = before ++ '%' :: body ∧ '\n' ∉ body

/-- Trivia end in a blank. -/
theorem Trivia.getLast?_isBlank (h : Trivia gap) : ∀ z ∈ gap.getLast?, isBlank z = true := by
  induction h with
  | nil => exact nofun
  | @blank c cs hc _ ih =>
      intro z hz
      rw [List.getLast?_cons, Option.mem_some_iff] at hz
      cases hlast : cs.getLast? with
      | none =>
          rw [hlast] at hz
          exact hz ▸ hc
      | some y =>
          rw [hlast] at hz
          exact ih z (hlast.trans (congrArg some hz))
  | @comment body cs _ _ ih =>
      intro z hz
      rw [List.getLast?_append_of_ne_nil _ (List.cons_ne_nil _ _), List.getLast?_cons,
        Option.mem_some_iff] at hz
      cases hlast : cs.getLast? with
      | none =>
          rw [hlast] at hz
          subst hz
          decide
      | some y =>
          rw [hlast] at hz
          exact ih z (hlast.trans (congrArg some hz))

theorem EndsInComment.percent_mem (h : EndsInComment cs) : '%' ∈ cs := by
  obtain ⟨before, body, rfl, -⟩ := h
  simp

/-- A comment at the end of two texts is at the end of one of them. -/
theorem EndsInComment.of_append (h : EndsInComment (cs ++ ds)) :
    EndsInComment cs ∨ EndsInComment ds := by
  obtain ⟨before, body, hsplit, hbody⟩ := h
  rcases List.append_eq_append_iff.1 hsplit with ⟨more, rfl, rfl⟩ | ⟨more, rfl, hmore⟩
  · exact .inr ⟨more, body, rfl, hbody⟩
  · rcases more with _ | ⟨c, more⟩
    · exact .inr ⟨[], body, hmore.symm, hbody⟩
    · obtain ⟨rfl, rfl⟩ := List.cons.inj hmore
      exact .inl ⟨before, more, rfl, fun hmem => hbody (List.mem_append_left _ hmem)⟩

/-- The newline behind a comment is not in it. -/
theorem Trivia.not_endsInComment (h : Trivia gap) : ¬ EndsInComment gap := by
  induction h with
  | nil => exact fun h => absurd h.percent_mem List.not_mem_nil
  | @blank c cs hc _ ih =>
      intro h
      have hsplit : EndsInComment ([c] ++ cs) := h
      rcases hsplit.of_append with hfirst | hrest
      · obtain rfl : c = '%' := (List.mem_singleton.1 hfirst.percent_mem).symm
        revert hc
        decide
      · exact ih hrest
  | @comment body cs hbody _ ih =>
      intro h
      have hsplit : '%' :: body ++ '\n' :: cs = ('%' :: body ++ ['\n']) ++ cs := by simp
      rw [hsplit] at h
      refine h.of_append.elim ?_ ih
      rintro ⟨before, more, heq, hmore⟩
      rcases List.eq_nil_or_concat more with rfl | ⟨more, z, rfl⟩
      · exact absurd (List.append_inj' heq rfl).2 (by decide)
      · rw [List.concat_eq_append] at heq hmore
        rw [← List.cons_append, ← List.append_assoc] at heq
        obtain ⟨-, hz⟩ := List.append_inj' heq rfl
        exact hmore (List.mem_append_right _ (hz ▸ List.mem_singleton_self _))

/-- A character of a lexeme is no comment. -/
theorem IsLexeme.percent_notMem (h : IsLexeme k w) : '%' ∉ w := by
  cases h with
  | name hx =>
      obtain ⟨c, cs, hxs, hc, hcs⟩ := hx
      rw [hxs, List.mem_cons, not_or]
      refine ⟨(isNameStart_apart hc).2.1.symm, fun hmem => ?_⟩
      have hpercent := hcs _ hmem
      revert hpercent
      decide
  | number n =>
      have hdigit : ¬ ('%').isDigit = true := by decide
      rw [NumeralParts.spelling, List.mem_append, not_or]
      refine ⟨fun hmem => hdigit (n.whole_digits _ hmem), ?_⟩
      split
      · exact List.not_mem_nil
      · rw [List.mem_cons, not_or]
        exact ⟨by decide, fun hmem => hdigit (n.fraction_digits _ hmem)⟩
  | symbol s => cases s <;> decide

/-- What is cut up ends in a lexeme. -/
theorem Cut.not_endsInComment (h : Cut before read ms rest) : ¬ EndsInComment read := by
  induction h with
  | nil => exact fun h => absurd h.percent_mem List.not_mem_nil
  | cons hgap hw _ _ ih =>
      intro h
      rcases h.of_append with hfirst | hread
      · rcases hfirst.of_append with hgap' | hw'
        · exact hgap.not_endsInComment hgap'
        · exact hw.percent_notMem hw'.percent_mem
      · exact ih hread

/-! ### A period behind a trimmed text -/

/-- **A period behind a comment is lost in it.** -/
theorem tokenize_append_comment (htokens : tokenize cs = .ok tokens) (hcomment : EndsInComment cs) :
    ∃ tokens', tokenize (cs ++ ['.']) = .ok tokens' ∧
      tokens'.map Token.kind = tokens.map Token.kind := by
  obtain ⟨read, last, ms, rfl, hcut, htrivia, rfl⟩ := ((tokenize_iff cs).1 tokens).1 htokens
  cases htrivia with
  | trivia hgap =>
      rcases hcomment.of_append with hread | hlast
      · exact absurd hread hcut.not_endsInComment
      · exact absurd hlast hgap.not_endsInComment
  | @comment gap body hgap hbody =>
      have hlonger : LastTrivia (gap ++ '%' :: body ++ ['.']) := by
        rw [List.append_assoc, List.cons_append]
        exact .comment hgap (by simp [hbody])
      have htokens' := (hcut.append_quiet quiet_period).tokenize_last hlonger
      rw [← List.append_assoc] at htokens'
      exact ⟨_, htokens', by simp⟩

/-- **A trimmed text without a comment at its end is cut up to its last character.** -/
theorem exists_cut_trimmed (htokens : tokenize cs = .ok tokens)
    (hlast : ∀ z ∈ cs.getLast?, isBlank z = false) (hcomment : ¬ EndsInComment cs) :
    ∃ ms, Cut [] cs ms [] ∧ tokens = ms ++ [⟨.eof, .after cs⟩] := by
  obtain ⟨read, last, ms, rfl, hcut, htrivia, rfl⟩ := ((tokenize_iff cs).1 tokens).1 htokens
  cases htrivia with
  | comment hgap hbody => exact absurd ⟨_, _, (List.append_assoc _ _ _).symm, hbody⟩ hcomment
  | trivia hgap =>
      -- trivia at the end of a trimmed text are none
      have hnil : last = [] := by
        by_contra hne
        obtain ⟨z, hz⟩ := Option.isSome_iff_exists.1 (List.getLast?_isSome.2 hne)
        have hblank := hgap.getLast?_isBlank z hz
        rw [hlast z (by rw [List.getLast?_append_of_ne_nil _ hne]; exact hz)] at hblank
        cases hblank
      subst hnil
      rw [List.append_nil]
      exact ⟨ms, hcut, rfl⟩

/-- **A period behind the last lexeme is one token more.** -/
theorem Cut.tokenize_append_period (h : Cut [] cs ms []) : ∃ tokens',
    tokenize (cs ++ ['.']) = .ok tokens' ∧
      tokens'.map Token.kind = ms.map Token.kind ++ [.symbol .period] ++ [.eof] := by
  have hquiet : Cut [] cs ms (['.'] ++ []) := h.append_quiet quiet_period
  have hperiod : Cut ([] ++ cs) ([] ++ ['.'] ++ []) [⟨.symbol .period, _⟩] [] :=
    .cons .nil (.symbol .period) (fun k v _ hv => hv.length_le) (.nil _ _)
  have htokens := (hquiet.append hperiod).tokenize_last (.trivia .nil)
  exact ⟨_, by simpa using htokens, by simp⟩

/-- A lexeme that ends in a period is the period. -/
theorem IsLexeme.eq_period (h : IsLexeme k w) (hlast : w.getLast? = some '.') :
    k = .symbol .period := by
  have hdigits : ∀ {ds : List Char}, (∀ d ∈ ds, d.isDigit = true) → ds.getLast? ≠ some '.' :=
    fun hds hd => absurd (hds _ (List.mem_of_getLast? hd)) (by decide)
  cases h with
  | name hx =>
      obtain ⟨c, cs, hxs, hc, hcs⟩ := hx
      rw [hxs, List.getLast?_cons, Option.some.injEq] at hlast
      cases hend : cs.getLast? with
      | none =>
          rw [hend] at hlast
          obtain rfl : c = '.' := hlast
          exact absurd hc (by decide)
      | some z =>
          rw [hend] at hlast
          obtain rfl : z = '.' := hlast
          exact absurd (hcs _ (List.mem_of_getLast? hend)) (by decide)
  | number n =>
      rw [NumeralParts.spelling] at hlast
      split at hlast
      · rw [List.append_nil] at hlast
        exact absurd hlast (hdigits n.whole_digits)
      · next hfraction =>
        have hne : n.fraction ≠ [] := by simpa using hfraction
        rw [List.getLast?_append_of_ne_nil _ (List.cons_ne_nil _ _), ← List.singleton_append,
          List.getLast?_append_of_ne_nil _ hne] at hlast
        exact absurd hlast (hdigits n.fraction_digits)
  | symbol s =>
      cases s <;> first | rfl | exact absurd hlast (by decide)

/-- What is cut up and ends in a period ends in this token. -/
theorem Cut.getLast?_period (h : Cut before read ms rest) (hlast : read.getLast? = some '.') :
    (ms.map Token.kind).getLast? = some (.symbol .period) := by
  induction h with
  | nil => cases hlast
  | @cons before gap w read rest k tokens _ hw _ hcut ih =>
      rcases hread : read with _ | ⟨c, cs⟩
      · subst hread
        obtain rfl : tokens = [] := List.length_eq_zero_iff.1 (Nat.le_zero.1 hcut.length_le)
        obtain ⟨c, cs, hcs, -⟩ := hw.exists_cons
        rw [List.append_nil, List.getLast?_append_of_ne_nil _ (hcs ▸ List.cons_ne_nil _ _)] at hlast
        rw [hw.eq_period hlast]
        rfl
      · have hne : read ≠ [] := hread ▸ List.cons_ne_nil _ _
        rw [List.getLast?_append_of_ne_nil _ hne] at hlast
        rw [List.map_cons, List.getLast?_cons, ih hlast]
        rfl

/-! ### Programs and their periods -/

namespace Grammar

mutual

/-- **There is no period in an expression.** -/
theorem Expr.period_notMem {ts : List TokenKind} {t : Term} :
    Expr ts t → .symbol .period ∉ ts
  | .product h => h.period_notMem
  | .sum hl hk hr => by
      simp only [List.mem_append, List.mem_cons, not_or]
      refine ⟨hl.period_notMem, ?_, hr.period_notMem⟩
      rintro rfl
      cases hk

theorem Product.period_notMem {ts : List TokenKind} {t : Term} :
    Product ts t → .symbol .period ∉ ts
  | .factor h => h.period_notMem
  | .product hl hk hr => by
      simp only [List.mem_append, List.mem_cons, not_or]
      refine ⟨hl.period_notMem, ?_, hr.period_notMem⟩
      rintro rfl
      cases hk

theorem Factor.period_notMem {ts : List TokenKind} {t : Term} :
    Factor ts t → .symbol .period ∉ ts
  | .primary h => h.period_notMem
  | .literal _ => by simp
  | .minus h _ => by simp [h.period_notMem]

theorem Primary.period_notMem {ts : List TokenKind} {t : Term} :
    Primary ts t → .symbol .period ∉ ts
  | .number _ => by simp
  | .name _ => by simp
  | .call h => by simp [h.period_notMem]
  | .list h => by simp [h.period_notMem]
  | .partialList h h' => by simp [h.period_notMem, h'.period_notMem]
  | .group h => by simp [h.period_notMem]

theorem Items.period_notMem {ts : List TokenKind} {items : List Term} :
    Items ts items → .symbol .period ∉ ts
  | .none => List.not_mem_nil
  | .some h => h.period_notMem

theorem Exprs.period_notMem {ts : List TokenKind} {items : List Term} :
    Exprs ts items → .symbol .period ∉ ts
  | .one h => h.period_notMem
  | .more h h' => by simp [h.period_notMem, h'.period_notMem]

end

theorem Test.period_notMem {ts : List TokenKind} {g : GoalTree} :
    Test ts g → .symbol .period ∉ ts
  | .call h => h.period_notMem
  | .comparison hl hk hr => by
      simp only [List.mem_append, List.mem_cons, not_or]
      refine ⟨hl.period_notMem, ?_, hr.period_notMem⟩
      rintro rfl
      cases hk

mutual

/-- **There is no period in goals.** -/
theorem Goals.period_notMem {ts : List TokenKind} {g : GoalTree} :
    Goals ts g → .symbol .period ∉ ts
  | .conjunction h => h.period_notMem
  | .either hl hr => by simp [hl.period_notMem, hr.period_notMem]

theorem Conjunction.period_notMem {ts : List TokenKind} {g : GoalTree} :
    Conjunction ts g → .symbol .period ∉ ts
  | .unit h => h.period_notMem
  | .both hl hr => by simp [hl.period_notMem, hr.period_notMem]

theorem Unit.period_notMem {ts : List TokenKind} {g : GoalTree} :
    Grammar.Unit ts g → .symbol .period ∉ ts
  | .negation h => by simp [h.period_notMem]
  | .group h => by simp [h.period_notMem]
  | .test h => h.period_notMem

end

end Grammar

/-- Before the last period of a program there is a token, and it is no period. -/
theorem Grammar.Clauses.ne_period {ks : List TokenKind} {clauses : List Reader.SourceClause}
    (h : Grammar.Clauses (ks ++ [.symbol .period]) clauses) :
    ks ≠ [] ∧ ks.getLast? ≠ some (.symbol .period) := by
  generalize hall : ks ++ [.symbol .period] = all at h
  induction h generalizing ks with
  | nil => simp at hall
  | @cons ts us first clauses hfirst hclauses ih =>
      rcases List.eq_nil_or_concat us with rfl | ⟨us, k, rfl⟩
      · rw [List.append_nil] at hall
        cases hfirst with
        | @fact ts t ht _ =>
            obtain rfl := List.append_cancel_right hall
            obtain ⟨k, ks, rfl, -⟩ := ht.starts
            exact ⟨List.cons_ne_nil _ _, fun hlast =>
              ht.period_notMem (List.mem_of_getLast? hlast)⟩
        | @rule ts us t g ht _ hg =>
            rw [← List.cons_append, ← List.append_assoc] at hall
            obtain rfl := List.append_cancel_right hall
            refine ⟨List.append_ne_nil_of_right_ne_nil _ (List.cons_ne_nil _ _), fun hlast => ?_⟩
            have hmem := List.mem_of_getLast? hlast
            simp [ht.period_notMem, hg.period_notMem] at hmem
      · rw [List.concat_eq_append, ← List.append_assoc] at hall
        obtain ⟨rfl, hk⟩ := List.append_inj' hall rfl
        have hrest : us ++ [.symbol .period] = us.concat k := by rw [hk, List.concat_eq_append]
        obtain ⟨hne, hlast⟩ := ih hrest
        exact ⟨List.append_ne_nil_of_right_ne_nil _ hne,
          by rwa [List.getLast?_append_of_ne_nil _ hne]⟩

/-- **What becomes of tokens**: a program, or the first error. -/
def programOf (tokens : List Token) : Except ParseError Program :=
  match Reader.clausesF (tokens.length + 1) (.before tokens) with
  | (_, some e, _) => .error e
  | (clauses, none, _) => .ok ⟨clauses.map (·.kept)⟩

/-- The tokens of a text **with a period behind them**, at the place of the end mark. -/
def withPeriod (tokens : List Token) : List Token :=
  let last := tokens.getLastD ⟨.eof, .start⟩
  tokens.dropLast ++ [⟨.symbol .period, last.position⟩, last]

theorem parseProgram_eq (htokens : tokenize text.toList = .ok tokens) :
    parseProgram text = programOf tokens := by
  simp only [parseProgram, readProgram, htokens, programOf]
  rcases Reader.clausesF (tokens.length + 1) (.before tokens) with ⟨clauses, _ | e, c⟩ <;> rfl

/-- **What becomes of tokens in other places**: the place of the error moves with them. -/
theorem programOf_moved {f : Position → Position} (h : (Cursor.before tokens).Anchored f) :
    programOf (tokens.map (Token.moved f)) = (programOf tokens).mapError (ParseError.moved f) := by
  have hread := Reader.clausesF_moved (tokens.length + 1) (.before tokens) h
  have hbefore : Cursor.before (tokens.map (Token.moved f)) = (Cursor.before tokens).moved f := rfl
  rw [programOf, programOf, List.length_map, hbefore, hread]
  rcases Reader.clausesF (tokens.length + 1) (.before tokens) with ⟨clauses, _ | e, c⟩ <;> rfl

theorem programOf_unplaced (tokens : List Token) :
    programOf (tokens.map Token.unplaced) = (programOf tokens).mapError ParseError.unplaced :=
  programOf_moved (f := fun _ => .start) (.inl rfl)

/-- Where the tokens are does not matter for the program. -/
theorem programOf_of_kinds (h : tokens'.map Token.kind = tokens.map Token.kind) :
    programOf tokens' = .ok p ↔ programOf tokens = .ok p := by
  have hsame := congrArg programOf (map_unplaced_eq h)
  rw [programOf_unplaced, programOf_unplaced] at hsame
  cases htokens : programOf tokens <;> cases htokens' : programOf tokens' <;>
    simp_all [Except.mapError]

/-- The tokens of a program were derived. -/
theorem derives_of_programOf {ks : List TokenKind} (hp : programOf tokens = .ok p)
    (hks : tokens.map Token.kind = ks ++ [.eof]) (hno : .eof ∉ ks) :
    ∃ clauses, Grammar.Clauses ks clauses := by
  rcases hread : Reader.clausesF (tokens.length + 1) (.before tokens) with ⟨clauses, _ | e, c⟩
  · exact ⟨clauses, Reader.clausesF_derives_init hread hks hno⟩
  · rw [programOf, hread] at hp
    cases hp

/-! ### Source that is typed -/

/-- What a source is evaluated to is what its completed text is read as. -/
theorem result_evaluate_eq (text : String) (s : Editor) :
    (s.evaluate text).result = (readCompleted text).result := by
  rw [s.result_evaluate, readCompleted_eq, completed_completed, readCompleted_eq]

/-- The tokens of a text with a period behind them, without their places. -/
theorem kinds_withPeriod {ks : List TokenKind} (h : tokens.map Token.kind = ks ++ [.eof]) :
    (withPeriod tokens).map Token.kind = ks ++ [.symbol .period] ++ [.eof] := by
  rcases List.eq_nil_or_concat tokens with rfl | ⟨init, last, rfl⟩
  · simp at h
  · rw [List.concat_eq_append, List.map_append] at h
    obtain ⟨rfl, hlast⟩ := List.append_inj' h rfl
    have hkind : last.kind = .eof := by simpa using hlast
    simp [withPeriod, hkind]

/-- **The tokens of a completed text**, where a period behind the tokens would make a program: the
period is the last of them, or it is lost in a comment and there is no program. -/
theorem tokenize_completed (htokens : tokenize text.toList = .ok tokens)
    (hp : programOf (withPeriod tokens) = .ok p) : ∃ tokens',
      tokenize (completed text).toList = .ok tokens' ∧
      (EndsInComment (trimBlank text.toList) → ∀ p', programOf tokens' ≠ .ok p') ∧
      (¬ EndsInComment (trimBlank text.toList) → programOf tokens' = .ok p) := by
  have hscans := scans_of_tokenizeF htokens
  obtain ⟨trimmed, htrimmed, hkinds⟩ := hscans.trimBlank.lexed _ .start (Nat.lt_succ_self _)
  obtain ⟨ks, hks, hno⟩ := hscans.exists_ends
  have hwith := kinds_withPeriod hks
  obtain ⟨clauses, hclauses⟩ := derives_of_programOf hp hwith (by simp [hno])
  obtain ⟨hne, hlast⟩ := hclauses.ne_period
  by_cases hcomment : EndsInComment (trimBlank text.toList)
  · -- without the period there is no program, since one ends in a period
    have hnone : ∀ {tokens' : List Token}, tokens'.map Token.kind = tokens.map Token.kind →
        ∀ p', programOf tokens' ≠ .ok p' := by
      intro tokens' hks' p' hp'
      obtain ⟨clauses', hclauses'⟩ := derives_of_programOf hp' (hks'.trans hks) hno
      obtain ⟨k, hk⟩ := Option.isSome_iff_exists.1 (List.getLast?_isSome.2 hne)
      exact hlast (hk.trans (congrArg some (hclauses'.getLast? k hk)))
    obtain ⟨htext, -⟩ | ⟨htext, -⟩ := toList_completed text
    · exact ⟨trimmed, htext ▸ htrimmed, fun _ => hnone hkinds, absurd hcomment⟩
    · obtain ⟨tokens', htokens', hks'⟩ := tokenize_append_comment htrimmed hcomment
      exact ⟨tokens', htext ▸ htokens', fun _ => hnone (hks'.trans hkinds), absurd hcomment⟩
  · obtain ⟨ms, hcut, rfl⟩ := exists_cut_trimmed htrimmed (trimBlank_ends text.toList).2 hcomment
    obtain rfl : ms.map Token.kind = ks := by
      rw [List.map_append] at hkinds
      exact List.append_cancel_right (hkinds.trans hks)
    obtain ⟨-, hend⟩ | ⟨htext, -⟩ := toList_completed text
    · -- the last token is no period, and there is one
      rcases hend with hnil | hperiod
      · rw [hnil] at hcut
        have hlength := hcut.length_le
        exact absurd (by simpa using hlength) hne
      · exact absurd (hcut.getLast?_period hperiod) hlast
    · obtain ⟨tokens', htokens', hks'⟩ := hcut.tokenize_append_period
      refine ⟨tokens', htext ▸ htokens', fun h => absurd h hcomment, fun _ => ?_⟩
      exact (programOf_of_kinds (hks'.trans hwith.symm)).2 hp

/-- **A missing period is supplied, unless the text ends in a comment.**  Let a text be a program
but for a period behind its last token.  If its last line, once it is trimmed, has no comment, then
the text is read and evaluated as that program; if it has one, the text is refused. -/
theorem readCompleted_withPeriod (htokens : tokenize text.toList = .ok tokens)
    (hp : programOf (withPeriod tokens) = .ok p) :
    (¬ EndsInComment (trimBlank text.toList) → (readCompleted text).result = .ok p ∧
      ∀ s : Editor, (s.evaluate text).result = .ok p) ∧
    (EndsInComment (trimBlank text.toList) → ∃ e, (readCompleted text).result = .error e ∧
      ∀ s : Editor, (s.evaluate text).result = .error e) := by
  obtain ⟨tokens', htokens', hcomment, hperiod⟩ := tokenize_completed htokens hp
  have hread : (readCompleted text).result = programOf tokens' := by
    rw [readCompleted_eq]
    exact parseProgram_eq htokens'
  constructor
  · intro hnot
    have hok := hread.trans (hperiod hnot)
    exact ⟨hok, fun s => (result_evaluate_eq text s).trans hok⟩
  · intro hends
    cases hresult : programOf tokens' with
    | ok p' => exact absurd hresult (hcomment hends p')
    | error e =>
        have herror := hread.trans hresult
        exact ⟨e, herror, fun s => (result_evaluate_eq text s).trans herror⟩

/-- A clause on a line of its own, without its period. -/
theorem readCompleted_withPeriod_clause : ∃ tokens p,
    tokenize "kick(36)\n".toList = .ok tokens ∧ programOf (withPeriod tokens) = .ok p ∧
    ¬ EndsInComment (trimBlank "kick(36)\n".toList) ∧ p.text = "kick(36).\n" ∧
    (readCompleted "kick(36)\n").result = .ok p ∧
    ∀ s : Editor, (s.evaluate "kick(36)\n").result = .ok p := by
  have hread : (tokenize "kick(36)\n".toList).toOption.map (fun tokens =>
      (programOf (withPeriod tokens)).toOption.map Program.text) = some (some "kick(36).\n") := by
    decide +kernel
  have hcomment : ¬ EndsInComment (trimBlank "kick(36)\n".toList) :=
    fun h => absurd h.percent_mem (by decide +kernel)
  obtain ⟨tokens, htokens, hread⟩ := exists_ok hread
  obtain ⟨p, hp, htext⟩ := exists_ok hread
  exact ⟨tokens, p, htokens, hp, hcomment, htext,
    (readCompleted_withPeriod htokens hp).1 hcomment⟩

/-- A clause without its period, and a comment behind it. -/
def openClause : String := "kick(36) % four on the floor"

/-- **A missing period is not supplied behind a comment**: the tokens lack nothing but the period,
and the source is refused. -/
theorem readCompleted_openClause : ∃ tokens p e, tokenize openClause.toList = .ok tokens ∧
    programOf (withPeriod tokens) = .ok p ∧ p.text = "kick(36).\n" ∧
    (readCompleted openClause).result = .error e ∧
    e.text = "parse error at 1:30: expected '.' but found end of input" ∧
    ∀ s : Editor, (s.evaluate openClause).result = .error e := by
  have hread : (tokenize openClause.toList).toOption.map (fun tokens =>
      (programOf (withPeriod tokens)).toOption.map Program.text) = some (some "kick(36).\n") := by
    decide +kernel
  have hresult : ((readCompleted openClause).result.map Program.text).mapError ParseError.text =
      .error "parse error at 1:30: expected '.' but found end of input" := by
    decide +kernel
  obtain ⟨tokens, htokens, hread⟩ := exists_ok hread
  obtain ⟨p, hp, htext⟩ := exists_ok hread
  cases he : (readCompleted openClause).result with
  | ok p' =>
      rw [he] at hresult
      cases hresult
  | error e =>
      rw [he] at hresult
      exact ⟨tokens, p, e, htokens, hp, htext, rfl, Except.error.inj hresult,
        fun s => (result_evaluate_eq openClause s).trans he⟩

end RhythmLogic
