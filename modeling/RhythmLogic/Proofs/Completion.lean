/-
**What is read as a whole is read as it is completed.**

A file is read as it stands, while source that is typed is trimmed and gets the period that is
usually left out.  Every text that is read as it stands is read as the same program when it is
typed, with the same notices and counts: its tokens are those of the completed text, and the reader
sees nothing else.

The editor completes a text twice, once to keep it and once to read it, and the second time changes
nothing.

Main results:

* `completed_completed` — a completed text is complete;
* `readProgram_of_kinds` — **texts with the same tokens are read as the same program**;
* `scans_completed` — the tokens of a text that is read as it stands are those of the completed one;
* `readCompleted_of_parseProgram` — **what is read as it stands is accepted as it is typed**, as the
  same program.
-/

import RhythmLogic.Editor
import RhythmLogic.Proofs.Calls
import RhythmLogic.Proofs.Budgets
import RhythmLogic.Proofs.Trimming

set_option autoImplicit false

namespace RhythmLogic

variable {cs : List Char} {ks : List TokenKind} {text text' : String} {p : Program}

/-! ### Completed texts -/

/-- A text without blanks at its start. -/
theorem trimStart_eq_self (h : ∀ z ∈ cs.head?, isBlank z = false) : trimStart cs = cs := by
  rcases cs with _ | ⟨c, cs⟩
  · rfl
  · rw [trimStart, List.dropWhile_cons_of_neg (by simp [h c rfl])]

theorem head?_trimStart (cs : List Char) : ∀ z ∈ (trimStart cs).head?, isBlank z = false := by
  intro z hz
  have hhead := List.head?_dropWhile_not isBlank cs
  rw [← trimStart, Option.mem_def.1 hz] at hhead
  exact hhead

theorem trimEnd_isPrefix (cs : List Char) : trimEnd cs <+: cs := by
  rw [trimEnd, ← List.reverse_suffix, List.reverse_reverse]
  exact List.dropWhile_suffix _

theorem trimBlank_eq_self (hhead : ∀ z ∈ cs.head?, isBlank z = false)
    (hlast : ∀ z ∈ cs.getLast?, isBlank z = false) : trimBlank cs = cs := by
  rw [trimBlank, trimStart_eq_self hhead, trimEnd,
    trimStart_eq_self (by rwa [List.head?_reverse]), List.reverse_reverse]

/-- A trimmed text has no blanks at its ends. -/
theorem trimBlank_ends (cs : List Char) : (∀ z ∈ (trimBlank cs).head?, isBlank z = false) ∧
    ∀ z ∈ (trimBlank cs).getLast?, isBlank z = false := by
  constructor
  · intro z hz
    obtain ⟨more, hmore⟩ := trimEnd_isPrefix (trimStart cs)
    refine head?_trimStart cs z ?_
    rw [← hmore, List.head?_append, ← trimBlank, Option.mem_def.1 hz]
    rfl
  · rw [trimBlank, trimEnd, List.getLast?_reverse]
    exact head?_trimStart _

/-- **What a completed text is made of**: it is trimmed, or trimmed with a period behind it. -/
theorem toList_completed (text : String) :
    ((completed text).toList = trimBlank text.toList ∧
      (trimBlank text.toList = [] ∨ (trimBlank text.toList).getLast? = some '.')) ∨
    ((completed text).toList = trimBlank text.toList ++ ['.'] ∧
      trimBlank text.toList ≠ [] ∧ (trimBlank text.toList).getLast? ≠ some '.') := by
  unfold completed
  extract_lets trimmed
  split
  · next hcomplete =>
    refine .inl ⟨String.toList_ofList, ?_⟩
    simpa using hcomplete
  · next hopen =>
    refine .inr ⟨String.toList_ofList, ?_⟩
    simpa using hopen

/-- A completed text is trimmed, and has nothing or a period at its end. -/
theorem completed_ends (text : String) :
    trimBlank (completed text).toList = (completed text).toList ∧
      ((completed text).toList = [] ∨ (completed text).toList.getLast? = some '.') := by
  obtain ⟨hhead, hlast⟩ := trimBlank_ends text.toList
  obtain ⟨htext, hend⟩ | ⟨htext, hne, -⟩ := toList_completed text
  · rw [htext]
    exact ⟨trimBlank_eq_self hhead hlast, hend⟩
  · rw [htext]
    refine ⟨trimBlank_eq_self ?_ ?_, .inr List.getLast?_concat⟩
    · rwa [List.head?_append_of_ne_nil _ hne]
    · rw [List.getLast?_concat]
      rintro _ ⟨⟩
      decide

theorem completed_completed (text : String) : completed (completed text) = completed text := by
  obtain ⟨htrim, hend⟩ := completed_ends text
  obtain ⟨htext, -⟩ | ⟨-, hne, hopen⟩ := toList_completed (completed text)
  · exact String.toList_inj.1 (htext.trans htrim)
  · rw [htrim] at hne hopen
    exact absurd hend (not_or.2 ⟨hne, hopen⟩)

/-- The text without characters is the program without clauses, so that it need not be read. -/
theorem readCompleted_eq (text : String) : readCompleted text = readProgram (completed text) := by
  rw [readCompleted]
  split
  · next hempty =>
    rw [String.isEmpty_iff.1 hempty]
    rfl
  · rfl

/-! ### Texts with the same tokens -/

section Tokens

variable {tokens tokens' : List Token} {clauses : List Reader.SourceClause} {c : Cursor}

/-- What is read from clauses that go to the end of the text. -/
theorem readProgram_of_clausesF (htokens : tokenize text.toList = .ok tokens)
    (h : Reader.clausesF (tokens.length + 1) (.before tokens) = (clauses, none, c)) :
    readProgram text = ⟨.ok ⟨clauses.map (·.kept)⟩, clauses.filterMap (·.dropped?), c.terms,
      c.names.length⟩ := by
  simp only [readProgram, htokens, h]

/-- The clauses of a text that is a program go to its end. -/
theorem exists_clausesF (htokens : tokenize text.toList = .ok tokens)
    (hp : parseProgram text = .ok p) :
    ∃ clauses c, Reader.clausesF (tokens.length + 1) (.before tokens) = (clauses, none, c) := by
  rcases hread : Reader.clausesF (tokens.length + 1) (.before tokens) with ⟨clauses, e | _, c⟩
  · exact ⟨clauses, c, rfl⟩
  · simp only [parseProgram, readProgram, htokens, hread] at hp
    cases hp

/-- **Texts with the same tokens are read as the same program**, wherever the tokens stand. -/
theorem readProgram_of_kinds (htokens : tokenize text.toList = .ok tokens)
    (htokens' : tokenize text'.toList = .ok tokens')
    (hkinds : tokens'.map Token.kind = tokens.map Token.kind) (hp : parseProgram text = .ok p) :
    readProgram text' = readProgram text := by
  obtain ⟨clauses, c, hclauses⟩ := exists_clausesF htokens hp
  have hsame : (Cursor.before tokens').unplaced = (Cursor.before tokens).unplaced := by
    rw [Cursor.unplaced, Cursor.unplaced, Cursor.before, Cursor.before, map_unplaced_eq hkinds]
  have hread := Reader.clausesF_unplaced (tokens.length + 1) (.before tokens)
  rw [← hsame, Reader.clausesF_unplaced, hclauses] at hread
  have hlength : tokens'.length = tokens.length := by
    simpa using congrArg List.length hkinds
  rcases hclauses' : Reader.clausesF (tokens.length + 1) (.before tokens') with
    ⟨clauses', error, c'⟩
  rw [hclauses', Prod.mk.injEq, Prod.mk.injEq] at hread
  obtain ⟨rfl, herror, hcursor⟩ := hread
  obtain rfl : error = none := by simpa using herror
  have hcounts : c'.unplaced = c.unplaced := hcursor
  have hterms : c'.unplaced.terms = c.unplaced.terms := congrArg Cursor.terms hcounts
  have hnames : c'.unplaced.names = c.unplaced.names := congrArg Cursor.names hcounts
  dsimp only [Cursor.unplaced] at hterms hnames
  rw [← hlength] at hclauses'
  rw [readProgram_of_clausesF htokens hclauses, readProgram_of_clausesF htokens' hclauses', hterms,
    hnames]

/-- Clauses end with a period, if there are any. -/
theorem Grammar.Clauses.getLast? {ts : List TokenKind} {cs : List Reader.SourceClause}
    (h : Grammar.Clauses ts cs) : ∀ k ∈ ts.getLast?, k = .symbol .period := by
  induction h with
  | nil => exact nofun
  | @cons ts us c cs hc _ ih =>
      rcases us with _ | ⟨u, us⟩
      · rw [List.append_nil, hc.getLast?]
        rintro _ ⟨⟩
        rfl
      · rwa [List.getLast?_append_of_ne_nil _ (List.cons_ne_nil _ _)]

/-- **A text that is a program is closed.** -/
theorem closed_of_parseProgram (htokens : tokenize text.toList = .ok tokens)
    (hp : parseProgram text = .ok p) : Closed (tokens.map Token.kind) := by
  obtain ⟨clauses, c, hread⟩ := exists_clausesF htokens hp
  obtain ⟨ms, hms, hno⟩ := (scans_of_tokenizeF htokens).exists_ends
  exact ⟨ms, hms, (Reader.clausesF_derives_init hread hms hno).getLast?⟩

end Tokens

/-! ### The tokens of a completed text -/

/-- **The tokens of a text that is read as it stands** are those of the completed text. -/
theorem scans_completed (h : Scans text.toList ks) (hclosed : Closed ks) :
    Scans (completed text).toList ks := by
  have htrimmed := h.trimBlank
  obtain ⟨htext, -⟩ | ⟨htext, hne, hopen⟩ := toList_completed text
  · rwa [htext]
  · rw [htext]
    refine htrimmed.append_of_closed hclosed hne (fun z hz => ?_) quiet_period
    refine ⟨(trimBlank_ends _).2 z hz, ?_⟩
    rintro rfl
    exact hopen hz

theorem readProgram_completed (hp : parseProgram text = .ok p) :
    readProgram (completed text) = readProgram text := by
  obtain ⟨tokens, htokens⟩ : ∃ tokens, tokenize text.toList = .ok tokens := by
    cases htokens : tokenize text.toList with
    | ok tokens => exact ⟨tokens, rfl⟩
    | error e =>
        rw [parseProgram, readProgram, htokens] at hp
        cases hp
  have hscans := scans_of_tokenizeF htokens
  have hclosed := closed_of_parseProgram htokens hp
  obtain ⟨tokens', htokens', hkinds⟩ :=
    (scans_completed hscans hclosed).lexed _ .start (Nat.lt_succ_self _)
  exact readProgram_of_kinds htokens htokens' hkinds hp

/-- **What is read as it stands is accepted as it is typed.**  Whatever blanks and comments stand
around a program, and whether or not its last line ends, the completed text is read as the same
program, with the same notices and counts; and every editor accepts the text as that program. -/
theorem readCompleted_of_parseProgram (hp : parseProgram text = .ok p) :
    readCompleted text = readProgram text ∧ (readCompleted text).result = .ok p ∧
      ∀ s : Editor, (s.evaluate text).result = .ok p ∧
        (s.evaluate text).state = { s with code := completed text, program := some p } := by
  have hread : readProgram (completed text) = readProgram text := readProgram_completed hp
  have hsame : readCompleted text = readProgram text := (readCompleted_eq text).trans hread
  have hresult : (readProgram text).result = .ok p := hp
  refine ⟨hsame, by rw [hsame, hresult], fun s => ?_⟩
  have htwice : (readCompleted (completed text)).result = .ok p := by
    rw [readCompleted_eq, completed_completed, hread, hresult]
  unfold Editor.evaluate
  extract_lets code reading told
  -- what is read is not looked at any further
  have hreading : reading.result = .ok p := htwice
  clear_value reading
  rw [hreading]
  exact ⟨rfl, rfl⟩

/-- A wide blank comes first, and a comment without a period and without an end comes last. -/
def commentedSource : String := "\u3000 kick(36). snare(X) :- kick(Y), X is Y. % no more"

/-- The comment takes up the period that is put behind the source. -/
theorem readCompleted_of_parseProgram_commented : ∃ p,
    parseProgram commentedSource = .ok p ∧ p.text = "kick(36).\nsnare(X) :- kick(Y), is(X, Y).\n" ∧
    (completed commentedSource).toList.getLast? = some '.' ∧
    readCompleted commentedSource = readProgram commentedSource ∧
    (readCompleted commentedSource).result = .ok p ∧
    ∀ s : Editor, (s.evaluate commentedSource).result = .ok p ∧
      (s.evaluate commentedSource).state =
        { s with code := completed commentedSource, program := some p } := by
  have htext : (parseProgram commentedSource).toOption.map Program.text =
      some "kick(36).\nsnare(X) :- kick(Y), is(X, Y).\n" := by decide +kernel
  have hperiod : (completed commentedSource).toList.getLast? = some '.' := by decide +kernel
  obtain ⟨p, hp, htext⟩ := exists_ok htext
  exact ⟨p, hp, htext, hperiod, readCompleted_of_parseProgram hp⟩

end RhythmLogic
