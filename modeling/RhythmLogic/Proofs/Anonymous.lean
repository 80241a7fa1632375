/-
**Anonymous variables are never linked.**

Each `_` of a program text is a variable of its own.  It has a number for a name, the next one that
was not given away yet, and no token of a text names such a variable, since the sign in front of the
number is not one that names are made of.  The count only goes up.  So all variables that are made
while a text is read are apart, also those of groups of goals that were given up and read again.  An
alternative of a body may repeat such a name, but it has it from one `_`.

Main definitions:

* `AnonymousApart` — the anonymous variables of a record are apart;
* `Kept` — what was kept of a record are the variables of the clauses.

Main results:

* `Token.Spelled.ne_anonymousName` — no token of a text names an anonymous variable;
* `Numbering.anonymousApart` — **numbers that go up keep the anonymous variables apart**;
* `Recorder.clausesF_kept` — of what was made, the variables of the clauses are kept;
* `parseProgram_anonymousApart` — **the anonymous variables of an accepted text are never linked**.
-/

import RhythmLogic.Proofs.Accounts
import RhythmLogic.Proofs.Completion
import RhythmLogic.Proofs.Margins
import RhythmLogic.Proofs.Readable

set_option autoImplicit false

namespace RhythmLogic

open Reader (anonymousName SourceClause)

/-! ### Names that are made -/

theorem anonymousName_inj {m n : ℕ} (h : anonymousName m = anonymousName n) : m = n := by
  have hdigits : decimalText m = decimalText n := by
    simpa [anonymousName, naturalText] using congrArg String.toList h
  exact decimalText_inj hdigits

/-- **No name among the tokens of a text is that of an anonymous variable.** -/
theorem Token.Spelled.ne_anonymousName {t : Token} (h : t.Spelled) (n : ℕ) :
    t.kind ≠ .name (anonymousName n) := by
  intro hname
  have hsign : '#' ∈ (anonymousName n).toList := by
    simp [anonymousName]
  exact absurd (h _ hname '#' hsign) (by decide)

theorem exists_token_of_variableAt? {place : List Token} {x : String}
    (h : variableAt? place = some x) : ∃ t ∈ place, t.kind = .name x := by
  rcases place with _ | ⟨t, rest⟩
  · cases h
  · rw [variableAt?] at h
    split at h
    · next y hy =>
      obtain ⟨-, hx⟩ := Option.ite_none_right_eq_some.1 h
      exact ⟨t, List.mem_cons_self, Option.some.inj hx ▸ hy⟩
    · cases h

namespace Made.Fits

variable {v : Made}

/-- What is made for a `_` has a number. -/
theorem exists_number (h : v.Fits) (hv : v.isAnonymous = true) :
    ∃ k, v.name = anonymousName k := by
  obtain ⟨x, hx, hnamed⟩ := h
  have hx : x = "_" := by simpa [Made.isAnonymous, hx] using hv
  generalize v.name = y at hnamed ⊢
  rcases hnamed with k | ⟨hne, -⟩
  · exact ⟨k, rfl⟩
  · exact absurd hx hne

/-- What is made for another name has that name. -/
theorem exists_token (h : v.Fits) (hv : v.isAnonymous = false) :
    ∃ t ∈ v.place, t.kind = .name v.name := by
  obtain ⟨x, hx, hnamed⟩ := h
  have hne : x ≠ "_" := by simpa [Made.isAnonymous, hx] using hv
  generalize v.name = y at hnamed ⊢
  rcases hnamed with k | -
  · exact absurd rfl hne
  · exact exists_token_of_variableAt? hx

end Made.Fits

/-- **The anonymous variables of a record are apart**: from each other, from all other variables
that were made, and from whatever a token of the text can name. -/
structure AnonymousApart (tokens : List Token) (record : List Made) : Prop where
  distinct : ((record.filter Made.isAnonymous).map Made.name).Nodup
  others : ∀ v ∈ record, v.isAnonymous = true → ∀ w ∈ record, w.name = v.name → w = v
  unspelled : ∀ v ∈ record, v.isAnonymous = true → ∀ t ∈ tokens, t.kind ≠ .name v.name

namespace Numbering

variable {tokens : List Token} {n m k : ℕ} {record : List Made} {v : Made}

/-- Only for a `_` a name with a number is made. -/
theorem isAnonymous_of_name (h : Numbering tokens n record m) (hspelled : ∀ t ∈ tokens, t.Spelled)
    (hv : v ∈ record) (hname : v.name = anonymousName k) : v.isAnonymous = true := by
  by_contra hne
  obtain ⟨t, ht, hkind⟩ := (h.fits v hv).exists_token (Bool.eq_false_iff.2 hne)
  rw [hname] at hkind
  exact (hspelled t ((h.places v hv).subset ht)).ne_anonymousName k hkind

/-- **Numbers that go up keep the anonymous variables of a record apart.** -/
theorem anonymousApart (h : Numbering tokens n record m) (hspelled : ∀ t ∈ tokens, t.Spelled) :
    AnonymousApart tokens record := by
  have hdistinct : ((record.filter Made.isAnonymous).map Made.name).Nodup := by
    rw [h.numbers]
    exact (List.nodup_range' 1).map fun _ _ => anonymousName_inj
  refine ⟨hdistinct, fun v hv hanonymous => ?_, fun v hv hanonymous => ?_⟩ <;>
    obtain ⟨k, hk⟩ := (h.fits v hv).exists_number hanonymous
  · intro w hw hname
    have hanonymous' := h.isAnonymous_of_name hspelled hw (hname.trans hk)
    exact List.inj_on_of_nodup_map hdistinct (List.mem_filter.2 ⟨hw, hanonymous'⟩)
      (List.mem_filter.2 ⟨hv, hanonymous⟩) hname
  · intro t ht
    rw [hk]
    exact (hspelled t ht).ne_anonymousName k

end Numbering

/-! ### Accepted texts -/

/-- An alternative of a body only has variables of the clause. -/
theorem Reader.SourceClause.mem_occurrences_of_alternatives {s : SourceClause} {b : List Goal}
    (hb : b ∈ s.alternatives) {x : String} (hx : x ∈ b.flatMap Goal.occurrences) :
    x ∈ s.occurrences := by
  rw [SourceClause.alternatives] at hb
  rw [SourceClause.occurrences]
  rcases hbody : s.body with _ | tree <;> rw [hbody] at hb
  · rw [List.mem_singleton.1 hb] at hx
    cases hx
  · exact List.mem_append_right _ (GoalTree.mem_occurrences_of_alternatives hb hx)

/-- **What was kept of a record are the variables of the clauses**, one for each place of the text
that a variable is made for, in order. -/
structure Kept (tokens : List Token) (record kept : List Made) (clauses : List SourceClause) :
    Prop where
  made : kept.Sublist record
  fits : ∀ v ∈ record, v.Fits
  places : kept.map Made.place = variablePlaces tokens
  names : kept.map Made.name = clauses.flatMap SourceClause.occurrences

/-- Behind the end mark there are no places. -/
theorem variablePlaces_of_eof {c : Cursor} {tokens : List Token} {ks : List TokenKind}
    (hks : tokens.map Token.kind = ks ++ [.eof]) (hno : .eof ∉ ks) (hsuffix : c.tokens <:+ tokens)
    (heof : c.current.kind = .eof) : variablePlaces c.tokens = [] := by
  obtain ⟨read, rfl⟩ := hsuffix
  rcases hleft : c.tokens with _ | ⟨t, rest⟩
  · rfl
  · have ht : t.kind = .eof := by simpa [Cursor.current, hleft] using heof
    rw [hleft, List.map_append, List.map_cons, ht] at hks
    obtain ⟨-, -, hrest⟩ := (List.append_cons_inj_of_notMem hno List.not_mem_nil).1 hks.symm
    rw [List.map_eq_nil_iff.1 hrest.symm, variablePlaces_cons, variableAt?, ht]
    rfl

/-- **The record of a text that is read to its end.**  Of what was made, the variables of the
clauses are kept. -/
theorem Recorder.clausesF_kept {fuel : ℕ} {tokens : List Token} {ks : List TokenKind}
    {record : List Made} {clauses : List SourceClause} {c : Cursor}
    (h : Recorder.clausesF fuel (.before tokens) = (record, clauses, none, c))
    (hks : tokens.map Token.kind = ks ++ [.eof]) (hno : .eof ∉ ks) :
    Numbering tokens 0 record c.anonymous ∧ ∃ kept, Kept tokens record kept clauses := by
  obtain ⟨-, hsuffix, hnumbering, hkept⟩ := accounts_clausesF h
  obtain ⟨heof, kept, hmade, hplaces, hnames⟩ := hkept rfl
  rw [variablePlaces_of_eof hks hno hsuffix heof, List.append_nil] at hplaces
  exact ⟨hnumbering, kept, hmade, hnumbering.fits, hplaces.symm, hnames.symm⟩

/-- The name of an anonymous variable of the clauses was made for one `_` only. -/
theorem Kept.exists_anonymous {tokens : List Token} {record kept : List Made}
    {clauses : List SourceClause} {m k : ℕ} (h : Kept tokens record kept clauses)
    (hnumbering : Numbering tokens 0 record m) (hspelled : ∀ t ∈ tokens, t.Spelled)
    (hk : anonymousName k ∈ clauses.flatMap SourceClause.occurrences) :
    ∃ v ∈ kept, v.isAnonymous = true ∧ v.name = anonymousName k ∧
      ∀ w ∈ record, w.name = anonymousName k → w = v := by
  rw [← h.names] at hk
  obtain ⟨v, hv, hname⟩ := List.mem_map.1 hk
  have hmade := h.made.subset hv
  have hanonymous := hnumbering.isAnonymous_of_name hspelled hmade hname
  refine ⟨v, hv, hanonymous, hname, fun w hw hw' => ?_⟩
  exact (hnumbering.anonymousApart hspelled).others v hmade hanonymous w hw (hw'.trans hname.symm)

/-- **Anonymous variables are never linked.**  A program text has one variable for each `_`, and all
that were made on the way, also for groups of goals that were given up and read again, have
different names, which neither another variable nor a token of the text has.  So an alternative of a
body has each of these names from one `_` only. -/
theorem parseProgram_anonymousApart {text : String} {p : Program} (hp : parseProgram text = .ok p) :
    ∃ tokens record clauses c kept, tokenize text.toList = .ok tokens ∧
      Recorder.clausesF (tokens.length + 1) (.before tokens) = (record, clauses, none, c) ∧
      Reader.clausesF (tokens.length + 1) (.before tokens) = (clauses, none, c) ∧
      p = ⟨clauses.map (·.kept)⟩ ∧ Kept tokens record kept clauses ∧
      ((kept.filter Made.isAnonymous).map Made.name).Nodup ∧ AnonymousApart tokens record ∧
      ∀ s ∈ clauses, ∀ b ∈ s.alternatives, ∀ k, anonymousName k ∈ b.flatMap Goal.occurrences →
        ∃ v ∈ kept, v.isAnonymous = true ∧ v.name = anonymousName k ∧
          ∀ w ∈ record, w.name = anonymousName k → w = v := by
  rcases htokens : tokenize text.toList with e | tokens
  · rw [parseProgram_eq_error htokens] at hp
    cases hp
  obtain ⟨clauses, c, hread⟩ := exists_clausesF htokens hp
  obtain ⟨ks, hks, hno⟩ := (scans_of_tokenizeF htokens).exists_ends
  have hspelled : ∀ t ∈ tokens, t.Spelled := tokenize_spelled htokens
  have hprogram : p = ⟨clauses.map (·.kept)⟩ := by
    rw [parseProgram, readProgram_of_clausesF htokens hread] at hp
    exact (Except.ok.inj hp).symm
  rcases hrecord : Recorder.clausesF (tokens.length + 1) (.before tokens) with
    ⟨record, clauses', error, c'⟩
  obtain ⟨hsame, -⟩ := Recorder.accounts_clausesF hrecord
  rw [hread] at hsame
  cases hsame
  obtain ⟨hnumbering, kept, hkept⟩ := Recorder.clausesF_kept hrecord hks hno
  have hapart := hnumbering.anonymousApart hspelled
  have hdistinct := hapart.distinct.sublist ((hkept.made.filter _).map _)
  refine ⟨tokens, record, clauses, c, kept, rfl, hrecord, hread, hprogram, hkept, hdistinct, hapart,
    ?_⟩
  intro s hs b hb k hk
  have hshown := SourceClause.mem_occurrences_of_alternatives hb hk
  exact hkept.exists_anonymous hnumbering hspelled (List.mem_flatMap.2 ⟨s, hs, hshown⟩)

/-- The sum is first read in a group, which is given up at the sign behind it, and `_#4` and `_#5`
are not seen again.  An alternative has a name twice where a negation repeats a call. -/
theorem parseProgram_anonymousApart_regrouped :
    let text := "p(_) :- (q(_, X), r(_)), ((_ + _) > X ; \\+ (s(_), (t ; u)))."
    ∃ p tokens record clauses kept, parseProgram text = .ok p ∧
      tokenize text.toList = .ok tokens ∧ p = ⟨clauses.map (·.kept)⟩ ∧
      record.map Made.name =
        ["_#1", "_#2", "X", "_#3", "_#4", "_#5", "_#6", "_#7", "X", "_#8"] ∧
      kept.map Made.name = ["_#1", "_#2", "X", "_#3", "_#6", "_#7", "X", "_#8"] ∧
      (clauses.flatMap SourceClause.alternatives).map (List.flatMap Goal.occurrences) =
        [["_#2", "X", "_#3", "_#6", "_#7", "X"], ["_#2", "X", "_#3", "_#8", "_#8"]] ∧
      Kept tokens record kept clauses ∧ ((kept.filter Made.isAnonymous).map Made.name).Nodup ∧
      AnonymousApart tokens record ∧
      ∀ s ∈ clauses, ∀ b ∈ s.alternatives, ∀ k, anonymousName k ∈ b.flatMap Goal.occurrences →
        ∃ v ∈ kept, v.isAnonymous = true ∧ v.name = anonymousName k ∧
          ∀ w ∈ record, w.name = anonymousName k → w = v := by
  intro text
  let namesOf := fun tokens : List Token =>
    let (record, clauses, _) := Recorder.clausesF (tokens.length + 1) (.before tokens)
    (record.map Made.name, clauses.flatMap SourceClause.occurrences,
      (clauses.flatMap SourceClause.alternatives).map (List.flatMap Goal.occurrences))
  have hnames : (tokenize text.toList).toOption.map namesOf =
      some (["_#1", "_#2", "X", "_#3", "_#4", "_#5", "_#6", "_#7", "X", "_#8"],
        ["_#1", "_#2", "X", "_#3", "_#6", "_#7", "X", "_#8"],
        [["_#2", "X", "_#3", "_#6", "_#7", "X"], ["_#2", "X", "_#3", "_#8", "_#8"]]) := by
    decide +kernel
  have hp : (parseProgram text).toOption.map Program.text =
      some "p(_#1) :- q(_#2, X), r(_#3), >((_#6 + _#7), X).\n" := by decide +kernel
  obtain ⟨p, hp, -⟩ := exists_ok hp
  obtain ⟨tokens, record, clauses, c, kept, htokens, hrecord, -, hprogram, hkept, happart⟩ :=
    parseProgram_anonymousApart hp
  rw [htokens] at hnames
  simp only [namesOf, Except.toOption, Option.map_some, hrecord, Option.some.injEq,
    Prod.mk.injEq] at hnames
  obtain ⟨hmade, hshown, halternatives⟩ := hnames
  exact ⟨p, tokens, record, clauses, kept, hp, htokens, hprogram, hmade, hkept.names.trans hshown,
    halternatives, hkept, happart⟩

end RhythmLogic
