/-
**Every variable that is made is accounted for.**

A reading with a record reads what the reader reads.  It gives the numbers of anonymous variables
one after the other, and never again, wherever the cursor goes.  And the variables of what it reads
are some of those in the record: one for each place that the cursor has passed for good, in order.

What is special is a group of goals that is given up.  The cursor goes back, so that nothing was
passed, but the count stays, so that what is read then gets numbers of its own.

Main definitions:

* `GoalTree.occurrences`, `Reader.SourceClause.occurrences` — names of variables, as they occur;
* `Numbering` — **a record goes on with the numbers from one count to another**;
* `Recorder.Accounts` — a reading with a record accounts for the variables;
* `accounting`, `accounted` — the judgement that it does, and the meaning of the rules for it.

Main results:

* `Numbering.append` — a record that goes on where another one ends;
* `Recorder.Accounts.bind`, `Recorder.Accounts.again` — a reading after a reading, and a reading
  that goes back;
* `Recorder.accounts_clause`, `Recorder.accounts_clausesF` — **clauses and texts account for their
  variables**.
-/

import Mathlib.Data.List.Infix
import RhythmLogic.Proofs.Apart
import RhythmLogic.Proofs.Meanings
import RhythmLogic.Proofs.Records

set_option autoImplicit false

namespace RhythmLogic

open Reader (anonymousName isVariableName SourceClause continuesExpression)

/-! ### Occurrences -/

/-- The names of the variables of a tree of goals, as they occur from left to right. -/
def GoalTree.occurrences : GoalTree → List String
  | .call t => t.occurrences
  | .both l r | .either l r => l.occurrences ++ r.occurrences
  | .negation inner => inner.occurrences

/-- The names of the variables of a clause as it is written, as they occur from left to right. -/
def Reader.SourceClause.occurrences (c : SourceClause) : List String :=
  c.head.occurrences ++ (c.body.map GoalTree.occurrences).getD []

/-- An alternative only has variables of the tree. -/
theorem GoalTree.mem_occurrences_of_alternatives {tree : GoalTree} {b : List Goal}
    (hb : b ∈ tree.alternatives) {x : String} (hx : x ∈ b.flatMap Goal.occurrences) :
    x ∈ tree.occurrences := by
  induction tree generalizing b with
  | call t =>
      rw [alternatives, List.mem_singleton] at hb
      simpa [hb, Goal.occurrences, occurrences] using hx
  | both l r ihl ihr =>
      simp only [alternatives, paired, List.mem_flatMap, List.mem_map] at hb
      obtain ⟨left, hleft, right, hright, rfl⟩ := hb
      rw [List.flatMap_append, List.mem_append] at hx
      exact List.mem_append.2 (hx.imp (ihl hleft) (ihr hright))
  | either l r ihl ihr =>
      exact List.mem_append.2 ((List.mem_append.1 hb).imp (ihl · hx) (ihr · hx))
  | negation inner ih =>
      rw [alternatives, List.mem_singleton] at hb
      simp only [hb, List.flatMap_singleton, Goal.occurrences,
        Goal.alternativesOccurrences_eq_flatMap, List.mem_flatMap] at hx
      obtain ⟨b, hb, hx⟩ := hx
      exact ih hb (List.mem_flatMap.2 hx)

/-! ### Places -/

section Places

variable {c : Cursor} {x : String}

theorem variablePlaces_cons (t : Token) (rest : List Token) : variablePlaces (t :: rest) =
    if (variableAt? (t :: rest)).isSome then (t :: rest) :: variablePlaces rest
    else variablePlaces rest := by
  simp only [variablePlaces, List.tails, List.filter_cons]

theorem tokens_of_name (h : c.current.kind = .name x) :
    ∃ p, c.tokens = ⟨.name x, p⟩ :: c.advance.tokens := by
  have hne : c.current.kind ≠ .eof := by simp [h]
  rcases hc : c.tokens with _ | ⟨⟨k, p⟩, rest⟩
  · simp [Cursor.current, hc] at h
  · obtain rfl : k = .name x := by simpa [Cursor.current, hc] using h
    refine ⟨p, ?_⟩
    rw [Cursor.advance, if_neg hne]
    simp [hc]

/-- No variable is made for a token that is not a name. -/
theorem variableAt?_of_kind (h : ∀ x, c.current.kind ≠ .name x) : variableAt? c.tokens = none := by
  rcases hc : c.tokens with _ | ⟨t, rest⟩
  · rfl
  · simp only [Cursor.current, hc, List.headD_cons] at h
    cases hk : t.kind with
    | name x => exact absurd hk (h x)
    | _ => simp only [variableAt?, hk]

/-- What is made for a name depends on the name and on the token after it. -/
theorem variableAt?_of_name (h : c.current.kind = .name x) : variableAt? c.tokens =
    if isVariableName x ∧ c.advance.current.kind ≠ .symbol .openParen then some x else none := by
  obtain ⟨p, hp⟩ := tokens_of_name h
  rw [hp]
  rfl

/-- No variable is made for a token that is passed as it is. -/
theorem variableAt?_of_plain (h : c.current.kind.Plain) : variableAt? c.tokens = none := by
  by_cases hname : ∃ x, c.current.kind = .name x
  · obtain ⟨x, hx⟩ := hname
    obtain rfl := h.2 x hx
    rw [variableAt?_of_name hx, if_neg fun h => absurd h.1 (by decide)]
  · exact variableAt?_of_kind fun x hx => hname ⟨x, hx⟩

theorem suffix_advance (c : Cursor) : c.advance.tokens <:+ c.tokens := by
  rw [Cursor.advance]
  split
  · exact List.suffix_rfl
  · exact List.tail_suffix c.tokens

theorem anonymous_advance (c : Cursor) : c.advance.anonymous = c.anonymous := by
  rw [Cursor.advance]
  split <;> rfl

theorem variablePlaces_advance (h : variableAt? c.tokens = none) :
    variablePlaces c.tokens = variablePlaces c.advance.tokens := by
  rw [Cursor.advance]
  split
  · rfl
  · rcases hc : c.tokens with _ | ⟨t, rest⟩
    · rfl
    · rw [variablePlaces_cons, ← hc, h]
      simp [hc]

end Places

/-! ### Numbers -/

/-- A variable was made for the name at its place. -/
def Made.Fits (v : Made) : Prop :=
  ∃ x, variableAt? v.place = some x ∧ Grammar.Named x (.var v.name)

/-- **A record goes on with the numbers after `n`, up to `m`**, for places among some tokens. -/
structure Numbering (tokens : List Token) (n : ℕ) (record : List Made) (m : ℕ) : Prop where
  le : n ≤ m
  places : ∀ v ∈ record, v.place <:+ tokens
  fits : ∀ v ∈ record, v.Fits
  numbers : (record.filter Made.isAnonymous).map Made.name =
    (List.range' (n + 1) (m - n)).map anonymousName

namespace Numbering

variable {tokens tokens' : List Token} {n m k : ℕ} {record more : List Made}

theorem nil (tokens : List Token) (n : ℕ) : Numbering tokens n [] n :=
  ⟨Nat.le_refl n, nofun, nofun, by simp⟩

theorem mono (h : Numbering tokens' n record m) (hsuffix : tokens' <:+ tokens) :
    Numbering tokens n record m :=
  ⟨h.le, fun v hv => (h.places v hv).trans hsuffix, h.fits, h.numbers⟩

theorem anonymous {place : List Token} (hplace : place <:+ tokens)
    (h : variableAt? place = some "_") :
    Numbering tokens n [⟨place, anonymousName (n + 1)⟩] (n + 1) := by
  refine ⟨Nat.le_succ n, by simpa using hplace, ?_, ?_⟩
  · simpa using ⟨"_", h, .anonymous (n + 1)⟩
  · simp [Made.isAnonymous, h]

theorem named {place : List Token} {x : String} (hplace : place <:+ tokens)
    (h : variableAt? place = some x) (hne : x ≠ "_") (hx : isVariableName x = true) :
    Numbering tokens n [⟨place, x⟩] n := by
  refine ⟨Nat.le_refl n, by simpa using hplace, ?_, ?_⟩
  · simpa using ⟨x, h, .variable hne hx⟩
  · simp [Made.isAnonymous, h, hne]

/-- **A record that goes on where another one ends.** -/
theorem append (h : Numbering tokens n record m) (h' : Numbering tokens m more k) :
    Numbering tokens n (record ++ more) k := by
  have hle := h.le
  have hle' := h'.le
  refine ⟨hle.trans hle', ?_, ?_, ?_⟩
  · intro v hv
    exact (List.mem_append.1 hv).elim (h.places v) (h'.places v)
  · intro v hv
    exact (List.mem_append.1 hv).elim (h.fits v) (h'.fits v)
  · -- the numbers up to `m` and those after it are the numbers up to `k`
    have hlengths : k - n = (m - n) + (k - m) := by omega
    have hstart : m + 1 = n + 1 + (m - n) := by omega
    rw [List.filter_append, List.map_append, h.numbers, h'.numbers, hlengths, hstart,
      ← List.map_append, List.range'_append_1]

end Numbering

namespace Recorder

variable {α β : Type} {p : Post Made α} {q : Post Made β} {c c₁ : Cursor} {r : Recorder α}
  {s : Reader α}

/-! ### Readings with a record -/

/-- **From a cursor on, a recorder reads what a reader reads**, and accounts for the variables:
it gives numbers one after the other, and the variables that are kept in the result are some of
those in the record, one for each place that was passed, in order. -/
inductive Accounts (p : Post Made α) (c : Cursor) (r : Recorder α) (s : Reader α) : Prop where
  | ok {record kept : List Made} {a b : α} {c' : Cursor} : r c = (record, .ok a, c') →
      s c = (.ok b, c') → c'.tokens <:+ c.tokens →
      Numbering c.tokens c.anonymous record c'.anonymous → kept.Sublist record →
      variablePlaces c.tokens = kept.map Made.place ++ variablePlaces c'.tokens →
      p.result kept a b → p.stop kept c'.current.kind → Accounts p c r s
  | error {record : List Made} {e : ParseError} {c' : Cursor} : r c = (record, .error e, c') →
      s c = (.error e, c') → c'.tokens <:+ c.tokens →
      Numbering c.tokens c.anonymous record c'.anonymous → Accounts p c r s

namespace Accounts

theorem mono {q : Post Made α} (h : Accounts p c r s)
    (hresult : ∀ t a b, p.result t a b → q.result t a b) (hstop : ∀ t k, p.stop t k → q.stop t k) :
    Accounts q c r s := by
  cases h with
  | ok hr hs hsuffix hnumbering hsub hplaces hab hk =>
      exact .ok hr hs hsuffix hnumbering hsub hplaces (hresult _ _ _ hab) (hstop _ _ hk)
  | error hr hs hsuffix hnumbering => exact .error hr hs hsuffix hnumbering

/-- **A reading after a reading** keeps the variables of both. -/
theorem bind {f : α → Recorder β} {g : α → Reader β} (h : Accounts p c r s)
    (hstop : ∀ t k, p.stop t k → q.stop t k)
    (hf : ∀ kept a b c', c'.tokens <:+ c.tokens → p.result kept a b → q.stop kept c'.current.kind →
      Accounts (q.after kept) c' (f a) (g b)) : Accounts q c (r >>= f) (s >>= g) := by
  cases h with
  | error hr hs hsuffix hnumbering =>
      exact .error (bind_of_error hr f) (Reader.bind_of_error hs g) hsuffix hnumbering
  | ok hr hs hsuffix hnumbering hsub hplaces hab hk =>
      have hr' := bind_of_ok hr f
      have hs' := Reader.bind_of_ok hs g
      cases hf _ _ _ _ hsuffix hab (hstop _ _ hk) with
      | error hr₁ hs₁ hsuffix₁ hnumbering₁ =>
          rw [hr₁] at hr'
          exact .error hr' (hs'.trans hs₁) (hsuffix₁.trans hsuffix)
            (hnumbering.append (hnumbering₁.mono hsuffix))
      | ok hr₁ hs₁ hsuffix₁ hnumbering₁ hsub₁ hplaces₁ hab₁ hk₁ =>
          rw [hr₁] at hr'
          refine .ok hr' (hs'.trans hs₁) (hsuffix₁.trans hsuffix)
            (hnumbering.append (hnumbering₁.mono hsuffix)) (hsub.append hsub₁) ?_ hab₁ hk₁
          rw [hplaces, hplaces₁, List.map_append, List.append_assoc]

/-- A reading that goes on as another one does, where no variable was passed. -/
theorem goesOn {r' : Recorder α} {s' : Reader α} (h : Accounts p c₁ r' s') (hr : r c = r' c₁)
    (hs : s c = s' c₁) (hsuffix : c₁.tokens <:+ c.tokens) (hanonymous : c₁.anonymous = c.anonymous)
    (hplaces : variablePlaces c.tokens = variablePlaces c₁.tokens) : Accounts p c r s := by
  cases h with
  | error hr₁ hs₁ hsuffix₁ hnumbering₁ =>
      refine .error (hr.trans hr₁) (hs.trans hs₁) (hsuffix₁.trans hsuffix) ?_
      exact hanonymous ▸ hnumbering₁.mono hsuffix
  | ok hr₁ hs₁ hsuffix₁ hnumbering₁ hsub₁ hplaces₁ hab₁ hk₁ =>
      refine .ok (hr.trans hr₁) (hs.trans hs₁) (hsuffix₁.trans hsuffix) ?_ hsub₁
        (hplaces.trans hplaces₁) hab₁ hk₁
      exact hanonymous ▸ hnumbering₁.mono hsuffix

/-- A reading that reads the same tokens once more.  Of what was made before, nothing is kept. -/
theorem again {r' : Recorder α} {s' : Reader α} {dropped : List Made} (h : Accounts p c₁ r' s')
    (htokens : c₁.tokens = c.tokens)
    (hdropped : Numbering c.tokens c.anonymous dropped c₁.anonymous)
    (hr : r c = (dropped ++ (r' c₁).1, (r' c₁).2)) (hs : s c = s' c₁) : Accounts p c r s := by
  cases h with
  | error hr₁ hs₁ hsuffix₁ hnumbering₁ =>
      rw [hr₁] at hr
      rw [htokens] at hsuffix₁ hnumbering₁
      exact .error hr (hs.trans hs₁) hsuffix₁ (hdropped.append hnumbering₁)
  | ok hr₁ hs₁ hsuffix₁ hnumbering₁ hsub₁ hplaces₁ hab₁ hk₁ =>
      rw [hr₁] at hr
      rw [htokens] at hsuffix₁ hnumbering₁ hplaces₁
      exact .ok hr (hs.trans hs₁) hsuffix₁ (hdropped.append hnumbering₁)
        (hsub₁.trans (List.sublist_append_right _ _)) hplaces₁ hab₁ hk₁

theorem pure {a b : α} (h : p.result [] a b) (hstop : p.stop [] c.current.kind) :
    Accounts p c (pure a) (Pure.pure b) :=
  .ok rfl rfl List.suffix_rfl (.nil _ _) (List.Sublist.refl []) rfl h hstop

theorem fail (cause : ParseError.Cause) :
    Accounts p c (silent (Reader.fail cause)) (Reader.fail cause) :=
  .error rfl rfl List.suffix_rfl (.nil _ _)

/-- A token that is no variable is passed. -/
theorem passes {r' : Recorder α} {s' : Reader α} (h : Accounts p c.advance r' s')
    (hr : r c = r' c.advance) (hs : s c = s' c.advance) (hc : variableAt? c.tokens = none) :
    Accounts p c r s :=
  h.goesOn hr hs (suffix_advance c) (anonymous_advance c) (variablePlaces_advance hc)

/-! ### Names -/

/-- The variables of a term are those that were kept for it. -/
def Shows (kept : List Made) (a b : Term) : Prop :=
  b = a ∧ a.occurrences = kept.map Made.name

section Names

variable {p : Post Made Term} {r : Recorder Term} {s : Reader Term} {x : String}
  (h : ∀ kept a b, Shows kept a b → p.result kept a b ∧ ∀ k, p.stop kept k)
include h

/-- A variable that is made for the name under the cursor. -/
theorem made {v : String} (hname : c.current.kind = .name x)
    (hplace : variableAt? c.tokens = some x) (hr : r c = ([⟨c.tokens, v⟩], .ok (.var v), c₁))
    (hs : s c = (.ok (.var v), c₁)) (htokens : c₁.tokens = c.advance.tokens)
    (hnumbering : Numbering c.tokens c.anonymous [⟨c.tokens, v⟩] c₁.anonymous) :
    Accounts p c r s := by
  have hplaces : variablePlaces c.tokens =
      [Made.mk c.tokens v].map Made.place ++ variablePlaces c₁.tokens := by
    obtain ⟨position, hp⟩ := tokens_of_name hname
    rw [htokens, hp, variablePlaces_cons, ← hp, hplace]
    rfl
  obtain ⟨hresult, hstop⟩ := h [⟨c.tokens, v⟩] (.var v) (.var v) ⟨rfl, rfl⟩
  exact .ok hr hs (htokens ▸ suffix_advance c) hnumbering (List.Sublist.refl _) hplaces hresult
    (hstop _)

/-- **The name under the cursor**, where no parenthesis follows it. -/
theorem nameTerm (hname : c.current.kind = .name x)
    (hparen : c.advance.current.kind ≠ .symbol .openParen)
    (hr : r c = Recorder.nameTerm c.tokens x c.advance)
    (hs : s c = Reader.nameTerm x c.advance) : Accounts p c r s := by
  have hplace := variableAt?_of_name hname
  by_cases hanonymous : x = "_"
  · subst hanonymous
    have hplace : variableAt? c.tokens = some "_" := by
      rw [hplace, if_pos ⟨by decide, hparen⟩]
    refine made h hname hplace hr hs rfl ?_
    change Numbering _ _ [⟨_, anonymousName (c.advance.anonymous + 1)⟩] (c.advance.anonymous + 1)
    rw [anonymous_advance]
    exact .anonymous List.suffix_rfl hplace
  by_cases hvariable : isVariableName x = true
  · have hplace : variableAt? c.tokens = some x := by
      rw [hplace, if_pos ⟨hvariable, hparen⟩]
    rw [Recorder.nameTerm, Reader.nameTerm, if_neg hanonymous, if_pos hvariable] at hr
    rw [Reader.nameTerm, if_neg hanonymous, if_pos hvariable] at hs
    refine made h hname hplace hr hs rfl ?_
    change Numbering _ _ _ c.advance.anonymous
    rw [anonymous_advance]
    exact .named List.suffix_rfl hplace hanonymous hvariable
  · have hplace : variableAt? c.tokens = none := by
      rw [hplace, if_neg fun h => hvariable h.1]
    rw [Recorder.nameTerm, Reader.nameTerm, if_neg hanonymous, if_neg hvariable] at hr
    rw [Reader.nameTerm, if_neg hanonymous, if_neg hvariable] at hs
    obtain ⟨hresult, hstop⟩ := h [] (.atom x) (.atom x) ⟨rfl, rfl⟩
    have hatom : Accounts p (c.advance.count (some x)) (Pure.pure (.atom x))
        (Pure.pure (.atom x)) := .pure hresult (hstop _)
    exact hatom.goesOn hr hs (suffix_advance c) (anonymous_advance c)
      (variablePlaces_advance hplace)

/-- A name is passed, and with it a parenthesis that follows it.  Before a parenthesis a name is
that of a compound, also if it is `_`. -/
theorem named (hname : c.current.kind = .name x)
    (hcompound : c.advance.current.kind = .symbol .openParen → Accounts p c.advance.advance r s) :
    Accounts p c (named x r) (Reader.named x s) := by
  have hread : Recorder.named x r c = (liftM (Reader.eat .openParen) >>= fun b =>
      if b then r else Recorder.nameTerm c.tokens x) c.advance := rfl
  have hread' := Reader.named_apply x s c
  by_cases hparen : c.advance.current.kind = .symbol .openParen
  · have heat : Reader.eat .openParen c.advance = (.ok true, c.advance.advance) := by
      rw [← bind_pure (Reader.eat .openParen), Reader.eat_bind_apply, if_pos hparen]
      rfl
    rw [lift_bind heat] at hread
    rw [if_pos hparen] at hread'
    have hplace : variableAt? c.tokens = none := by
      rw [variableAt?_of_name hname, if_neg fun h => h.2 hparen]
    have hplace' : variableAt? c.advance.tokens = none := variableAt?_of_kind (by simp [hparen])
    have hafter : Accounts p c.advance (fun _ => r c.advance.advance)
        fun _ => s c.advance.advance := (hcompound hparen).passes rfl rfl hplace'
    exact hafter.passes hread hread' hplace
  · have heat : Reader.eat .openParen c.advance = (.ok false, c.advance) := by
      rw [← bind_pure (Reader.eat .openParen), Reader.eat_bind_apply, if_neg hparen]
      rfl
    rw [lift_bind heat] at hread
    rw [if_neg hparen] at hread'
    exact nameTerm h hname hparen hread hread'

end Names

/-! ### Groups and heads -/

/-- A group that is kept accounts for its variables.  If it is given up, then what was noted for it
comes before what is noted for the test. -/
theorem grouped {p : Post Made GoalTree} {group test : Recorder GoalTree}
    {group' test' : Reader GoalTree} (hparen : c.current.kind = .symbol .openParen)
    (hgroup : Accounts ⟨p.result, fun _ _ => True⟩ c.advance group group')
    (hstop : ∀ kept k, p.stop kept k)
    (htest : ∀ c₁ : Cursor, c₁.tokens = c.tokens → Accounts p c₁ test test') :
    Accounts p c (grouped group test) (Reader.grouped group' test') := by
  have hplaces := variablePlaces_advance (variableAt?_of_kind (c := c) (by simp [hparen]))
  cases hgroup with
  | @error record e c₁ hr hs _ hnumbering =>
      have hdropped := hnumbering.mono (suffix_advance c)
      rw [anonymous_advance] at hdropped
      -- the tokens come back, the count of `c₁` stays
      exact (htest { c₁ with tokens := c.tokens } rfl).again rfl hdropped
        (grouped_of_error test hr) (Reader.grouped_of_error test' hs)
  | @ok record kept inner inner' c₁ hr hs hsuffix hnumbering hsub hplaces' hinner _ =>
      have hdropped := hnumbering.mono (suffix_advance c)
      rw [anonymous_advance] at hdropped
      have hread := grouped_of_ok test hr
      have hread' := Reader.grouped_of_ok test' hs
      cases hends : continuesExpression c₁.current.kind with
      | true =>
          rw [hends, if_pos rfl] at hread hread'
          exact (htest { c₁ with tokens := c.tokens } rfl).again rfl hdropped hread hread'
      | false =>
          rw [hends, if_neg Bool.false_ne_true] at hread hread'
          exact .ok hread hread' (hsuffix.trans (suffix_advance c)) hdropped hsub
            (hplaces.trans hplaces') hinner (hstop _ _)

/-- A term that is no head is refused where it starts. -/
theorem headed {p : Post Made Term} {r : Recorder Term} {s : Reader Term} (h : Accounts p c r s)
    (hsame : ∀ kept a b, p.result kept a b → b = a) :
    Accounts ⟨fun t a b => p.result t a b ∧ a.functor?.isSome = true, p.stop⟩ c (headed r)
      (Reader.headed s) := by
  have hseen : Reader.peek c = (.ok c.current, c) := rfl
  have hread : Recorder.headed r c = _ := lift_bind hseen _
  have hread' : Reader.headed s c = _ := Reader.peek_bind_apply _ c
  refine goesOn ?_ hread hread' List.suffix_rfl rfl rfl
  refine h.bind (fun _ _ => id) fun kept a b c' _ hab hk => ?_
  obtain rfl := hsame _ _ _ hab
  cases hhead : b.functor? with
  | none => exact .error rfl rfl List.suffix_rfl (.nil _ _)
  | some functor =>
      refine .pure ?_ ?_
      · simpa [Post.after, hhead] using hab
      · simpa [Post.after] using hk

end Accounts

end Recorder

/-! ### The judgement -/

/-- **The judgement that a recorder accounts for the variables** of what a reader reads. -/
def accounting : Judgement Recorder Reader where
  Trace := Made
  left _ := []
  Holds := Recorder.Accounts
  Comes c _ c' := c'.tokens <:+ c.tokens
  Named _ := Recorder.Accounts.Shows
  bounded := false
  comes_length h := h.length_le
  mono h := h.mono
  pure := .pure
  fail _ _ := .fail _
  bind h hstop hf := h.bind hstop hf
  kind h := h.goesOn rfl rfl List.suffix_rfl rfl rfl
  advance hk h := h.passes rfl rfl (variableAt?_of_plain hk)
  build {_ _ c _ _ name _ _} h := (h (c.count name) rfl).goesOn rfl rfl List.suffix_rfl rfl rfl
  named hname h hcompound := .named h hname hcompound

/-- Trees that are the same, with the variables that were kept for them. -/
def Values.counted : Values Made where
  term := Recorder.Accounts.Shows
  terms kept as bs := bs = as ∧ as.flatMap Term.occurrences = kept.map Made.name
  goal kept a b := b = a ∧ a.occurrences = kept.map Made.name
  clause kept a b := b = a ∧ a.occurrences = kept.map Made.name
  number _ := ⟨rfl, rfl⟩
  expr := by
    rintro t u op l _ r _ ⟨rfl, hl⟩ ⟨rfl, hr⟩
    exact ⟨rfl, by simp [Term.occurrences, hl, hr]⟩
  compound := by
    rintro t x as _ ⟨rfl, h⟩
    exact ⟨rfl, by simpa [Term.occurrences] using h⟩
  list := by
    rintro t as _ ⟨rfl, h⟩
    exact ⟨rfl, by simpa [Term.occurrences] using h⟩
  partialList := by
    rintro t u as _ a _ ⟨rfl, h⟩ ⟨rfl, ha⟩
    exact ⟨rfl, by simp [Term.occurrences, h, ha]⟩
  none := ⟨rfl, rfl⟩
  more := by
    rintro t u as _ a _ ⟨rfl, h⟩ ⟨rfl, ha⟩
    exact ⟨rfl, by simp [h, ha]⟩
  isEmpty_eq h := by rw [h.1]
  call := by
    rintro t a _ ⟨rfl, h⟩
    exact ⟨rfl, h⟩
  negation := by
    rintro t a _ ⟨rfl, h⟩
    exact ⟨rfl, h⟩
  both := by
    rintro t u l _ r _ ⟨rfl, hl⟩ ⟨rfl, hr⟩
    exact ⟨rfl, by simp [GoalTree.occurrences, hl, hr]⟩
  either := by
    rintro t u l _ r _ ⟨rfl, hl⟩ ⟨rfl, hr⟩
    exact ⟨rfl, by simp [GoalTree.occurrences, hl, hr]⟩
  fact := by
    rintro t a _ ⟨rfl, h⟩
    exact ⟨rfl, by simp [SourceClause.occurrences, h]⟩
  rule := by
    rintro t u a _ g _ ⟨rfl, h⟩ ⟨rfl, hg⟩
    exact ⟨rfl, by simp [SourceClause.occurrences, h, hg]⟩

/-- **The rules account for the variables.** -/
def accounted : Meaning accounting :=
  .ofValues (J := accounting) .counted (fun _ => rfl) fun _ _ _ _ => id

theorem accounted_stops : accounted.Stops := Meaning.ofValues_stops _ _ _

theorem accounted_tries : accounted.Tries where
  grouped hparen _ hgroup htest := .grouped hparen hgroup (fun _ _ => trivial) htest
  headed h := .headed h fun _ _ _ hab => hab.1

namespace Recorder

/-! ### Texts -/

variable {c : Cursor}

/-- **A clause accounts for its variables.** -/
theorem accounts_clause (depth : ℕ) (c : Cursor) : Accounts ⟨fun kept a b =>
    b = a ∧ a.occurrences = kept.map Made.name, fun _ _ => True⟩ c (clause depth)
      (Reader.clause depth) := by
  rw [Reader.clause_eq]
  exact accounted.shown_clause accounted_stops accounted_tries rfl

/-- **A text accounts for its variables**, and if it is read to its end, then some of those that
were made are the variables of its clauses, one for each place up to there. -/
theorem accounts_clausesF {fuel : ℕ} {c' : Cursor} {record : List Made}
    {clauses : List SourceClause} {error : Option ParseError}
    (h : clausesF fuel c = (record, clauses, error, c')) :
    Reader.clausesF fuel c = (clauses, error, c') ∧ c'.tokens <:+ c.tokens ∧
      Numbering c.tokens c.anonymous record c'.anonymous ∧
      (error = none → c'.current.kind = .eof ∧ ∃ kept : List Made, kept.Sublist record ∧
        variablePlaces c.tokens = kept.map Made.place ++ variablePlaces c'.tokens ∧
        clauses.flatMap SourceClause.occurrences = kept.map Made.name) := by
  induction fuel generalizing c record clauses with
  | zero =>
      cases h
      exact ⟨rfl, List.suffix_rfl, .nil _ _, by simp⟩
  | succ fuel ih =>
      rw [clausesF] at h
      rw [Reader.clausesF]
      split at h
      · next heof =>
        cases h
        rw [if_pos heof]
        exact ⟨rfl, List.suffix_rfl, .nil _ _, fun _ => ⟨heof, [], by simp, by simp, rfl⟩⟩
      next heof =>
      rw [if_neg heof]
      cases accounts_clause (Reader.budget c.tokens) c with
      | error hr hs hsuffix hnumbering =>
          rw [hr] at h
          rw [hs]
          cases h
          exact ⟨rfl, hsuffix, hnumbering, by simp⟩
      | @ok record₁ kept first _ c₁ hr hs hsuffix hnumbering hsub hplaces hfirst _ =>
          obtain ⟨rfl, hnames⟩ := hfirst
          rw [hr] at h
          rw [hs]
          rcases hrest : clausesF fuel c₁ with ⟨more, rest, error', c₂⟩
          dsimp only at h ⊢
          rw [hrest] at h
          cases h
          obtain ⟨hread, hsuffix', hnumbering', hkept'⟩ := ih hrest
          refine ⟨by rw [hread], hsuffix'.trans hsuffix,
            hnumbering.append (hnumbering'.mono hsuffix), fun herror => ?_⟩
          obtain ⟨hend, kept', hsub', hplaces', hnames'⟩ := hkept' herror
          refine ⟨hend, kept ++ kept', hsub.append hsub', ?_, ?_⟩
          · rw [hplaces, hplaces', List.map_append, List.append_assoc]
          · rw [List.flatMap_cons, hnames, hnames', List.map_append]

end Recorder

end RhythmLogic
