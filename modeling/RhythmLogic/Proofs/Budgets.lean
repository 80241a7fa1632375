/-
**Reading budgets are never used up, and places do not matter.**

The rules of the reader call each other without a bound, so each of them has a budget for how deep it
may go.  A budget that is eight times the number of tokens, and a little more, is enough: between two
rules of one chain that start at the same token there are only a few others, and all loops pass a
token before they go on.  With enough budget a rule does the same as with any other one that is
enough, on every cursor, whether it succeeds or fails; so no group of goals is given up because it
was nested too deeply, and the reader always comes to an end.

The reader decides nothing by the places of tokens.  So it does the same with tokens in other
places, and the place of an error moves with the tokens.

Both are said of two readings, of which the second one has another budget and starts before the same
tokens in other places.

Main definitions:

* `Reader.Settled` — **two readings do the same**, and neither runs out of budget;
* `settlement`, `settled` — the judgement that they do, and the meaning of the rules for it.

Main results:

* `Reader.Settled.bind` — a reading after a reading;
* `Reader.clause_settled` — **the budget of a clause is enough**;
* `Reader.clausesF_settled` — the clauses of a text are read to its end or to an error in it;
* `Reader.clausesF_moved`, `Reader.clausesF_unplaced` — **the clauses of tokens in other places**, and
  of tokens without their places.
-/

import RhythmLogic.Proofs.Derived
import RhythmLogic.Proofs.Places

set_option autoImplicit false

namespace RhythmLogic

variable {α β : Type} {f : Position → Position} {c c₁ : Cursor}

namespace Reader

/-- **Two readings do the same**, the first one from a cursor on and the second one before the same
tokens in other places.  They come to results as they should be, or to the same error, which is not
that the budget ran out; and they add no token. -/
inductive Settled (f : Position → Position) (p : Post Empty α) (c : Cursor) (r s : Reader α) :
    Prop where
  | ok {a b : α} {c' : Cursor} : r c = (.ok a, c') → s (c.moved f) = (.ok b, c'.moved f) →
      c'.Anchored f → c'.tokens.length ≤ c.tokens.length →
      p.result [] a b → p.stop [] c'.current.kind → Settled f p c r s
  | error {e : ParseError} {c' : Cursor} : r c = (.error e, c') →
      s (c.moved f) = (.error (e.moved f), c'.moved f) →
      c'.Anchored f → c'.tokens.length ≤ c.tokens.length → e.cause ≠ .tooDeep → Settled f p c r s

namespace Settled

variable {p : Post Empty α} {q : Post Empty β} {r s : Reader α}

theorem mono {q : Post Empty α} (h : Settled f p c r s)
    (hresult : ∀ t a b, p.result t a b → q.result t a b) (hstop : ∀ t k, p.stop t k → q.stop t k) :
    Settled f q c r s := by
  cases h with
  | ok hr hs hanchored hle hab hk =>
      exact .ok hr hs hanchored hle (hresult _ _ _ hab) (hstop _ _ hk)
  | error hr hs hanchored hle he => exact .error hr hs hanchored hle he

/-- Two readings that go on like two others do, with no more tokens ahead. -/
theorem goesOn {r' s' : Reader α} (h : Settled f p c₁ r' s')
    (hle : c₁.tokens.length ≤ c.tokens.length) (hr : r c = r' c₁)
    (hs : s (c.moved f) = s' (c₁.moved f)) : Settled f p c r s := by
  cases h with
  | ok hr' hs' hanchored hle' hab hk =>
      exact .ok (hr.trans hr') (hs.trans hs') hanchored (Nat.le_trans hle' hle) hab hk
  | error hr' hs' hanchored hle' he =>
      exact .error (hr.trans hr') (hs.trans hs') hanchored (Nat.le_trans hle' hle) he

/-- **A reading after a reading** does the same as another one. -/
theorem bind {g g' : α → Reader β} (h : Settled f p c r s) (hstop : ∀ t k, p.stop t k → q.stop t k)
    (hg : ∀ a b c', c'.tokens.length ≤ c.tokens.length → c'.Anchored f → p.result [] a b →
      q.stop [] c'.current.kind → Settled f q c' (g a) (g' b)) :
    Settled f q c (r >>= g) (s >>= g') := by
  cases h with
  | ok hr hs hanchored hle hab hk =>
      have hrest := hg _ _ _ hle hanchored hab (hstop _ _ hk)
      exact hrest.goesOn hle (bind_of_ok hr g) (bind_of_ok hs g')
  | error hr hs hanchored hle he =>
      exact .error (bind_of_error hr g) (bind_of_error hs g') hanchored hle he

theorem pure {a b : α} (hc : c.Anchored f) (h : p.result [] a b)
    (hstop : p.stop [] c.current.kind) : Settled f p c (pure a) (pure b) :=
  .ok rfl rfl hc (Nat.le_refl _) h hstop

theorem fail {cause : ParseError.Cause} (hc : c.Anchored f) (h : cause ≠ .tooDeep) :
    Settled f p c (fail cause) (Reader.fail cause) := by
  refine .error rfl ?_ hc (Nat.le_refl _) h
  rw [Reader.fail, peek_bind_apply, Cursor.current_moved hc]
  rfl

/-- A name is read as the same term, which depends on counts only. -/
theorem nameTerm {p : Post Empty Term} {x : String} (hc : c.Anchored f)
    (h : ∀ t, p.result [] t t ∧ ∀ k, p.stop [] k) :
    Settled f p c (nameTerm x) (Reader.nameTerm x) := by
  obtain ⟨-, hstop⟩ := h (.atom x)
  rw [Reader.nameTerm]
  split_ifs <;> exact .ok rfl rfl hc (Nat.le_refl _) (h _).1 (hstop _)

/-- A name is passed, and with it a parenthesis that follows it. -/
theorem named {p : Post Empty Term} {x : String} {r s : Reader Term} (hc : c.Anchored f)
    (h : ∀ t, p.result [] t t ∧ ∀ k, p.stop [] k)
    (hcompound : c.advance.current.kind = .symbol .openParen →
      Settled f p c.advance.advance r s) :
    Settled f p c (named x r) (Reader.named x s) := by
  have hle := Cursor.length_advance_le c
  have hle' := Cursor.length_advance_le c.advance
  have hname : Reader.named x r c = _ := named_apply x r c
  have hname' : Reader.named x s (c.moved f) = _ := named_apply x s (c.moved f)
  rw [Cursor.advance_moved, Cursor.current_kind_moved, Cursor.advance_moved] at hname'
  by_cases hparen : c.advance.current.kind = .symbol .openParen
  · rw [if_pos hparen] at hname hname'
    exact (hcompound hparen).goesOn (Nat.le_trans hle' hle) hname hname'
  · rw [if_neg hparen] at hname hname'
    exact (nameTerm hc.advance h).goesOn hle hname hname'

/-- A group is given up for the same tokens, and the test in its place is read from the same
parenthesis. -/
theorem grouped {p : Post Empty GoalTree} {group group' test test' : Reader GoalTree}
    (hgroup : Settled f ⟨p.result, fun _ _ => True⟩ c.advance group group')
    (hstop : ∀ k, p.stop [] k)
    (htest : ∀ c₁ : Cursor, c₁.tokens = c.tokens → Settled f p c₁ test test') :
    Settled f p c (grouped group test) (Reader.grouped group' test') := by
  have hadvance : group' (c.moved f).advance = group' (c.advance.moved f) := by
    rw [Cursor.advance_moved]
  cases hgroup with
  | @error e c₁ hr hs _ _ _ =>
      have hagain := htest { c₁ with tokens := c.tokens } rfl
      have hread' := grouped_of_error test' (hadvance.trans hs)
      exact hagain.goesOn (Nat.le_refl _) (grouped_of_error test hr) hread'
  | @ok inner inner' c₁ hr hs hanchored hle hinner _ =>
      have hread := grouped_of_ok test hr
      have hread' := grouped_of_ok test' (hadvance.trans hs)
      rw [Cursor.current_kind_moved] at hread'
      cases hends : continuesExpression c₁.current.kind with
      | true =>
          rw [hends, if_pos rfl] at hread hread'
          have hagain := htest { c₁ with tokens := c.tokens } rfl
          exact hagain.goesOn (Nat.le_refl _) hread hread'
      | false =>
          rw [hends, if_neg Bool.false_ne_true] at hread hread'
          exact .ok hread hread' hanchored (Nat.le_trans hle (Cursor.length_advance_le c)) hinner
            (hstop _)

/-- A term that is no head is refused where it starts. -/
theorem headed {p : Post Empty Term} {r s : Reader Term} (hc : c.Anchored f)
    (h : Settled f p c r s) (hsame : ∀ a b, p.result [] a b → b = a) :
    Settled f ⟨fun t a b => p.result t a b ∧ a.functor?.isSome = true, p.stop⟩ c (headed r)
      (Reader.headed s) := by
  cases h with
  | error hr hs hanchored hle he =>
      exact .error (headed_of_error hr) (headed_of_error hs) hanchored hle he
  | @ok a b c₁ hr hs hanchored hle hab hk =>
      obtain rfl := hsame a b hab
      have hread := headed_of_ok hr
      have hread' := headed_of_ok hs
      cases hhead : b.functor? with
      | none =>
          rw [hhead, Option.isNone_none, if_pos rfl] at hread hread'
          rw [Cursor.current_moved hc] at hread'
          exact .error hread hread' hanchored hle nofun
      | some functor =>
          rw [hhead, Option.isNone_some, if_neg Bool.false_ne_true] at hread hread'
          exact .ok hread hread' hanchored hle ⟨hab, by simp [hhead]⟩ hk

end Settled

end Reader

/-! ### The judgement -/

/-- **The judgement that two readings do the same.**  Nothing is left behind, and both budgets have
to be enough. -/
def settlement (f : Position → Position) : Judgement Reader Reader where
  Trace := Empty
  left _ := []
  Holds p c r s := c.Anchored f → Reader.Settled f p c r s
  Comes c _ c' := c'.tokens.length ≤ c.tokens.length
  Named _ _ a b := b = a
  bounded := true
  comes_length h := h
  mono h hresult hstop hc := (h hc).mono hresult hstop
  pure h hstop hc := .pure hc h hstop
  fail h _ hc := .fail hc (h rfl)
  bind {_ _ p q _ _ _ _ _} h hstop hg hc := (h hc).bind hstop fun a b c' hle hc' hab hk =>
    hg [] a b c' hle hab hk hc'
  kind {_ _ c _ g'} h hc := by
    refine (h hc).goesOn (Nat.le_refl _) rfl ?_
    exact congrArg (fun k => g' k (c.moved f)) Cursor.current_kind_moved
  advance {_ _ c _ g'} _ h hc := by
    refine (h hc.advance).goesOn (Cursor.length_advance_le c) rfl ?_
    exact congrArg (g' ()) Cursor.advance_moved
  build {_ _ c _ _ name _ _} h hc := (h (c.count name) rfl hc).goesOn (Nat.le_refl _) rfl rfl
  named _ h hcompound hc :=
    .named hc (fun t => h [] t t rfl) fun hparen => hcompound hparen hc.advance.advance

/-- Trees that are the same. -/
def Values.same : Values Empty where
  term _ a b := b = a
  terms _ as bs := bs = as
  goal _ a b := b = a
  clause _ a b := b = a
  number _ := rfl
  expr hl hr := by rw [hl, hr]
  compound h := by rw [h]
  list h := by rw [h]
  partialList h htail := by rw [h, htail]
  none := rfl
  more h ha := by rw [h, ha]
  isEmpty_eq h := by rw [h]
  call h := by rw [h]
  negation h := by rw [h]
  both hl hr := by rw [hl, hr]
  either hl hr := by rw [hl, hr]
  fact h := by rw [h]
  rule h hg := by rw [h, hg]

/-- **The rules do the same** with any budgets that are enough, wherever the tokens are. -/
def settled (f : Position → Position) : Meaning (settlement f) :=
  .ofValues (J := settlement f) .same (fun _ => rfl) fun _ _ _ _ => id

theorem settled_stops : (settled f).Stops := Meaning.ofValues_stops _ _ _

theorem settled_tries : (settled f).Tries where
  grouped {_ _ c} _ _ hgroup htest hc := by
    refine .grouped ((hgroup hc.advance).mono ?_ ?_) (fun _ => trivial) fun c₁ hc₁ => ?_
    · exact fun _ _ _ => id
    · exact fun _ _ => id
    · refine htest c₁ hc₁ ?_
      rwa [Cursor.Anchored, Cursor.kinds, hc₁]
  headed h hc := .headed hc (h hc) fun _ _ => id

namespace Reader

/-! ### Texts -/

/-- **A clause is the same** with any budgets that are enough, wherever the tokens are. -/
theorem clause_moved {depth depth' : ℕ} (hc : c.Anchored f) (h : budget c.tokens ≤ depth)
    (h' : budget c.tokens ≤ depth') :
    Settled f ⟨fun _ a b => b = a, fun _ _ => True⟩ c (clause depth) (clause depth') := by
  unfold budget at h h'
  have henough : (settlement f).Enough 7 depth depth' c := by
    constructor <;> omega
  rw [clause_eq, clause_eq]
  exact (settled f).shown_clause settled_stops settled_tries henough hc

/-- **The budget of a clause is enough**: with any greater one the reader does the same, and it does
not run out of it. -/
theorem clause_settled {depth : ℕ} (h : budget c.tokens ≤ depth) :
    clause depth c = clause (budget c.tokens) c ∧
      ∀ e, (clause depth c).1 = .error e → e.cause ≠ .tooDeep := by
  have hmoved := clause_moved (f := id) (.inl rfl) h (Nat.le_refl _)
  cases hmoved with
  | ok hr hs _ _ hab _ =>
      rw [Cursor.moved_id, Cursor.moved_id] at hs
      rw [hr, hs, hab]
      exact ⟨rfl, nofun⟩
  | error hr hs _ _ he =>
      rw [Cursor.moved_id, Cursor.moved_id] at hs
      rw [hr, hs]
      refine ⟨rfl, ?_⟩
      rintro _ ⟨⟩
      exact he

/-- A clause that is read has a token. -/
theorem length_of_clause {depth : ℕ} {first : SourceClause} {c' : Cursor}
    (h : clause depth c = (.ok first, c')) : c'.tokens.length < c.tokens.length := by
  obtain ⟨ts, hts, -, hclause⟩ := clause_yields h
  have hpos : 0 < ts.length := by
    cases hclause <;> simp only [List.length_append, List.length_cons] <;> omega
  have hlength := congrArg List.length hts
  simp only [Cursor.kinds, List.length_map, List.length_append] at hlength
  omega

/-- **The clauses of a text are read to its end or to an error in it**, and no budget that allows
for a clause a token changes what they are. -/
theorem clausesF_settled {n n' : ℕ} (hn : c.tokens.length < n) (hn' : c.tokens.length < n') :
    clausesF n c = clausesF n' c ∧ ∀ e, (clausesF n c).2.1 = some e → e.cause ≠ .tooDeep := by
  induction n generalizing n' c with
  | zero => omega
  | succ n ih =>
      rcases n' with _ | n'
      · omega
      simp only [clausesF]
      split
      · exact ⟨rfl, by simp⟩
      rcases hclause : clause (budget c.tokens) c with ⟨e | first, c₁⟩
      · refine ⟨rfl, fun e' he' => ?_⟩
        cases he'
        exact (clause_settled (Nat.le_refl _)).2 e (congrArg Prod.fst hclause)
      · have hlength := length_of_clause hclause
        have hbudget : c₁.tokens.length < n := by omega
        have hbudget' : c₁.tokens.length < n' := by omega
        obtain ⟨hsame, hdeep⟩ := ih hbudget hbudget'
        exact ⟨by simp only [hsame], hdeep⟩

/-- **The clauses of tokens in other places** are the clauses of the tokens. -/
theorem clausesF_moved (fuel : ℕ) (c : Cursor) (hc : c.Anchored f) : clausesF fuel (c.moved f) =
    ((clausesF fuel c).1, (clausesF fuel c).2.1.map (ParseError.moved f),
      (clausesF fuel c).2.2.moved f) := by
  induction fuel generalizing c with
  | zero => simp [clausesF, ParseError.moved, Cursor.current_moved hc, Token.moved]
  | succ fuel ih =>
      have hbudget : budget (c.moved f).tokens = budget c.tokens := by
        simp [budget, Cursor.moved]
      simp only [clausesF, Cursor.current_kind_moved, hbudget]
      split
      · rfl
      cases clause_moved hc (Nat.le_refl _) (Nat.le_refl _) with
      | ok hr hs hanchored _ hab _ =>
          rw [hr, hs, hab]
          simp only [ih _ hanchored]
      | error hr hs _ _ _ =>
          rw [hr, hs]
          rfl

/-- The clauses of tokens without their places are the clauses of the tokens. -/
theorem clausesF_unplaced (fuel : ℕ) (c : Cursor) : clausesF fuel c.unplaced =
    ((clausesF fuel c).1, (clausesF fuel c).2.1.map ParseError.unplaced,
      (clausesF fuel c).2.2.unplaced) :=
  clausesF_moved (f := fun _ => .start) fuel c (.inl rfl)

end Reader

end RhythmLogic
