/-
**What comes behind does not matter.**

Two rows of tokens start alike.  As long as the reader has not passed what they share, it has done
the same on both, and if it fails before the end of what they share, then it fails on both.  So an
error before the end of a row that can be finished to a text is none, since on the text there is
none.

There is one thing that the reader does with tokens that it does not pass in the end: it tries a
group of goals, and comes back.  Whether the group is kept is decided by its closing parenthesis and
the token after it.  If both lie in what is shared, then the decision is the same for both rows.  If
they do not, it may be another; so one of the rows has to be one that keeps no group whose
parenthesis lies behind.

Main definitions:

* `Reader.Beside` — two cursors before the same tokens, with others behind them;
* `Reader.Alike` — **two readings do the same until they are past what is shared**;
* `likeness`, `alike` — the judgement that they do, and the meaning of the rules for it.

Main results:

* `Reader.Alike.bind` — **a reading after a reading**;
* `alike_tries` — a group is kept by both readings or given up by both;
* `Reader.clausesF_past` — **a text is not refused before the end of a row that can be finished**.
-/

import RhythmLogic.Proofs.Accepted

set_option autoImplicit false

namespace RhythmLogic

namespace Reader

open Grammar (Expr Goals GoesOn Text Turns Finishable)

variable {α β : Type} {xs ys : List TokenKind} {c d : Cursor} {f f' : ℕ}

/-- **Two cursors before the same tokens**, at least one, where `xs` and `ys` come behind. -/
def Beside (xs ys : List TokenKind) (c d : Cursor) : Prop :=
  ∃ ts, ts ≠ [] ∧ c.kinds = ts ++ xs ∧ d.kinds = ts ++ ys ∧ Turns (xs.headD .eof) ys ts

/-- The cursor is past what is shared. -/
def Past (xs : List TokenKind) (c : Cursor) : Prop := c.tokens.length ≤ xs.length

/-- Two results in a relation, or two errors, of which the second one is about a token if the first
one is. -/
def SameResult (R : α → α → Prop) : Except ParseError α → Except ParseError α → Prop
  | .ok a, .ok b => R a b
  | .error e, .error e' => e.Syntactic → e'.Syntactic
  | _, _ => False

theorem SameResult.mono {R S : α → α → Prop} (hRS : ∀ a b, R a b → S a b) :
    ∀ {result result' : Except ParseError α}, SameResult R result result' →
      SameResult S result result'
  | .ok a, .ok b, h => hRS a b h
  | .error _, .error _, h => h

/-- **Two readings do the same until the first one is past what is shared.**  A result of the first
one is in a relation to some other one in any case. -/
structure Alike (xs ys : List TokenKind) (p : Post Empty α) (c : Cursor) (r s : Reader α) :
    Prop where
  length : (r c).2.tokens.length ≤ c.tokens.length
  related : ∀ a, (r c).1 = .ok a → p.stop [] (r c).2.current.kind ∧ ∃ b, p.result [] a b
  beside : ∀ d, Beside xs ys c d →
    Past xs (r c).2 ∨ Beside xs ys (r c).2 (s d).2 ∧ SameResult (p.result []) (r c).1 (s d).1

/-! ### Cursors beside each other -/

namespace Beside

theorem current_kind (h : Beside xs ys c d) : d.current.kind = c.current.kind := by
  obtain ⟨ts, hne, hc, hd, -⟩ := h
  obtain ⟨k, ts, rfl⟩ := List.exists_cons_of_ne_nil hne
  rw [Cursor.current_kind_of_cons hc, Cursor.current_kind_of_cons hd]

/-- Cursors that did not move are beside each other still. -/
theorem of_tokens {c' d' : Cursor} (h : Beside xs ys c d) (hc : c'.tokens = c.tokens)
    (hd : d'.tokens = d.tokens) : Beside xs ys c' d' := by
  obtain ⟨ts, hne, hkinds, hkinds', hlast⟩ := h
  refine ⟨ts, hne, ?_, ?_, hlast⟩
  · rw [← hkinds, Cursor.kinds, hc, Cursor.kinds]
  · rw [← hkinds', Cursor.kinds, hd, Cursor.kinds]

/-- A token that both pass. -/
theorem advance (h : Beside xs ys c d) :
    Past xs c.advance ∨ Beside xs ys c.advance d.advance := by
  by_cases heof : c.current.kind = .eof
  · right
    have heof' := h.current_kind.trans heof
    rwa [Cursor.advance, if_pos heof, Cursor.advance, if_pos heof']
  obtain ⟨ts, hne, hc, hd, hlast⟩ := h
  obtain ⟨k, ts, rfl⟩ := List.exists_cons_of_ne_nil hne
  rw [Cursor.current_kind_of_cons hc] at heof
  have hc' := Cursor.kinds_advance hc heof
  rcases ts with _ | ⟨j, ts⟩
  · left
    have hlength := congrArg List.length hc'
    simpa [Past, Cursor.kinds] using Nat.le_of_eq hlength
  · exact .inr ⟨j :: ts, by simp, hc', Cursor.kinds_advance hd heof,
      hlast.of_append [k] (by simp)⟩

end Beside

/-- There is a cursor before any tokens. -/
theorem exists_kinds (ks : List TokenKind) : ∃ c : Cursor, c.kinds = ks :=
  ⟨.before (ks.map fun k => ⟨k, .start⟩), (List.map_map ..).trans (List.map_id _)⟩

namespace Alike

variable {p : Post Empty α} {q : Post Empty β} {c₁ : Cursor}

theorem mono {q : Post Empty α} {r s : Reader α} (h : Alike xs ys p c r s)
    (hresult : ∀ t a b, p.result t a b → q.result t a b) (hstop : ∀ t k, p.stop t k → q.stop t k) :
    Alike xs ys q c r s := by
  refine ⟨h.length, fun a ha => ?_, fun d hd => ?_⟩
  · exact (h.related a ha).imp (hstop _ _) (Exists.imp fun b => hresult _ a b)
  · exact (h.beside d hd).imp_right (And.imp_right (SameResult.mono (hresult [])))

/-- Two readings that go on like two others do. -/
theorem goesOn {r s r' s' : Reader α} (h : Alike xs ys p c₁ r' s')
    (hlength : c₁.tokens.length ≤ c.tokens.length) (hr : r c = r' c₁)
    (hs : ∀ d, Beside xs ys c d → Past xs c₁ ∨ ∃ d₁, Beside xs ys c₁ d₁ ∧ s d = s' d₁) :
    Alike xs ys p c r s := by
  refine ⟨hr ▸ Nat.le_trans h.length hlength, hr ▸ h.related, fun d hd => ?_⟩
  rcases hs d hd with hpast | ⟨d₁, hd₁, hsd⟩
  · exact .inl (hr ▸ Nat.le_trans h.length hpast)
  · rw [hr, hsd]
    exact h.beside d₁ hd₁

/-- Two readings that go on like two others do, from the same tokens. -/
theorem stays {r s r' s' : Reader α} (h : Alike xs ys p c₁ r' s') (hc₁ : c₁.tokens = c.tokens)
    (hr : r c = r' c₁)
    (hs : ∀ d, Beside xs ys c d → ∃ d₁ : Cursor, d₁.tokens = d.tokens ∧ s d = s' d₁) :
    Alike xs ys p c r s := by
  refine h.goesOn (Nat.le_of_eq (congrArg List.length hc₁)) hr fun d hd => .inr ?_
  obtain ⟨d₁, hd₁, hsd⟩ := hs d hd
  exact ⟨d₁, hd.of_tokens hc₁ hd₁, hsd⟩

/-! ### Readings after readings -/

theorem pure {a b : α} (h : p.result [] a b) (hstop : p.stop [] c.current.kind) :
    Alike xs ys p c (pure a) (pure b) := by
  refine ⟨Nat.le_refl _, ?_, fun d hd => .inr ⟨hd, h⟩⟩
  rintro _ ⟨⟩
  exact ⟨hstop, b, h⟩

theorem fail (cause : ParseError.Cause) : Alike xs ys p c (fail cause) (Reader.fail cause) :=
  ⟨Nat.le_refl _, nofun, fun _ hd => .inr ⟨hd, id⟩⟩

/-- **A reading after a reading** does the same as another one. -/
theorem bind {r s : Reader α} {f g : α → Reader β} (h : Alike xs ys p c r s)
    (hstop : ∀ t k, p.stop t k → q.stop t k)
    (hf : ∀ a b c', c'.tokens.length ≤ c.tokens.length → p.result [] a b →
      q.stop [] c'.current.kind → Alike xs ys q c' (f a) (g b)) :
    Alike xs ys q c (r >>= f) (s >>= g) := by
  obtain ⟨hlength, hrelated, hbeside⟩ := h
  rcases hresult : r c with ⟨e | a, c₁⟩ <;> rw [hresult] at hlength hrelated hbeside
  · have hfails : (r >>= f) c = (.error e, c₁) := bind_of_error hresult f
    refine ⟨by rwa [hfails], by rw [hfails]; exact nofun, fun d hd => ?_⟩
    rw [hfails]
    refine (hbeside d hd).imp_right ?_
    rintro ⟨hd₁, hsame⟩
    rcases hresult' : s d with ⟨e' | b, d₁⟩ <;> rw [hresult'] at hd₁ hsame
    · rw [bind_of_error hresult' g]
      exact ⟨hd₁, hsame⟩
    · exact hsame.elim
  · have hgoes : (r >>= f) c = f a c₁ := bind_of_ok hresult f
    obtain ⟨hk, b₀, hb₀⟩ := hrelated a rfl
    have hrest := hf a b₀ c₁ hlength hb₀ (hstop _ _ hk)
    refine ⟨?_, ?_, fun d hd => ?_⟩ <;> rw [hgoes]
    · exact Nat.le_trans hrest.length hlength
    · exact hrest.related
    rcases hbeside d hd with hpast | ⟨hd₁, hsame⟩
    · exact .inl (Nat.le_trans hrest.length hpast)
    rcases hresult' : s d with ⟨e' | b, d₁⟩ <;> rw [hresult'] at hd₁ hsame
    · exact hsame.elim
    · rw [bind_of_ok hresult' g]
      exact (hf a b c₁ hlength hsame (hstop _ _ hk)).beside d₁ hd₁

/-! ### Single tokens -/

theorem peek {f g : Token → Reader α} (h : ∀ t, Alike xs ys p c (f c.current) (g t)) :
    Alike xs ys p c (peek >>= f) (Reader.peek >>= g) :=
  ⟨(h c.current).length, (h c.current).related, fun d hd => (h d.current).beside d hd⟩

theorem advance {f g : Unit → Reader α} (h : Alike xs ys p c.advance (f ()) (g ())) :
    Alike xs ys p c (advance >>= f) (Reader.advance >>= g) :=
  h.goesOn (Cursor.length_advance_le c) rfl fun d hd =>
    hd.advance.imp_right fun hd' => ⟨d.advance, hd', rfl⟩

/-- A name is read as the same term, up to the numbers of anonymous variables. -/
theorem nameTerm {p : Post Empty Term} {x : String}
    (h : ∀ a b, a.unnumbered = b.unnumbered → p.result [] a b ∧ ∀ k, p.stop [] k) :
    Alike xs ys p c (nameTerm x) (Reader.nameTerm x) := by
  obtain ⟨a, c', hread, hc', ha⟩ := nameTerm_apply x c
  refine ⟨?_, fun b _ => ⟨(h b b rfl).2 _, b, (h b b rfl).1⟩, fun d hd => .inr ?_⟩
  · rw [hread]
    exact Nat.le_of_eq (congrArg List.length hc')
  · obtain ⟨b, d', hread', hd', hb⟩ := nameTerm_apply x d
    rw [hread, hread']
    exact ⟨hd.of_tokens hc' hd', (h a b (ha.unnumbered_eq hb)).1⟩

/-- A name is passed, and with it a parenthesis that follows it. -/
theorem named {p : Post Empty Term} {x : String} {r s : Reader Term}
    (h : ∀ a b, a.unnumbered = b.unnumbered → p.result [] a b ∧ ∀ k, p.stop [] k)
    (hcompound : c.advance.current.kind = .symbol .openParen →
      Alike xs ys p c.advance.advance r s) :
    Alike xs ys p c (named x r) (Reader.named x s) := by
  have hle := Cursor.length_advance_le c
  have hle' := Cursor.length_advance_le c.advance
  by_cases hparen : c.advance.current.kind = .symbol .openParen
  · refine (hcompound hparen).goesOn (Nat.le_trans hle' hle) ?_ fun d hd => ?_
    · rw [named_apply, if_pos hparen]
    · rcases hd.advance with hpast | hd'
      · exact .inl (Nat.le_trans hle' hpast)
      · refine hd'.advance.imp_right fun hd'' => ⟨_, hd'', ?_⟩
        rw [named_apply, if_pos (hd'.current_kind.trans hparen)]
  · refine (nameTerm h).goesOn hle (named_apply x r c |>.trans (if_neg hparen)) fun d hd => ?_
    refine hd.advance.imp_right fun hd' => ⟨_, hd', ?_⟩
    rw [named_apply, if_neg (by rwa [hd'.current_kind])]

/-- A term that is no head is refused where it starts, and no token is to blame for that. -/
theorem headed {p : Post Empty Term} {r s : Reader Term} (h : Alike xs ys p c r s)
    (hsame : ∀ a b, p.result [] a b → a.unnumbered = b.unnumbered) :
    Alike xs ys ⟨fun t a b => p.result t a b ∧ a.functor?.isSome = true, p.stop⟩ c (headed r)
      (Reader.headed s) := by
  refine peek fun t => h.bind (fun _ _ => id) fun a b c' _ hab hk => ?_
  have hfunctor : b.functor? = a.functor? := by
    rw [← b.functor?_unnumbered, ← hsame a b hab, a.functor?_unnumbered]
  rw [hfunctor]
  cases hhead : a.functor? with
  | none => exact ⟨Nat.le_refl _, nofun, fun _ hd => .inr ⟨hd, fun he => absurd rfl (he.2 a)⟩⟩
  | some functor => exact .pure ⟨hab, by rw [hhead, Option.isSome_some]⟩ hk

end Alike

/-! ### Groups -/

/-- The closing parenthesis of a group lies behind what is shared, or in it. -/
theorem split_shared {ts us row rest : List TokenKind} {k : TokenKind}
    (h : ts ++ us = row ++ k :: rest) :
    (∃ vs, us = vs ++ k :: rest) ∨ ∃ vs, ts = row ++ k :: vs ∧ rest = vs ++ us := by
  obtain ⟨vs, -, hus⟩ | ⟨vs, rfl, hvs⟩ := List.append_eq_append_iff.1 h
  · exact .inl ⟨vs, hus⟩
  · rcases vs with _ | ⟨j, vs⟩
    · exact .inl ⟨[], hvs.symm⟩
    · rw [List.cons_append, List.cons.injEq] at hvs
      exact .inr ⟨vs, by rw [hvs.1], hvs.2⟩

/-- A group of derived goals is read, whatever follows it. -/
theorem group_reads_row {row rest : List TokenKind} {inner : GoalTree} (h : Goals row inner)
    (hf : 8 * row.length + 7 ≤ f) (hc : c.kinds = row ++ .symbol .closeParen :: rest) :
    ∃ made c₁, group f c = (.ok made, c₁) ∧ c₁.kinds = rest ∧
      made.unnumbered = inner.unnumbered := by
  have hclose : Grammar.Closes .closeParen := by simp [Grammar.Closes]
  exact Grammar.group_reads (h.reads hf ⟨⟨hclose.endsTest, by simp⟩, by simp⟩) c (by simpa using hc)

section Paren

variable {ts : List TokenKind} {inner : GoalTree} {c₁ d₁ : Cursor}

/-- A group that is kept by the first reading is kept by the second one, unless the first reading is
past what is shared after it. -/
theorem grouped_beside_kept (test : Reader GoalTree) (hf : 8 * (ts.length + 1) + 5 ≤ f + 1)
    (hc : c.advance.kinds = ts ++ xs) (hd : d.advance.kinds = ts ++ ys)
    (hlast : Turns (xs.headD .eof) ys ts) (hgroup : group f' c.advance = (.ok inner, c₁))
    (hends : continuesExpression c₁.current.kind = false) :
    Past xs c₁ ∨ ∃ made d₁, grouped (group f) test d = (.ok made, d₁) ∧ Beside xs ys c₁ d₁ ∧
      inner.unnumbered = made.unnumbered := by
  obtain ⟨row, hrow, hinner⟩ := group_yields hgroup
  rw [hc] at hrow
  -- the closing parenthesis of the group lies behind, or the token after it does, or neither
  obtain ⟨us, hxs⟩ | ⟨us, rfl, hus⟩ := split_shared hrow
  · left
    have hlength := congrArg List.length hxs
    simp only [Cursor.kinds, List.length_append, List.length_cons, List.length_map] at hlength
    unfold Past
    omega
  rcases us with _ | ⟨k, us⟩
  · left
    have hlength := congrArg List.length hus
    simpa [Past, Cursor.kinds] using Nat.le_of_eq hlength
  right
  rw [Cursor.current_kind_of_cons hus] at hends
  rw [List.append_assoc] at hd
  simp only [List.length_append, List.length_cons] at hf
  obtain ⟨made, d₁, hmade, hd₁, hsame⟩ := group_reads_row (f := f) hinner (by omega) hd
  refine ⟨made, d₁, ?_, ⟨k :: us, by simp, hus, hd₁, ?_⟩, hsame.symm⟩
  · rw [grouped_of_ok test hmade, Cursor.current_kind_of_cons hd₁, hends,
      if_neg Bool.false_ne_true]
  · rw [← List.singleton_append, ← List.append_assoc] at hlast
    exact hlast.of_append _ (by simp)

/-- A group that is given up by the first reading is given up by the second one, on a row that keeps
no group whose end comes behind. -/
theorem grouped_beside_given (hys : GoesOn ys) (hf : 8 * (ts.length + 1) + 5 ≤ f + 1)
    (hc : c.advance.kinds = ts ++ xs) (hd : d.advance.kinds = ts ++ ys)
    (hlast : Turns (xs.headD .eof) ys ts)
    (hgiven : ∀ inner c₁, group f c.advance = (.ok inner, c₁) →
      continuesExpression c₁.current.kind = true)
    (hgroup : group f' d.advance = (.ok inner, d₁)) :
    continuesExpression d₁.current.kind = true := by
  obtain ⟨row, hrow, hinner⟩ := group_yields hgroup
  rw [hd] at hrow
  rw [Cursor.current_kind]
  obtain ⟨us, rfl⟩ | ⟨us, rfl, hus⟩ := split_shared hrow
  · -- a parenthesis that lies behind goes on
    exact hys.of_append.1 rfl
  simp only [List.length_append, List.length_cons] at hf
  rw [List.append_assoc] at hc
  obtain ⟨made, c₁, hmade, hc₁, -⟩ := group_reads_row (f := f) hinner (by omega) hc
  have hcontinues := hgiven made c₁ hmade
  rw [Cursor.current_kind, hc₁] at hcontinues
  rw [hus]
  rcases us with _ | ⟨k, us⟩
  · -- the group is all that is shared, and only the tokens behind differ
    exact hlast (by simp) hcontinues
  · exact hcontinues

end Paren

/-- **At a parenthesis** both readings keep the group or both give it up. -/
theorem Alike.grouped {p : Post Empty GoalTree} {test test' : Reader GoalTree} (hys : GoesOn ys)
    (hf : 8 * c.tokens.length + 5 ≤ f + 1) (hf' : 8 * c.tokens.length + 5 ≤ f' + 1)
    (hparen : c.current.kind = .symbol .openParen)
    (hgroup : Alike xs ys ⟨p.result, fun _ _ => True⟩ c.advance (group f) (group f'))
    (hsame : ∀ a b, a.unnumbered = b.unnumbered → p.result [] a b) (hstop : ∀ k, p.stop [] k)
    (htest : ∀ c₁ : Cursor, c₁.tokens = c.tokens → Alike xs ys p c₁ test test') :
    Alike xs ys p c (grouped (group f) test) (Reader.grouped (group f') test') := by
  have hagain := htest { (group f c.advance).2 with tokens := c.tokens } rfl
  have hcases := grouped_cases (group f) test c
  refine ⟨?_, fun a _ => ⟨hstop _, a, hsame a a rfl⟩, fun d hbeside => ?_⟩
  · obtain ⟨inner, c₁, hinner, -, hread⟩ | ⟨-, hread⟩ := hcases <;> rw [hread]
    · have hle := hgroup.length
      rw [hinner] at hle
      exact Nat.le_trans hle (Cursor.length_advance_le c)
    · exact hagain.length
  obtain ⟨ts, hne, hc, hd, hlast⟩ := hbeside
  obtain ⟨k, ts, rfl⟩ := List.exists_cons_of_ne_nil hne
  obtain rfl : k = .symbol .openParen := (Cursor.current_kind_of_cons hc).symm.trans hparen
  have hlength := congrArg List.length hc
  simp only [Cursor.kinds, List.length_map, List.length_append, List.length_cons] at hlength
  have hc' : c.advance.kinds = ts ++ xs := Cursor.kinds_advance hc (by simp)
  have hd' : d.advance.kinds = ts ++ ys := Cursor.kinds_advance hd (by simp)
  have hlast' : Turns (xs.headD .eof) ys ts := by
    rcases ts with _ | ⟨j, ts⟩
    · simp [Turns]
    · exact hlast.of_append [.symbol .openParen] (List.cons_ne_nil j ts)
  obtain ⟨inner, c₁, hinner, hends, hread⟩ | ⟨hgiven, hread⟩ := hcases
  · rw [hread]
    refine (grouped_beside_kept (f := f') test' (by omega) hc' hd' hlast' hinner hends).imp_right ?_
    rintro ⟨made, d₁, hread', hbeside, hmade⟩
    rw [hread']
    exact ⟨hbeside, hsame _ _ hmade⟩
  obtain ⟨inner, d₁, hinner, hends, -⟩ | ⟨-, hread'⟩ := grouped_cases (group f') test' d
  · have hcontinues := grouped_beside_given hys (by omega) hc' hd' hlast' hgiven hinner
    rw [hends] at hcontinues
    cases hcontinues
  · rw [hread, hread']
    exact hagain.beside _ ⟨_, hne, hc, hd, hlast⟩

end Reader

/-! ### The judgement -/

section Judgement

variable {xs ys : List TokenKind} {c d : Cursor}

/-- **The judgement that two readings do the same** until the first one is past what is shared. -/
def likeness (xs ys : List TokenKind) : Judgement Reader Reader where
  Trace := Empty
  left _ := []
  Holds := Reader.Alike xs ys
  Comes c _ c' := c'.tokens.length ≤ c.tokens.length
  Named _ _ a b := a.unnumbered = b.unnumbered
  bounded := true
  comes_length h := h
  mono h := h.mono
  pure := .pure
  fail _ _ := .fail _
  bind h hstop hf := h.bind hstop (hf [])
  kind h := h.stays rfl rfl fun d hd => ⟨d, rfl, by rw [← hd.current_kind]; rfl⟩
  advance _ h := .advance h
  build {_ _ c _ _ name _ _} h :=
    (h (c.count name) rfl).stays rfl rfl fun d _ => ⟨d.count name, rfl, rfl⟩
  named _ h hcompound := .named (h []) hcompound

/-- Trees that are the same up to the numbers of anonymous variables. -/
def Values.unnumbered : Values Empty where
  term _ a b := a.unnumbered = b.unnumbered
  terms _ as bs := as.map Term.unnumbered = bs.map Term.unnumbered
  goal _ a b := a.unnumbered = b.unnumbered
  clause _ a b := a.unnumbered = b.unnumbered
  number _ := rfl
  expr hl hr := by rw [Term.unnumbered_expr, hl, hr, Term.unnumbered_expr]
  compound h := by rw [Term.unnumbered_compound, h, Term.unnumbered_compound]
  list h := by rw [Term.unnumbered_list, h, Term.unnumbered_list]
  partialList h htail := by
    rw [Term.unnumbered_partialList, h, htail, Term.unnumbered_partialList]
  none := rfl
  more h ha := by
    rw [List.map_append, h, List.map_singleton, ha, List.map_append, List.map_singleton]
  isEmpty_eq h := by
    rw [← List.isEmpty_map (f := Term.unnumbered), ← h, List.isEmpty_map]
  call h := congrArg GoalTree.call h
  negation h := congrArg GoalTree.negation h
  both hl hr := by rw [GoalTree.unnumbered, hl, hr, GoalTree.unnumbered]
  either hl hr := by rw [GoalTree.unnumbered, hl, hr, GoalTree.unnumbered]
  fact h := by simp [Reader.SourceClause.unnumbered, h]
  rule h hg := by simp [Reader.SourceClause.unnumbered, h, hg]

/-- **The rules do the same** until the first reading is past what is shared. -/
def alike (xs ys : List TokenKind) : Meaning (likeness xs ys) :=
  .ofValues (J := likeness xs ys) .unnumbered (fun _ => rfl) fun _ _ _ _ => id

theorem alike_stops : (alike xs ys).Stops := Meaning.ofValues_stops _ _ _

theorem alike_tries (hys : Grammar.GoesOn ys) : (alike xs ys).Tries where
  grouped hparen henough hgroup htest := by
    rw [← Reader.group_eq, ← Reader.group_eq] at *
    exact .grouped hys henough.1 henough.2 hparen hgroup (fun _ _ => id) (fun _ => trivial) htest
  headed h := h.headed fun _ _ => id

end Judgement

namespace Reader

open Grammar (Expr Goals GoesOn Text Turns Finishable)

variable {xs ys : List TokenKind} {c d : Cursor} {f : ℕ}

/-! ### Clauses -/

/-- **Clauses are read alike** with any budgets that are enough. -/
theorem clause_alike (hys : GoesOn ys) {f f' : ℕ} (hf : budget c.tokens ≤ f)
    (hf' : budget c.tokens ≤ f') : Alike xs ys ⟨fun _ a b => a.unnumbered = b.unnumbered,
      fun _ _ => True⟩ c (clause f) (clause f') := by
  unfold budget at hf hf'
  have henough : (likeness xs ys).Enough 7 f f' c := by
    constructor <;> omega
  rw [clause_eq, clause_eq]
  exact (alike xs ys).shown_clause alike_stops (alike_tries hys) henough

/-- Clauses are read alike with budgets of their own. -/
theorem clause_beside (hys : GoesOn ys) (h : Beside xs ys c d) :
    Past xs (clause (budget c.tokens) c).2 ∨
      Beside xs ys (clause (budget c.tokens) c).2 (clause (budget d.tokens) d).2 ∧
        SameResult (fun a b => a.unnumbered = b.unnumbered) (clause (budget c.tokens) c).1
          (clause (budget d.tokens) d).1 := by
  have hc := Nat.le_max_left (budget c.tokens) (budget d.tokens)
  have hd := Nat.le_max_right (budget c.tokens) (budget d.tokens)
  have hclause := (clause_alike hys (Nat.le_refl _) hc).beside d h
  rwa [(clause_settled hd).1] at hclause

/-- **A text is refused past what is shared**, or the other one is refused as well. -/
theorem clausesF_beside (hys : GoesOn ys) {n : ℕ} {clauses : List SourceClause} {e : ParseError}
    {c' : Cursor} (hbeside : Beside xs ys c d) (h : clausesF n c = (clauses, some e, c'))
    (he : e.Syntactic) :
    Past xs c' ∨ ∃ clauses' e' d', clausesF n d = (clauses', some e', d') ∧ e'.Syntactic := by
  induction n generalizing c d clauses with
  | zero =>
      cases h
      exact absurd rfl he.1
  | succ n ih =>
      have hclause := clause_beside hys hbeside
      rw [clausesF] at h
      split at h
      · cases h
      next hne =>
      rcases hfirst : clause (budget c.tokens) c with ⟨e₁ | first, c₁⟩
      · rw [hfirst] at h hclause
        cases h
        refine hclause.imp_right ?_
        rintro ⟨-, hsame⟩
        rcases hfirst' : clause (budget d.tokens) d with ⟨e₂ | first', d₁⟩
        · rw [hfirst'] at hsame
          refine ⟨[], e₂, d₁, ?_, hsame he⟩
          rw [clausesF, if_neg (by rwa [hbeside.current_kind]), hfirst']
        · rw [hfirst'] at hsame
          exact hsame.elim
      · rw [hfirst] at h hclause
        dsimp only at h
        rcases hrest : clausesF n c₁ with ⟨rest, error, c₂⟩
        rw [hrest] at h
        cases h
        rcases hclause with hpast | ⟨hbeside₁, hsame⟩
        · left
          obtain ⟨us, hus, -⟩ := clausesF_stops hrest he
          have hlength := congrArg List.length hus
          rw [List.length_append] at hlength
          exact Nat.le_trans (hlength ▸ Nat.le_add_left _ _) hpast
        rcases hfirst' : clause (budget d.tokens) d with ⟨e₂ | first', d₁⟩
        · rw [hfirst'] at hsame
          exact hsame.elim
        rw [hfirst'] at hbeside₁
        refine (ih hbeside₁ hrest).imp_right ?_
        rintro ⟨rest', e', d', hrest', he'⟩
        refine ⟨first' :: rest', e', d', ?_, he'⟩
        rw [clausesF, if_neg (by rwa [hbeside.current_kind]), hfirst']
        dsimp only
        rw [hrest']

/-! ### Texts -/

/-- An expression that is no head is told as such. -/
theorem clause_head {ts rest : List TokenKind} {t : Term} (h : Expr ts t)
    (ht : t.functor?.isSome = false) (hf : 8 * ts.length + 4 ≤ f)
    (hc : c.kinds = ts ++ rest) (hends : Grammar.EndsExpr (rest.headD .eof)) :
    ∃ e c', clause f c = (.error e, c') ∧ ¬ e.Syntactic := by
  obtain ⟨head, c₁, hread, -, hhead⟩ := h.reads hf hends c hc
  have hnone : head.functor?.isNone = true := by
    rw [← head.functor?_unnumbered, hhead, t.functor?_unnumbered]
    simpa using ht
  refine ⟨⟨.head head, c.current.position⟩, c₁, ?_, fun he => he.2 head rfl⟩
  rw [clause, peek_bind_apply, bind_apply, hread]
  simp only [ExceptT.bindCont, hnone, if_true]
  rfl

/-- **A sentence is read**, or its head is told to be none. -/
theorem clause_sentence {ts rest : List TokenKind} (h : Grammar.Sentence ts)
    (hf : 8 * ts.length + 7 ≤ f) (hc : c.kinds = ts ++ rest) :
    (∃ first c', clause f c = (.ok first, c') ∧ c'.kinds = rest) ∨
      ∃ e c', clause f c = (.error e, c') ∧ ¬ e.Syntactic := by
  have hneck : Grammar.Closes .neck := by simp [Grammar.Closes]
  have hperiod : Grammar.Closes .period := by simp [Grammar.Closes]
  cases h with
  | @fact ts t ht =>
      cases hfunctor : t.functor?.isSome with
      | true =>
          obtain ⟨first, c₁, hread, hc₁, -⟩ := (Grammar.Clause.fact ht hfunctor).reads hf c hc
          exact .inl ⟨first, c₁, hread, hc₁⟩
      | false =>
          rw [List.append_assoc] at hc
          rw [List.length_append] at hf
          exact .inr (clause_head ht hfunctor (by omega) hc hperiod.endsTest.1)
  | @rule ts us t g ht hg =>
      cases hfunctor : t.functor?.isSome with
      | true =>
          obtain ⟨first, c₁, hread, hc₁, -⟩ := (Grammar.Clause.rule ht hfunctor hg).reads hf c hc
          exact .inl ⟨first, c₁, hread, hc₁⟩
      | false =>
          rw [List.append_assoc] at hc
          rw [List.length_append] at hf
          exact .inr (clause_head ht hfunctor (by omega) hc hneck.endsTest.1)

/-- **A text is not refused for a token in it.** -/
theorem clausesF_text {ts : List TokenKind} (h : Text ts) {n : ℕ} {clauses : List SourceClause}
    {e : ParseError} {c' : Cursor} (hc : c.kinds = ts)
    (hread : clausesF n c = (clauses, some e, c')) : ¬ e.Syntactic := by
  induction n generalizing c ts clauses with
  | zero =>
      cases hread
      exact fun he => he.1 rfl
  | succ n ih =>
      rw [clausesF] at hread
      split at hread
      · cases hread
      next hne =>
      cases h with
      | nil => exact absurd (Cursor.current_kind_of_cons hc) hne
      | @cons ts us hsentence hus =>
          have hlength := congrArg List.length hc
          simp only [Cursor.kinds, List.length_map, List.length_append] at hlength
          have hbudget : 8 * ts.length + 7 ≤ budget c.tokens := by
            unfold budget
            omega
          obtain ⟨first, c₁, hfirst, hc₁⟩ | ⟨e₁, c₁, hfirst, he₁⟩ :=
            clause_sentence hsentence hbudget hc
          · rw [hfirst] at hread
            dsimp only at hread
            rcases hrest : clausesF n c₁ with ⟨rest, error, c₂⟩
            rw [hrest] at hread
            cases hread
            exact ih hus hc₁ hrest
          · rw [hfirst] at hread
            cases hread
            exact he₁

/-- **A text is not refused before the end of a row that can be finished.** -/
theorem clausesF_past {us rest : List TokenKind} {k : TokenKind}
    (h : Finishable Text us k) (hc : c.kinds = us ++ k :: rest) {n : ℕ}
    {clauses : List SourceClause} {e : ParseError} {c' : Cursor}
    (hread : clausesF n c = (clauses, some e, c')) (he : e.Syntactic) :
    c'.tokens.length ≤ rest.length + 1 := by
  obtain ⟨vs, hvs, hgoes, hlast⟩ := h
  rcases List.eq_nil_or_concat us with rfl | hus
  · obtain ⟨passed, hpassed, -⟩ := clausesF_stops hread he
    have hlength := congrArg List.length hc
    simp only [Cursor.kinds, hpassed, List.length_map, List.length_append, List.length_cons,
      List.length_nil] at hlength
    omega
  -- the same tokens, finished to a text
  obtain ⟨d, hd⟩ := exists_kinds (us ++ vs)
  have hbeside : Beside (k :: rest) vs c d := ⟨us, by rintro rfl; simp at hus, hc, hd, hlast⟩
  obtain hpast | ⟨_, _, _, hrefused, he'⟩ := clausesF_beside hgoes hbeside hread he
  · exact hpast
  · exact absurd he' (clausesF_text hvs hd hrefused)

end Reader

end RhythmLogic
