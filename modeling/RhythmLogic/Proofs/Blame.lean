/-
**The token that is blamed.**

The offending token of a row is the first one with which it is not the start of any text.  The
reader does not look for it; it tells the token where it stopped.  That is never a later one: the
tokens before it are the start of a text.  But it may be an earlier one.  When a group of goals is
wrong inside, the reader comes back to its parenthesis and reads an expression, and tells what is
wrong with that.

So the token that is told is the last one *in reach*: the last one before which the row can be
finished so that no group ends any more.  It is the offending one exactly if the row before the
offending token can be finished in this way.

Main definitions:

* `Grammar.Viable` — the start of a text;
* `Offending`, `Reached` — **the offending token** of a row, and the tokens in reach.

Main results:

* `Reader.offending_not_read` — no text that is read starts with the tokens up to the offending one;
* `Reader.clausesF_reached` — an error is told for the last token in reach;
* `Reader.clausesF_blames` — **the token that is told**, and when it is the offending one.
-/

import Mathlib.Data.List.Induction
import RhythmLogic.Proofs.Locality

set_option autoImplicit false

namespace RhythmLogic

open Grammar (Text Finishable)

/-- A row of tokens that a text starts with. -/
def Grammar.Viable (us : List TokenKind) : Prop := ∃ vs, Text (us ++ vs)

/-- **The offending token** of a row stands after the tokens `us`, which a text may start with, but
not with it. -/
structure Offending (tokens us : List Token) (t : Token) : Prop where
  ahead : us ++ [t] <+: tokens
  viable : Grammar.Viable (us.map Token.kind)
  notViable : ¬ Grammar.Viable ((us ++ [t]).map Token.kind)

/-- **A token in reach** of a row: what stands before it can be finished to a text, and no group of
goals ends behind it. -/
structure Reached (tokens us : List Token) (t : Token) : Prop where
  ahead : us ++ [t] <+: tokens
  finishable : Finishable Text (us.map Token.kind) t.kind

namespace Grammar

/-- What can be finished is viable. -/
theorem Finishable.viable {us : List TokenKind} {k : TokenKind} (h : Finishable Text us k) :
    Viable us := by
  obtain ⟨vs, hvs, -⟩ := h
  exact ⟨vs, hvs⟩

theorem Viable.of_prefix {us vs : List TokenKind} (h : Viable vs) (hus : us <+: vs) :
    Viable us := by
  obtain ⟨ws, rfl⟩ := hus
  obtain ⟨xs, hxs⟩ := h
  exact ⟨ws ++ xs, by rwa [List.append_assoc] at hxs⟩

theorem viable_nil : Viable [] := ⟨[.eof], .nil⟩

/-- Clauses are a text. -/
theorem Clauses.text {ts : List TokenKind} {cs : List Reader.SourceClause} (h : Clauses ts cs) :
    Text (ts ++ [.eof]) := by
  induction h with
  | nil => exact .nil
  | cons hfirst _ ih => simpa using Text.cons hfirst.sentence ih

end Grammar

/-! ### The end mark -/

namespace Reader

/-- The end mark is not among the tokens that a reading passes. -/
theorem Reads.eof_notMem {α γ : Type} {r : Reader α} {view : α → γ} {ts rest : List TokenKind}
    {v : γ} {N : List TokenKind → α → Prop} {stop : List TokenKind → TokenKind → Prop}
    (h : Reads r view ts rest v) (hr : ∀ c, Passes ⟨Derives N, stop⟩ c r) : .eof ∉ ts := by
  obtain ⟨c, hc⟩ := exists_kinds (ts ++ rest)
  obtain ⟨a, c', hread, hc', -⟩ := h c hc
  obtain ⟨us, hus, heof, -⟩ := (hr c).yields hread
  rw [hc, hc', List.append_cancel_right_eq] at hus
  rwa [hus]

end Reader

namespace Grammar

theorem Expr.eof_notMem {ts : List TokenKind} {t : Term} (h : Expr ts t) : .eof ∉ ts := by
  have hperiod : Closes .period := by simp [Closes]
  have hreads : Reader.Reads (Reader.expression (8 * ts.length + 4)) Term.unnumbered ts
      [.symbol .period] t.unnumbered := h.reads (Nat.le_refl _) hperiod.endsTest.1
  exact hreads.eof_notMem (Reader.expression_passes _)

theorem Goals.eof_notMem {ts : List TokenKind} {g : GoalTree} (h : Goals ts g) : .eof ∉ ts := by
  have hperiod : Closes .period := by simp [Closes]
  have hends : EndsGoals (.symbol .period) := ⟨⟨hperiod.endsTest, by simp⟩, by simp⟩
  have hreads : Reader.Reads (Reader.goals (8 * ts.length + 7)) GoalTree.unnumbered ts
      [.symbol .period] g.unnumbered := h.reads (Nat.le_refl _) hends
  exact hreads.eof_notMem (Reader.goals_passes _)

theorem Sentence.eof_notMem {ts : List TokenKind} : Sentence ts → .eof ∉ ts
  | .fact ht => by simpa using ht.eof_notMem
  | .rule ht hg => by simp [ht.eof_notMem, hg.eof_notMem]

/-- **The end mark stands at the end of a text**, and nowhere else. -/
theorem Text.exists_init {ks : List TokenKind} (h : Text ks) :
    ∃ ts, ks = ts ++ [.eof] ∧ .eof ∉ ts := by
  induction h with
  | nil => exact ⟨[], rfl, List.not_mem_nil⟩
  | @cons ts us hts _ ih =>
      obtain ⟨vs, rfl, hvs⟩ := ih
      exact ⟨ts ++ vs, by simp, by simp [hts.eof_notMem, hvs]⟩

end Grammar

/-! ### The offending token -/

namespace Reader

variable {init : List Token} {p : Position} {e : ParseError}

/-- What is refused for a token is no text, and no text starts with it. -/
theorem not_viable_of_refused {n : ℕ}
    (hread : (clausesF n (.before (init ++ [⟨.eof, p⟩]))).2.1 = some e) (he : e.Syntactic) :
    ¬ Grammar.Viable ((init ++ [Token.mk .eof p]).map Token.kind) := by
  rintro ⟨vs, hvs⟩
  obtain ⟨ts, hts, heof⟩ := hvs.exists_init
  rw [List.map_append, List.append_assoc, List.map_singleton, List.singleton_append] at hts
  obtain ⟨-, -, rfl⟩ := (List.append_cons_inj_of_notMem heof List.not_mem_nil).1 hts.symm
  rcases hresult : clausesF n (.before (init ++ [⟨.eof, p⟩])) with ⟨clauses, error, c'⟩
  rw [hresult] at hread
  cases hread
  exact clausesF_text hvs (by simp [Cursor.kinds, Cursor.before]) hresult he

/-- **No text that is read starts with the tokens up to the offending one.** -/
theorem offending_not_read {tokens us : List Token} {t : Token} (h : Offending tokens us t)
    (hinit : ∀ t ∈ init, t.kind ≠ .eof) {n : ℕ}
    (hread : (clausesF n (.before (init ++ [⟨.eof, p⟩]))).2.1 = none) :
    ¬ (us ++ [t]).map Token.kind <+: (init ++ [Token.mk .eof p]).map Token.kind := by
  rcases hresult : clausesF n (.before (init ++ [⟨.eof, p⟩])) with ⟨clauses, error, c'⟩
  rw [hresult] at hread
  cases hread
  have hks : (Cursor.before (init ++ [⟨.eof, p⟩])).kinds = init.map Token.kind ++ [.eof] := by
    simp [Cursor.kinds, Cursor.before]
  rintro ⟨vs, hvs⟩
  refine h.notViable ⟨vs, ?_⟩
  rw [hvs, List.map_append]
  exact (clausesF_derives_init hresult hks (by simpa using hinit)).text

/-- A row that no text starts with has an offending token. -/
theorem exists_offending {tokens : List Token} (h : ¬ Grammar.Viable (tokens.map Token.kind)) :
    ∃ us t, Offending tokens us t := by
  induction tokens using List.reverseRecOn with
  | nil => exact absurd Grammar.viable_nil h
  | append_singleton us t ih =>
      by_cases hus : Grammar.Viable (us.map Token.kind)
      · exact ⟨us, t, List.prefix_refl _, hus, h⟩
      · obtain ⟨vs, t', ho⟩ := ih hus
        exact ⟨vs, t', ho.ahead.trans (List.prefix_append _ _), ho.viable, ho.notViable⟩

/-- What is viable ends before the offending token. -/
theorem length_le_of_offending {tokens us us₀ : List Token} {t₀ : Token}
    (h : Offending tokens us₀ t₀) (hus : us <+: tokens)
    (hviable : Grammar.Viable (us.map Token.kind)) : us.length ≤ us₀.length := by
  by_contra hlt
  have hlonger : (us₀ ++ [t₀]).length ≤ us.length := by
    rw [List.length_append, List.length_singleton]
    omega
  have hstarts := List.prefix_of_prefix_length_le h.ahead hus hlonger
  exact h.notViable (hviable.of_prefix (hstarts.map _))

/-- **An error is told for the last token that is in reach.** -/
theorem clausesF_reached {tokens : List Token} (heof : .eof ∈ tokens.map Token.kind) {n : ℕ}
    {clauses : List SourceClause} {c' : Cursor}
    (hread : clausesF n (.before tokens) = (clauses, some e, c')) (he : e.Syntactic) :
    ∃ us t, Reached tokens us t ∧ e.position = t.position ∧
      ∀ us' t', Reached tokens us' t' → us'.length ≤ us.length := by
  obtain ⟨us, hus, hpassed, hfinish, hposition⟩ := clausesF_stops hread he
  change tokens = us ++ c'.tokens at hus
  rcases hleft : c'.tokens with _ | ⟨t, vs⟩
  · -- the end mark is not passed
    rw [hleft, List.append_nil] at hus
    exact absurd (hus ▸ heof) hpassed
  have hcurrent : c'.current = t := by simp [Cursor.current, hleft]
  rw [hcurrent] at hfinish hposition
  refine ⟨us, t, ⟨⟨vs, by simp [hus, hleft]⟩, hfinish⟩, hposition, ?_⟩
  rintro us' t' ⟨⟨vs', hvs'⟩, hfinish'⟩
  have hkinds : (Cursor.before tokens).kinds =
      us'.map Token.kind ++ t'.kind :: vs'.map Token.kind := by
    simp [Cursor.kinds, Cursor.before, ← hvs']
  have hpast := clausesF_past hfinish' hkinds hread he
  have hlength := congrArg List.length (hus.symm.trans hvs'.symm)
  simp only [List.length_append, List.length_cons, List.length_map] at hpast hlength
  omega

/-- **The token that is told is the last one in reach.**  It is never behind the offending one, and
it is the offending one if and only if that one is in reach. -/
theorem clausesF_blames
    (hread : (clausesF (init.length + 2) (.before (init ++ [⟨.eof, p⟩]))).2.1 = some e)
    (he : ∀ t, e.cause ≠ .head t) :
    let tokens := init ++ [Token.mk .eof p]
    (∃ us₀ t₀, Offending tokens us₀ t₀) ∧ ∃ us t, Reached tokens us t ∧ e.position = t.position ∧
      (∀ us' t', Reached tokens us' t' → us'.length ≤ us.length) ∧
      ∀ us₀ t₀, Offending tokens us₀ t₀ →
        us.length ≤ us₀.length ∧ (us = us₀ ↔ Reached tokens us₀ t₀) := by
  intro tokens
  have hbudget : (Cursor.before tokens).tokens.length < init.length + 2 := by
    simp [tokens, Cursor.before]
  have hsyntactic : e.Syntactic := ⟨(clausesF_settled hbudget hbudget).2 e hread, he⟩
  have heof : .eof ∈ tokens.map Token.kind := by simp [tokens]
  refine ⟨exists_offending (not_viable_of_refused hread hsyntactic), ?_⟩
  rcases hresult : clausesF (init.length + 2) (.before tokens) with ⟨clauses, error, c'⟩
  rw [hresult] at hread
  cases hread
  obtain ⟨us, t, hreached, hposition, hlast⟩ := clausesF_reached heof hresult hsyntactic
  refine ⟨us, t, hreached, hposition, hlast, fun us₀ t₀ ho => ?_⟩
  have hus : us <+: tokens := (List.prefix_append us [t]).trans hreached.ahead
  have hle := length_le_of_offending ho hus hreached.finishable.viable
  -- two rows of one length that the tokens start with
  have hsame (hlength : us.length = us₀.length) : us = us₀ ∧ t = t₀ := by
    have hlength' : (us ++ [t]).length = (us₀ ++ [t₀]).length := by simp [hlength]
    have hstarts := List.prefix_of_prefix_length_le hreached.ahead ho.ahead (Nat.le_of_eq hlength')
    simpa using List.append_inj (hstarts.eq_of_length hlength') hlength
  refine ⟨hle, fun h => ?_, fun h => ?_⟩
  · obtain ⟨rfl, rfl⟩ := hsame (congrArg List.length h)
    exact hreached
  · exact (hsame (Nat.le_antisymm hle (hlast us₀ t₀ h))).1

/-- The tokens of `p :- (a, b` before the end mark. -/
def openGroup : List Token :=
  [⟨.name "p", ⟨1, 1⟩⟩, ⟨.symbol .neck, ⟨1, 3⟩⟩, ⟨.symbol .openParen, ⟨1, 6⟩⟩, ⟨.name "a", ⟨1, 7⟩⟩,
    ⟨.symbol .comma, ⟨1, 8⟩⟩, ⟨.name "b", ⟨1, 10⟩⟩]

/-- The error of an open group is told for its comma, which is the last token in reach. -/
theorem clausesF_blames_openGroup :
    let tokens := openGroup ++ [Token.mk .eof ⟨1, 11⟩]
    let e : ParseError := ⟨.expected .closeParen (.symbol .comma), ⟨1, 8⟩⟩
    ((clausesF (openGroup.length + 2) (.before tokens)).2.1 = some e ∧ ∀ t, e.cause ≠ .head t) ∧
      (∃ us₀ t₀, Offending tokens us₀ t₀) ∧ ∃ us t, Reached tokens us t ∧ e.position = t.position ∧
      (∀ us' t', Reached tokens us' t' → us'.length ≤ us.length) ∧
      ∀ us₀ t₀, Offending tokens us₀ t₀ →
        us.length ≤ us₀.length ∧ (us = us₀ ↔ Reached tokens us₀ t₀) :=
  ⟨⟨rfl, nofun⟩, clausesF_blames rfl nofun⟩

/-- **In an open group a token before the offending one is told.**  `p :- (a, b` is refused at its
comma.  With a parenthesis and a period it is read, so that the end mark is the offending token. -/
theorem clausesF_blames_comma :
    let tokens := openGroup ++ [Token.mk .eof ⟨1, 11⟩]
    let closed := openGroup ++ [Token.mk (.symbol .closeParen) ⟨1, 11⟩,
      ⟨.symbol .period, ⟨1, 12⟩⟩, ⟨.eof, ⟨1, 13⟩⟩]
    (clausesF (openGroup.length + 2) (.before tokens)).2.1 =
        some ⟨.expected .closeParen (.symbol .comma), ⟨1, 8⟩⟩ ∧
      (clausesF (openGroup.length + 4) (.before closed)).2.1 = none ∧
      Offending tokens openGroup ⟨.eof, ⟨1, 11⟩⟩ := by
  intro tokens closed
  have hread : (clausesF (openGroup.length + 2) (.before tokens)).2.1 =
      some ⟨.expected .closeParen (.symbol .comma), ⟨1, 8⟩⟩ := rfl
  have hatom (x : String) (hx : isVariableName x = false) :
      Grammar.Expr [.name x] (.atom x) := .product (.factor (.primary (.name (.atom hx))))
  have hbody : Grammar.Unit [.symbol .openParen, .name "a", .symbol .comma, .name "b",
      .symbol .closeParen] (.both (.call (.atom "a")) (.call (.atom "b"))) :=
    .group (.conjunction (.both (.unit (.test (.call (hatom "a" rfl))))
      (.test (.call (hatom "b" rfl)))))
  have hclosed : Text (closed.map Token.kind) :=
    .cons (.rule (hatom "p" rfl) (.conjunction (.unit hbody))) .nil
  refine ⟨hread, rfl, List.prefix_refl _, ⟨_, hclosed⟩, ?_⟩
  exact not_viable_of_refused hread ⟨nofun, nofun⟩

end Reader

end RhythmLogic
