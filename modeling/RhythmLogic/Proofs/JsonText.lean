/-
**A JSON value that is written is read back.**

The writer puts every member on a line of its own, with blanks in front, and the reader skips blanks
wherever they may stand.  What it skips and where it stops only depends on the start of what comes
next; so each part of a text is read as its value *before every rest at which numbers end*, and a
text is put together from its parts.  The reader spends its fuel a value at a time, and a text is at
least as long as it has values; nothing else limits how deep they are.

Main definitions:

* `Json.induct` — induction over values;
* `Json.reread` — a value with its numbers reread;
* `Json.Opens` — a value starts at a text;
* `Json.ReadsBackAt` — a value is read back from its text at a depth.

Main results:

* `Json.itemsF_prettyItems`, `Json.membersF_prettyMembers` — rows of items and of members are read
  up to what closes them;
* `Json.readsBackAt` — every value is read back, at every depth;
* `Json.parse_pretty` — **a text of a value is read as the value**, with its numbers reread.
-/

import RhythmLogic.Proofs.JsonTokens

set_option autoImplicit false

namespace RhythmLogic

namespace Json

variable {c : Char} {cs rest : List Char} {fuel depth : ℕ}

/-! ### Induction -/

/-- Induction over values.  The values inside a value are what the hypotheses speak of. -/
@[elab_as_elim, induction_eliminator]
theorem induct {motive : Json → Prop} (null : motive .null) (bool : ∀ b, motive (.bool b))
    (number : ∀ d, motive (.number d)) (string : ∀ s, motive (.string s))
    (array : ∀ items, (∀ v ∈ items, motive v) → motive (.array items))
    (object : ∀ members, (∀ m ∈ members, motive m.2) → motive (.object members)) (v : Json) :
    motive v :=
  match v with
  | .null => null
  | .bool b => bool b
  | .number d => number d
  | .string s => string s
  | .array items => array items fun v hv =>
      have := List.sizeOf_lt_of_mem hv
      induct null bool number string array object v
  | .object members => object members fun (key, v) hm =>
      have := List.sizeOf_lt_of_mem hm
      induct null bool number string array object v
termination_by v
decreasing_by
  · simp only [Json.array.sizeOf_spec]
    omega
  · simp only [Json.object.sizeOf_spec, Prod.mk.sizeOf_spec] at *
    omega

/-! ### Blanks -/

/-- Blanks before a text are skipped. -/
theorem skip_append {gap : List Char} (h : ∀ c ∈ gap, isGap c = true) (cs : List Char) :
    skip (gap ++ cs) = skip cs := List.dropWhile_append_of_pos h

theorem skip_cons (hc : isGap c = false) (cs : List Char) : skip (c :: cs) = c :: cs := by
  simp [skip, hc]

theorem lineStart_toList (depth : ℕ) :
    (lineStart depth).toList = '\n' :: List.replicate (2 * depth) ' ' := by
  simp [lineStart]

theorem isGap_of_mem_lineStart (depth : ℕ) : ∀ c ∈ (lineStart depth).toList, isGap c = true := by
  rw [lineStart_toList, List.forall_mem_cons]
  refine ⟨rfl, fun c hc => ?_⟩
  rw [(List.mem_replicate.1 hc).2]
  rfl

/-! ### Values -/

mutual

/-- **A value with its numbers reread.** -/
def reread : Json → Json
  | null => null
  | bool b => bool b
  | number d => number d.reread
  | string s => string s
  | array items => array (rereadItems items)
  | object members => object (rereadMembers members)

/-- Several values with their numbers reread. -/
def rereadItems : List Json → List Json
  | [] => []
  | v :: rest => reread v :: rereadItems rest

/-- Several members with their numbers reread. -/
def rereadMembers : List (String × Json) → List (String × Json)
  | [] => []
  | (key, v) :: rest => (key, reread v) :: rereadMembers rest

end

/-- A text starts a number: with a digit or a minus. -/
theorem exists_cons_numeralText (d : Numeral) :
    ∃ c cs, (numeralText d).toList = c :: cs ∧ (c = '-' ∨ c.isDigit = true) := by
  obtain ⟨whole, tail, htext, hwhole, -⟩ := exists_magnitudeText d.mantissa d.exponent
  obtain ⟨c, cs, rfl⟩ := List.exists_cons_of_ne_nil hwhole.ne
  rw [numeralText, String.toList_ofList, htext]
  rcases d.negative with _ | _
  · exact ⟨c, _, rfl, .inr (hwhole.digit c List.mem_cons_self)⟩
  · exact ⟨'-', _, rfl, .inl rfl⟩

/-- What starts a number starts nothing else. -/
theorem not_mem_of_starts (hc : c = '-' ∨ c.isDigit = true) :
    c ∉ [' ', '\n', '\r', '\t', ']', '\x7b', '[', '"', 'n', 't', 'f'] := by
  rcases hc with rfl | hc
  · decide
  · intro hmem
    simp only [List.mem_cons, List.not_mem_nil, or_false] at hmem
    rcases hmem with rfl | rfl | rfl | rfl | rfl | rfl | rfl | rfl | rfl | rfl | rfl <;>
      exact absurd hc (by decide)

/-- **A value starts** at a text: no blank does, and no bracket that closes. -/
def Opens (cs : List Char) : Prop := ∃ c cs', cs = c :: cs' ∧ isGap c = false ∧ c ≠ ']'

theorem opens_cons (hc : isGap c = false ∧ c ≠ ']') (cs : List Char) : Opens (c :: cs) :=
  ⟨c, cs, rfl, hc⟩

theorem Opens.append (h : Opens cs) (rest : List Char) : Opens (cs ++ rest) := by
  obtain ⟨c, cs', rfl, hc⟩ := h
  exact ⟨c, cs' ++ rest, rfl, hc⟩

theorem opens_prettyAt (depth : ℕ) (v : Json) : Opens (prettyAt depth v).toList := by
  cases v with
  | null =>
      rw [prettyAt]
      exact opens_cons (by decide) _
  | bool b =>
      cases b <;> rw [prettyAt] <;> exact opens_cons (by decide) _
  | number d =>
      obtain ⟨c, cs, htext, hc⟩ := exists_cons_numeralText d
      have hother := not_mem_of_starts hc
      simp only [List.mem_cons, not_or] at hother
      rw [prettyAt, htext]
      exact opens_cons (by simp [isGap, hother]) cs
  | string s =>
      rw [prettyAt, quoted, String.toList_ofList]
      exact opens_cons (by decide) _
  | array items =>
      cases items <;> simp only [prettyAt, String.toList_append, List.append_assoc] <;>
        exact opens_cons (by decide) _
  | object members =>
      rcases members with _ | ⟨⟨key, v⟩, members⟩ <;>
        simp only [prettyAt, String.toList_append, List.append_assoc] <;>
        exact opens_cons (by decide) _

/-- Blanks before a value are skipped. -/
theorem valueF_gap {gap : List Char} (h : ∀ c ∈ gap, isGap c = true) (fuel : ℕ) (cs : List Char) :
    valueF fuel (gap ++ cs) = valueF fuel cs := by
  cases fuel with
  | zero => rfl
  | succ fuel => rw [valueF, valueF, skip_append h]

theorem itemsF_gap {gap : List Char} (h : ∀ c ∈ gap, isGap c = true) (fuel : ℕ) (cs : List Char) :
    itemsF fuel (gap ++ cs) = itemsF fuel cs := by
  cases fuel with
  | zero => rfl
  | succ fuel => rw [itemsF, itemsF, valueF_gap h]

theorem membersF_gap {gap : List Char} (h : ∀ c ∈ gap, isGap c = true) (fuel : ℕ)
    (cs : List Char) : membersF fuel (gap ++ cs) = membersF fuel cs := by
  cases fuel with
  | zero => rfl
  | succ fuel => rw [membersF, membersF, skip_append h]

theorem valueF_numeralText (d : Numeral) (fuel : ℕ) (hrest : Ends rest) :
    valueF (fuel + 1) ((numeralText d).toList ++ rest) = some (.number d.reread, rest) := by
  have hnumber := numberAt_numeralText d hrest
  obtain ⟨c, cs, htext, hc⟩ := exists_cons_numeralText d
  have hother := not_mem_of_starts hc
  simp only [List.mem_cons, not_or] at hother
  rw [htext, List.cons_append] at hnumber ⊢
  rw [valueF, skip_cons (by simp [isGap, hother])]
  split
  case h_7 => simp [hnumber]
  all_goals
    next heq => 
    cases heq
    simp at hother

/-- **A value is read back at a depth**: with fuel for its text, and before every text at which
numbers end. -/
def ReadsBackAt (depth : ℕ) (v : Json) : Prop :=
  ∀ fuel rest, (prettyAt depth v).toList.length ≤ fuel → Ends rest →
    valueF fuel ((prettyAt depth v).toList ++ rest) = some (v.reread, rest)

theorem ends_lineStart (depth : ℕ) (cs : List Char) : Ends ((lineStart depth).toList ++ cs) := by
  rw [lineStart_toList]
  exact ends_cons (by decide) (by decide) _

/-- Blanks before what closes are skipped. -/
theorem skip_lineStart (hc : isGap c = false) (depth : ℕ) (cs : List Char) :
    skip ((lineStart depth).toList ++ c :: cs) = c :: cs := by
  rw [skip_append (isGap_of_mem_lineStart depth), skip_cons hc]

/-- **The items of an array**, up to the bracket that closes it. -/
theorem itemsF_prettyItems (closing : ℕ) {vs : List Json} (hvs : ∀ v ∈ vs, ReadsBackAt depth v)
    {v : Json} (hv : ReadsBackAt depth v) (rest : List Char)
    (hfuel : (prettyAt depth v).toList.length + (prettyItems depth vs).toList.length < fuel) :
    itemsF fuel ((prettyAt depth v).toList ++ ((prettyItems depth vs).toList ++
      ((lineStart closing).toList ++ ']' :: rest))) = some (rereadItems (v :: vs), rest) := by
  induction vs generalizing v fuel with
  | nil =>
      obtain ⟨fuel, rfl⟩ : ∃ n, fuel = n + 1 := ⟨fuel - 1, by omega⟩
      have hends := ends_lineStart closing (']' :: rest)
      rw [itemsF, prettyItems, String.toList_empty, List.nil_append, hv fuel _ (by omega) hends]
      simp [skip_lineStart (c := ']') rfl, rereadItems]
  | cons w vs ih =>
      obtain ⟨hw, hvs⟩ := List.forall_mem_cons.1 hvs
      obtain ⟨fuel, rfl⟩ : ∃ n, fuel = n + 1 := ⟨fuel - 1, by omega⟩
      simp only [prettyItems, String.toList_append, List.append_assoc, List.length_append] at hfuel ⊢
      have hends : ∀ cs, Ends (",".toList ++ cs) := ends_cons (by decide) (by decide)
      have hcomma : ",".toList.length = 1 := rfl
      have hmore := ih hvs hw (show (prettyAt depth w).toList.length +
        (prettyItems depth vs).toList.length < fuel by omega)
      rw [itemsF, hv fuel _ (by omega) (hends _)]
      simp [skip_cons (c := ',') rfl, itemsF_gap (isGap_of_mem_lineStart depth), hmore, rereadItems]

theorem skip_quoted (key : String) (cs : List Char) : skip ((quoted key).toList ++ cs) =
    '"' :: (key.toList.flatMap escaped ++ '"' :: cs) := by
  simp [quoted, skip_cons (c := '"') rfl]

theorem skip_colon (cs : List Char) : skip (": ".toList ++ cs) = ':' :: ([' '] ++ cs) :=
  skip_cons (c := ':') rfl (' ' :: cs)

section Member

variable {key : String} {v : Json} (hv : ReadsBackAt depth v)
  (hfuel : (prettyAt depth v).toList.length ≤ fuel) (hrest : Ends rest)
include hv hfuel hrest

/-- The value of a member is read. -/
theorem valueF_member :
    valueF fuel ([' '] ++ ((prettyAt depth v).toList ++ rest)) = some (v.reread, rest) := by
  rw [valueF_gap (by simp [isGap]), hv fuel rest hfuel hrest]

/-- The last member of an object. -/
theorem membersF_last {rest' : List Char} (hlast : skip rest = '\x7d' :: rest') :
    membersF (fuel + 1) ((quoted key).toList ++ (": ".toList ++
      ((prettyAt depth v).toList ++ rest))) = some ([(key, v.reread)], rest') := by
  rw [membersF, skip_quoted]
  simp only [stringTail_escaped, skip_colon, valueF_member hv hfuel hrest, hlast,
    Option.bind_eq_bind, Option.bind_some]

/-- A member with other ones behind it. -/
theorem membersF_more {rest' rest'' : List Char} {ms : List (String × Json)}
    (hmore : skip rest = ',' :: rest') (hms : membersF fuel rest' = some (ms, rest'')) :
    membersF (fuel + 1) ((quoted key).toList ++ (": ".toList ++
      ((prettyAt depth v).toList ++ rest))) = some ((key, v.reread) :: ms, rest'') := by
  rw [membersF, skip_quoted]
  simp only [stringTail_escaped, skip_colon, valueF_member hv hfuel hrest, hmore, hms,
    Option.bind_eq_bind, Option.bind_some]

end Member

/-- **The members of an object**, up to the brace that closes it. -/
theorem membersF_prettyMembers (closing : ℕ) {ms : List (String × Json)}
    (hms : ∀ m ∈ ms, ReadsBackAt depth m.2) (key : String) {v : Json} (hv : ReadsBackAt depth v)
    (rest : List Char)
    (hfuel : (prettyAt depth v).toList.length + (prettyMembers depth ms).toList.length < fuel) :
    membersF fuel ((quoted key).toList ++ (": ".toList ++ ((prettyAt depth v).toList ++
      ((prettyMembers depth ms).toList ++ ((lineStart closing).toList ++ '\x7d' :: rest))))) =
        some (rereadMembers ((key, v) :: ms), rest) := by
  induction ms generalizing key v fuel with
  | nil =>
      obtain ⟨fuel, rfl⟩ : ∃ n, fuel = n + 1 := ⟨fuel - 1, by omega⟩
      rw [prettyMembers, String.toList_empty, List.nil_append]
      exact membersF_last hv (by omega) (ends_lineStart closing _) (skip_lineStart rfl closing rest)
  | cons m ms ih =>
      obtain ⟨key', w⟩ := m
      obtain ⟨hw, hms⟩ := List.forall_mem_cons.1 hms
      obtain ⟨fuel, rfl⟩ : ∃ n, fuel = n + 1 := ⟨fuel - 1, by omega⟩
      simp only [prettyMembers, String.toList_append, List.append_assoc, List.length_append]
        at hfuel ⊢
      have hcomma : ",".toList.length = 1 := rfl
      refine membersF_more hv (by omega) (ends_cons (by decide) (by decide) _)
        (skip_cons rfl _) ?_
      refine (membersF_gap (isGap_of_mem_lineStart depth) fuel _).trans ?_
      exact ih hms key' hw (by omega)

/-- A text has a character, and so there is fuel. -/
theorem exists_fuel {depth : ℕ} {v : Json} (hfuel : (prettyAt depth v).toList.length ≤ fuel) :
    ∃ n, fuel = n + 1 := by
  obtain ⟨c, cs, htext, -⟩ := opens_prettyAt depth v
  rw [htext, List.length_cons] at hfuel
  exact ⟨fuel - 1, by omega⟩

/-- An array with items. -/
theorem valueF_array {items : List Json} (hopens : Opens cs)
    (hitems : itemsF fuel cs = some (items, rest)) (depth : ℕ) :
    valueF (fuel + 1) ('[' :: ((lineStart depth).toList ++ cs)) = some (array items, rest) := by
  obtain ⟨c, cs, rfl, hgap, hbracket⟩ := hopens
  rw [valueF, skip_cons rfl]
  simp only [skip_lineStart hgap]
  split
  · next heq => exact absurd (List.cons.inj heq).1 hbracket
  · simp [hitems]

/-- An object with members. -/
theorem valueF_object {members : List (String × Json)} {key : String}
    (hmembers : membersF fuel ((quoted key).toList ++ cs) = some (members, rest)) (depth : ℕ) :
    valueF (fuel + 1) ('\x7b' :: ((lineStart depth).toList ++ ((quoted key).toList ++ cs))) =
      some (object members, rest) := by
  have hskip : (quoted key).toList ++ cs = '"' :: (key.toList.flatMap escaped ++ '"' :: cs) := by
    simp [quoted]
  rw [hskip] at hmembers ⊢
  rw [valueF, skip_cons rfl]
  simp [skip_lineStart (c := '"') rfl, hmembers]

/-- **Every value is read back**, at every depth. -/
theorem readsBackAt (v : Json) (depth : ℕ) : ReadsBackAt depth v := by
  induction v generalizing depth with
  | null =>
      intro fuel rest hfuel hrest
      obtain ⟨fuel, rfl⟩ := exists_fuel hfuel
      rw [prettyAt]
      rfl
  | bool b =>
      intro fuel rest hfuel hrest
      obtain ⟨fuel, rfl⟩ := exists_fuel hfuel
      cases b <;> rw [prettyAt] <;> rfl
  | number d =>
      intro fuel rest hfuel hrest
      obtain ⟨fuel, rfl⟩ := exists_fuel hfuel
      rw [prettyAt, reread]
      exact valueF_numeralText d fuel hrest
  | string s =>
      intro fuel rest hfuel hrest
      obtain ⟨fuel, rfl⟩ := exists_fuel hfuel
      rw [prettyAt, valueF, skip_quoted]
      simp only [stringTail_escaped, reread, Option.bind_eq_bind, Option.bind_some]
  | array items ih =>
      intro fuel rest hfuel hrest
      obtain ⟨fuel, rfl⟩ := exists_fuel hfuel
      rcases items with _ | ⟨v, vs⟩
      · rw [prettyAt]
        rfl
      · obtain ⟨hv, hvs⟩ := List.forall_mem_cons.1 ih
        simp only [prettyAt, String.toList_append, List.append_assoc, List.length_append]
          at hfuel ⊢
        have hbrackets : "[".toList.length = 1 ∧ "]".toList.length = 1 := ⟨rfl, rfl⟩
        refine valueF_array ((opens_prettyAt (depth + 1) v).append _) ?_ (depth + 1)
        refine itemsF_prettyItems depth (fun w hw => hvs w hw (depth + 1)) (hv (depth + 1)) rest ?_
        omega
  | object members ih =>
      intro fuel rest hfuel hrest
      obtain ⟨fuel, rfl⟩ := exists_fuel hfuel
      rcases members with _ | ⟨⟨key, v⟩, ms⟩
      · rw [prettyAt]
        rfl
      · obtain ⟨hv, hms⟩ := List.forall_mem_cons.1 ih
        simp only [prettyAt, String.toList_append, List.append_assoc, List.length_append]
          at hfuel ⊢
        have hbraces : "\x7b".toList.length = 1 ∧ "\x7d".toList.length = 1 := ⟨rfl, rfl⟩
        have hv' : ReadsBackAt (depth + 1) v := hv (depth + 1)
        refine valueF_object ?_ (depth + 1)
        refine membersF_prettyMembers depth (fun m hm => hms m hm (depth + 1)) key hv' rest ?_
        omega

/-- **A text of a value is read as the value**, with its numbers reread. -/
theorem parse_pretty (v : Json) : parse v.pretty = some v.reread := by
  have hvalue := readsBackAt v 0 (v.pretty.toList.length + 1) [] (Nat.le_succ _) ends_nil
  rw [List.append_nil, ← pretty] at hvalue
  rw [parse]
  simp only [hvalue]
  rfl

end Json

end RhythmLogic
