/-
**Programs as JSON, and back again.**

A program is dumped as a text, and what reads the text knows nothing of programs but the shape of the
values: a tag for each kind of term or goal, and rows for what is inside.  The shapes overlap, since
the end of a list, the tail of one and the operator of an expression stand at the same place of a
row, and are only told apart by what stands there.  Nothing is mistaken for something else, and so a
program is found in its text again, however deep its terms and negations are.

The one thing to be assumed is that the doubles in the program are read back.  A double has no
numeral of its own: its text is, and it is a matter of the arithmetic of doubles whether what is read
comes as the double that was written.

Main definitions:

* `Json.comes` — a value as it comes: written, read, and its numbers made doubles;
* `Json.RealReadsBack` — the text of a double comes as the double;
* `Program.read?` — the program that a text is read as.

Main results:

* `Term.ofJson?_comes`, `Goal.ofJson?_comes`, `Clause.ofJson?_comes` — terms, goals and clauses are
  found again;
* `Program.read?_pretty` — **a program is read from its text**, and programs that differ have texts
  that differ.
-/

import RhythmLogic.Json.Rounding
import RhythmLogic.Program.Json
import RhythmLogic.Proofs.JsonText
import RhythmLogic.Proofs.RoundTrip

set_option autoImplicit false

namespace RhythmLogic

/-! ### Values as they come -/

namespace Json

@[simp] theorem rereadItems_eq_map (items : List Json) : rereadItems items = items.map reread := by
  induction items with
  | nil => rfl
  | cons v items ih => simp [rereadItems, ih]

@[simp] theorem rereadMembers_eq_map (members : List (String × Json)) :
    rereadMembers members = members.map fun m => (m.1, m.2.reread) := by
  induction members with
  | nil => rfl
  | cons m members ih => simp [rereadMembers, ih]

@[simp] theorem settledItems_eq_map (items : List Json) :
    settledItems items = items.map settled := by
  induction items with
  | nil => rfl
  | cons v items ih => simp [settledItems, ih]

@[simp] theorem settledMembers_eq_map (members : List (String × Json)) :
    settledMembers members = members.map fun m => (m.1, m.2.settled) := by
  induction members with
  | nil => rfl
  | cons m members ih => simp [settledMembers, ih]

/-- **A value as it comes**: what its text is read as, with the numbers as doubles. -/
def comes (v : Json) : Json := v.reread.settled

@[simp] theorem comes_null : null.comes = null := rfl

@[simp] theorem comes_string (s : String) : (string s).comes = string s := rfl

@[simp] theorem comes_array (items : List Json) :
    (array items).comes = array (items.map comes) := by
  simp [comes, reread, settled, Function.comp_def]

@[simp] theorem comes_object (members : List (String × Json)) :
    (object members).comes = object (members.map fun m => (m.1, m.2.comes)) := by
  simp [comes, reread, settled, Function.comp_def]

@[simp] theorem comes_tagged (tag : String) (v : Json) :
    (tagged tag v).comes = tagged tag v.comes := by
  simp [tagged]

/-- **The text of a double is read back**: whatever value it is read as, comes as the double. -/
def RealReadsBack (x : Float) : Prop :=
  ∀ v, parse (real x).pretty = some v → v.settled.real? = some x

/-- A double that is read back comes as a number. -/
theorem RealReadsBack.exists_number {x : Float} (h : RealReadsBack x) :
    ∃ d : Numeral, (real x).comes = number d ∧ d.toFloat = x := by
  have hreal : (real x).comes.real? = some x := h _ (parse_pretty (real x))
  cases hv : (real x).comes with
  | number d =>
      rw [hv] at hreal
      exact ⟨d, rfl, Option.some.inj hreal⟩
  | _ =>
      rw [hv] at hreal
      cases hreal

end Json

open Json (RealReadsBack tagged)

/-! ### Terms -/

namespace Term

@[simp] theorem allToJson_eq_map (ts : List Term) : allToJson ts = ts.map toJson := by
  induction ts with
  | nil => rfl
  | cons t ts ih => simp [allToJson, ih]

theorem allOfJson?_map {f : Term → Json} {ts : List Term} (h : ∀ t ∈ ts, ofJson? (f t) = some t) :
    allOfJson? (ts.map f) = some ts := by
  induction ts with
  | nil => rfl
  | cons t ts ih =>
      obtain ⟨ht, hts⟩ := List.forall_mem_cons.1 h
      simp [allOfJson?, ht, ih hts]

/-- A term comes as an object with a tag. -/
theorem exists_tagged (t : Term) : ∃ tag v, t.toJson.comes = tagged tag v := by
  cases t <;> simp only [toJson, Json.comes_tagged] <;> exact ⟨_, _, rfl⟩

end Term

/-- An operator is found by its name. -/
theorem Op.ofName?_name (op : Op) : ofName? op.name = some op := by cases op <;> rfl

namespace Term

/-- **A term is found again.** -/
theorem ofJson?_comes {t : Term} (ht : t.Numbers RealReadsBack) :
    ofJson? t.toJson.comes = some t := by
  induction t with
  | number x =>
      obtain ⟨d, hd, hx⟩ := (everywhere_number.1 ht x rfl).exists_number
      rw [toJson, Json.comes_tagged, hd]
      simp [tagged, ofJson?, hx]
  | atom name => simp [toJson, tagged, ofJson?]
  | var name => simp [toJson, tagged, ofJson?]
  | compound name args ih =>
      have hargs := allOfJson?_map (f := fun a => a.toJson.comes) fun a ha =>
        ih a ha ((everywhere_compound.1 ht).2 a ha)
      simp [toJson, tagged, ofJson?, Function.comp_def, hargs]
  | list items ih =>
      have hitems := allOfJson?_map (f := fun a => a.toJson.comes) fun a ha =>
        ih a ha ((everywhere_list.1 ht).2 a ha)
      simp [toJson, tagged, ofJson?, Function.comp_def, hitems]
  | partialList items tail ih ih' =>
      obtain ⟨-, hnumbers, htail⟩ := everywhere_partialList.1 ht
      have hitems := allOfJson?_map (f := fun a => a.toJson.comes) fun a ha =>
        ih a ha (hnumbers a ha)
      have htail := ih' htail
      obtain ⟨tag, v, hv⟩ := exists_tagged tail
      rw [hv, tagged] at htail
      simp [toJson, tagged, ofJson?, Function.comp_def, hitems, hv, htail]
  | expr op l r ihl ihr =>
      obtain ⟨-, hl, hr⟩ := everywhere_expr.1 ht
      have hl := ihl hl
      have hr := ihr hr
      simp [toJson, tagged, ofJson?, hl, hr, Op.ofJson?, Op.ofName?_name]

end Term

/-! ### Goals -/

namespace Goal

@[simp] theorem bodyToJson_eq_map (goals : List Goal) : bodyToJson goals = goals.map toJson := by
  induction goals with
  | nil => rfl
  | cons g goals ih => simp [bodyToJson, ih]

@[simp] theorem alternativesToJson_eq_map (alternatives : List (List Goal)) :
    alternativesToJson alternatives = alternatives.map fun b => .array (b.map toJson) := by
  induction alternatives with
  | nil => rfl
  | cons b bs ih => simp [alternativesToJson, ih]

theorem bodyOfJson?_map {f : Goal → Json} {goals : List Goal}
    (h : ∀ g ∈ goals, ofJson? (f g) = some g) : bodyOfJson? (goals.map f) = some goals := by
  induction goals with
  | nil => rfl
  | cons g goals ih =>
      obtain ⟨hg, hgoals⟩ := List.forall_mem_cons.1 h
      simp [bodyOfJson?, hg, ih hgoals]

theorem alternativesOfJson?_map {f : Goal → Json} {alternatives : List (List Goal)}
    (h : ∀ b ∈ alternatives, ∀ g ∈ b, ofJson? (f g) = some g) :
    alternativesOfJson? (alternatives.map fun b => .array (b.map f)) = some alternatives := by
  induction alternatives with
  | nil => rfl
  | cons b bs ih =>
      obtain ⟨hb, hbs⟩ := List.forall_mem_cons.1 h
      simp [alternativesOfJson?, bodyOfJson?_map hb, ih hbs]

/-- **A goal is found again.** -/
theorem ofJson?_comes {g : Goal}
    (hg : g.Everywhere fun u => ∀ x, u = .number x → RealReadsBack x) :
    ofJson? g.toJson.comes = some g := by
  induction g with
  | call t =>
      have ht := Term.ofJson?_comes (everywhere_call.1 hg)
      obtain ⟨tag, v, hv⟩ := t.exists_tagged
      rw [hv, tagged] at ht
      simp [toJson, tagged, hv, ofJson?, ht]
  | negation alternatives ih =>
      have halternatives := alternativesOfJson?_map (f := fun g => g.toJson.comes) fun b hb g hgb =>
        ih b hb g hgb (everywhere_negation.1 hg b hb g hgb)
      simp [toJson, tagged, ofJson?, Function.comp_def, halternatives]

end Goal

/-! ### Programs -/

/-- **A clause is found again.** -/
theorem Clause.ofJson?_comes {c : Clause} (hhead : c.head.Numbers RealReadsBack)
    (hbody : ∀ g ∈ c.body, g.Everywhere fun u => ∀ x, u = .number x → RealReadsBack x) :
    ofJson? c.toJson.comes = some c := by
  have hhead := Term.ofJson?_comes hhead
  have hbody := Goal.bodyOfJson?_map (f := fun g => g.toJson.comes) fun g hg =>
    Goal.ofJson?_comes (hbody g hg)
  simp [toJson, ofJson?, Json.field?, Json.array?, Function.comp_def, List.lookup, hhead, hbody]

/-- What finds the items of a row again finds the row. -/
theorem mapM_map_eq_some {α β : Type} {f : α → β} {g : β → Option α} {as : List α}
    (h : ∀ a ∈ as, g (f a) = some a) : (as.map f).mapM g = some as := by
  induction as with
  | nil => rfl
  | cons a as ih =>
      obtain ⟨ha, has⟩ := List.forall_mem_cons.1 h
      simp [List.mapM_cons, ha, ih has]

/-- **The program that a text is read as**, where the text is JSON and its numbers are doubles. -/
def Program.read? (text : String) : Option Program :=
  (Json.parse text).bind fun v => Program.ofJson? v.settled

/-- **Dumping loses nothing.**  A program whose numbers are finite, and are read back as they are, is
read from its text again, with all its terms and negations; and so programs that differ have texts
that differ. -/
theorem Program.read?_pretty {p : Program}
    (hp : p.Numbers fun x => x.isFinite = true ∧ RealReadsBack x) :
    Program.read? p.toJson.pretty = some p ∧
      ∀ q : Program, q.Numbers (fun x => x.isFinite = true ∧ RealReadsBack x) → q ≠ p →
        q.toJson.pretty ≠ p.toJson.pretty := by
  have hread : ∀ q : Program, q.Numbers (fun x => x.isFinite = true ∧ RealReadsBack x) →
      Program.read? q.toJson.pretty = some q := by
    intro q hq
    have hclauses := mapM_map_eq_some (f := fun c : Clause => c.toJson.comes) fun c hc =>
      Clause.ofJson?_comes ((hq.mono fun _ hx => hx.2) c hc).1 ((hq.mono fun _ hx => hx.2) c hc).2
    rw [Program.read?, Json.parse_pretty, Option.bind_some, ← Json.comes]
    simp [toJson, ofJson?, Json.field?, Json.array?, Function.comp_def, hclauses]
  refine ⟨hread p hp, fun q hq hne htext => hne ?_⟩
  have hq := hread q hq
  rw [htext, hread p hp] at hq
  exact (Option.some.inj hq).symm

/-- A list with a tail, a name that has to be escaped, numbers below zero and without a fraction, and
a negation inside a negation; and the same without the last clause. -/
theorem Program.read?_pretty_nested :
    let fact : Clause := ⟨.compound "p" [.partialList [.atom "a\"\n"] (.list [.number 60])], []⟩
    let rule : Clause := ⟨.atom "q",
      [.call (.expr .sub (.var "X") (.number (-0.25))),
        .negation [[.call (.atom "r")], [.negation [[.call (.compound "s" [.list []])]]]]]⟩
    let p : Program := ⟨[fact, rule]⟩
    p.Numbers (fun x => x.isFinite = true ∧ RealReadsBack x) ∧
      Program.read? p.toJson.pretty = some p ∧
        (⟨[fact]⟩ : Program).toJson.pretty ≠ p.toJson.pretty := by
  intro fact rule p
  have hback : ∀ x : Float, x.isFinite = true →
      (Json.parse (Json.real x).pretty).map (fun v => v.settled.real?) = some (some x) →
        x.isFinite = true ∧ RealReadsBack x := by
    intro x hfinite hread
    refine ⟨hfinite, fun v hv => ?_⟩
    rw [hv, Option.map_some] at hread
    exact Option.some.inj hread
  have hsixty := hback 60 (by decide +kernel) (by decide +kernel)
  have hquarter := hback (-0.25) (by decide +kernel) (by decide +kernel)
  have hfact : (⟨[fact]⟩ : Program).Numbers (fun x => x.isFinite = true ∧ RealReadsBack x) := by
    simp [Program.Numbers, Term.Numbers, fact, hsixty]
  have hp : p.Numbers (fun x => x.isFinite = true ∧ RealReadsBack x) := by
    simp [Program.Numbers, Term.Numbers, p, fact, rule, hsixty, hquarter]
  obtain ⟨hread, hdiffer⟩ := Program.read?_pretty hp
  have hne : (⟨[fact]⟩ : Program) ≠ p := fun h =>
    absurd (congrArg (fun q : Program => q.clauses.length) h) (by decide)
  exact ⟨hp, hread, hdiffer _ hfact hne⟩

end RhythmLogic
