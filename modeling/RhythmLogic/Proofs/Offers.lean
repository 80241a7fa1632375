/-
**What builtins offer for their output.**

Eight builtins compute from their inputs and then look at one argument more, their output.  They
look at it in one way only: they come up with a row of terms, none or one or many, and unify the
output with each of them.  What the row is, whether there is one, and what is told at its end goes by
the inputs alone.

Main definitions:

* `Offer`, `Offer.run` — the terms that an output is unified with;
* `Body.Gives` — a run that only computes, or stops;
* `Body.Offers` — **a run that makes one offer to whatever output it is given**;
* `Builtin.outputs` — the builtins with an output, and its place among the arguments;
* `collect` — what a row of unifications finds.

Main results:

* `offers_of_mem_outputs` — **these builtins make an offer by their inputs alone**, and it mentions
  no variable that inputs and bindings do not mention;
* `Offer.call_eq` — **what an offer comes to**, by the unifications with its terms.
-/

import RhythmLogic.Proofs.Frames
import RhythmLogic.Proofs.Refusals

set_option autoImplicit false

namespace RhythmLogic

/-! ### Offers -/

/-- **What is offered to an output**: terms, and notices that are told behind them. -/
structure Offer where
  terms : List Term
  told : List Notice

/-- The output is unified with each of the terms. -/
def Offer.run (o : Offer) (e : Bindings) (out : Term) : Body Unit := do
  o.terms.forM fun t => Body.unifyInto e out t
  o.told.forM Body.tell

namespace Body

variable {α : Type} {Q : α → Prop} {P : Term → Prop} {e : Bindings}

/-- A run that comes to a result with a property or stops, and does nothing else. -/
def Gives (Q : α → Prop) (b : Body α) : Prop :=
  (∃ a, Q a ∧ b = pure a) ∨ ∃ stop, b = throw stop

/-- **A run makes one offer to every output**, of terms with a property, or it stops for every
output alike. -/
def Offers (P : Term → Prop) (e : Bindings) (run : Term → Body Unit) : Prop :=
  (∃ stop, ∀ out, run out = throw stop) ∨
    ∃ o : Offer, (∀ t ∈ o.terms, P t) ∧ ∀ out, run out = o.run e out

/-! ### Computing -/

theorem gives_machine {o : Option α} (h : ∀ a, o = some a → Q a) : Gives Q (machine o) := by
  cases o with
  | none => exact .inr ⟨_, rfl⟩
  | some a => exact .inl ⟨a, h a rfl, rfl⟩

/-- The items of a list mention what the list mentions. -/
theorem gives_properList {x : String} {t : Term} (he : e.Omits x) (ht : t.Omits x) :
    Gives (fun items => ∀ a ∈ items, a.Omits x) (properList e t) := by
  have hvalue := he.subst ht
  simp only [properList]
  split
  · next items hitems =>
    rw [hitems] at hvalue
    exact .inl ⟨items, Term.omits_list.1 hvalue, rfl⟩
  · exact .inr ⟨_, rfl⟩

/-! ### Offering -/

namespace Offers

theorem stop (stop : Stop) : Offers P e fun _ => throw stop := .inl ⟨stop, fun _ => rfl⟩

/-- Nothing is offered. -/
theorem none : Offers P e fun _ => pure () := .inr ⟨⟨[], []⟩, by simp, fun _ => rfl⟩

/-- A term for each item. -/
theorem many {items : List α} {f : α → Term} (h : ∀ a ∈ items, P (f a)) :
    Offers P e fun out => items.forM fun a => unifyInto e out (f a) := by
  refine .inr ⟨⟨items.map f, []⟩, by simpa using h, fun out => ?_⟩
  simp [Offer.run]

theorem one {t : Term} (h : P t) : Offers P e fun out => unifyInto e out t := by
  refine .inr ⟨⟨[t], []⟩, by simpa using h, fun out => ?_⟩
  simp [Offer.run]

/-- **Something is computed before an offer is made.** -/
theorem compute {b : Body α} {f : Term → α → Body Unit} (hb : b.Gives Q)
    (hf : ∀ a, Q a → Offers P e fun out => f out a) : Offers P e fun out => b >>= f out := by
  obtain ⟨a, ha, rfl⟩ | ⟨stop, rfl⟩ := hb
  · exact hf a ha
  · exact .stop stop

/-- An argument is read before an offer is made. -/
theorem read {b : Body α} {f : Term → α → Body Unit} (hb : b.Reads)
    (hf : ∀ a, Offers P e fun out => f out a) : Offers P e fun out => b >>= f out := by
  obtain ⟨a, rfl⟩ | ⟨error, rfl⟩ := hb
  · exact hf a
  · exact .stop _

theorem ite {c : Prop} [Decidable c] {run run' : Term → Body Unit} (h : Offers P e run)
    (h' : Offers P e run') : Offers P e fun out => if c then run out else run' out := by
  by_cases hc : c
  · simpa only [hc, if_true] using h
  · simpa only [hc, if_false] using h'

end Offers

end Body

/-! ### The builtins with an output -/

namespace Builtin

open Body

/-- **The builtins with an output**, and its place among the arguments.  The other arguments are
inputs. -/
def outputs : List (Builtin × Nat) :=
  [ (evaluation, 0), (addition, 2), (transposition, 2), (scale, 4), (chord, 3)
  , (choose, 1), (rotation, 2), (range, 3) ]

/-- The builtin makes an offer to whatever stands at a place among its arguments, by the others
alone. -/
def OffersAt (b : Builtin) (place : Nat) : Prop :=
  ∀ (x : String) (bpm : Float) (e : Bindings) (inputs : List Term), e.Omits x →
    (∀ t ∈ inputs, t.Omits x) →
      Offers (Term.Omits x) e fun out => b.run bpm (inputs.insertIdx place out) e

theorem evaluation_offersAt : evaluation.OffersAt 0 := by
  rintro x bpm e (_ | ⟨a, _ | ⟨_, _⟩⟩) he hinputs
  case cons.nil => exact .read (reads_number e a) fun z => .one (Term.omits_number z)
  all_goals exact .stop _

theorem sum_offersAt (name : String) : (sum name).OffersAt 2 := by
  rintro x bpm e (_ | ⟨a, _ | ⟨b, _ | ⟨_, _⟩⟩⟩) he hinputs
  case cons.cons.nil =>
    exact .read (reads_number e a) fun y => .read (reads_number e b) fun z =>
      .one (Term.omits_number _)
  all_goals exact .stop _

theorem scale_offersAt : scale.OffersAt 4 := by
  rintro x bpm e (_ | ⟨a, _ | ⟨b, _ | ⟨c, _ | ⟨d, _ | ⟨_, _⟩⟩⟩⟩⟩) he hinputs
  case cons.cons.cons.cons.nil =>
    refine .read (reads_number e a) fun root => .read (reads_atom e b) fun name =>
      .read (reads_number e c) fun degree => .read (reads_number e d) fun octave => ?_
    cases scales.lookup name with
    | none => exact .stop _
    | some intervals =>
        exact .compute (gives_machine fun _ _ => trivial) fun pitch _ => .one (Term.omits_number _)
  all_goals exact .stop _

theorem chord_offersAt : chord.OffersAt 3 := by
  rintro x bpm e (_ | ⟨a, _ | ⟨b, _ | ⟨c, _ | ⟨_, _⟩⟩⟩⟩) he hinputs
  case cons.cons.cons.nil =>
    refine .read (reads_number e a) fun root => .read (reads_atom e b) fun name =>
      .read (reads_number e c) fun octave => ?_
    cases chords.lookup name with
    | none => exact .stop _
    | some intervals => exact .many fun i _ => Term.omits_number _
  all_goals exact .stop _

theorem choose_offersAt : choose.OffersAt 1 := by
  rintro x bpm e (_ | ⟨a, _ | ⟨_, _⟩⟩) he hinputs
  case cons.nil =>
    exact .compute (gives_properList he (hinputs a (by simp))) fun items hitems => .many hitems
  all_goals exact .stop _

/-- A list that was turned has the same items. -/
theorem mem_of_rotated {items turned : List Term} {shift : Int}
    (h : rotated items shift = some turned) {a : Term} (ha : a ∈ turned) : a ∈ items := by
  simp only [rotated, Option.bind_eq_bind, Option.bind_eq_some_iff] at h
  obtain ⟨places, -, hturned⟩ := h
  cases hturned
  exact (List.mem_append.1 ha).elim List.mem_of_mem_drop List.mem_of_mem_take

theorem rotation_offersAt : rotation.OffersAt 2 := by
  rintro x bpm e (_ | ⟨a, _ | ⟨b, _ | ⟨_, _⟩⟩⟩) he hinputs
  case cons.cons.nil =>
    refine .compute (gives_properList he (hinputs a (by simp))) fun items hitems => .ite .none ?_
    refine .read (reads_number e b) fun s =>
      .compute (Q := fun turned => ∀ t ∈ turned, t.Omits x) (gives_machine ?_) fun turned hturned =>
        .one (Term.omits_list.2 hturned)
    exact fun turned hturned t ht => hitems t (mem_of_rotated hturned ht)
  all_goals exact .stop _

/-- The values of a range are offered one after the other, and it is told if they are cut off. -/
theorem rangeFrom_offers (x : String) (e : Bindings) (start step last : Float) (upward : Bool)
    (size : Float) (fuel i : Nat) : ∃ o : Offer, (∀ t ∈ o.terms, t.Omits x) ∧
      ∀ out, rangeFrom e out start step last upward size fuel i = o.run e out := by
  induction fuel generalizing i with
  | zero =>
      by_cases hinside : (!if upward then decide (start + step * Float.ofNat i ≤ last)
          else decide (start + step * Float.ofNat i ≥ last)) = true
      · exact ⟨⟨[], []⟩, by simp, fun out => if_pos hinside⟩
      · exact ⟨⟨[], [.rangeCut start last size rangeLimit]⟩, by simp, fun out => if_neg hinside⟩
  | succ fuel ih =>
      by_cases hinside : (!if upward then decide (start + step * Float.ofNat i ≤ last)
          else decide (start + step * Float.ofNat i ≥ last)) = true
      · exact ⟨⟨[], []⟩, by simp, fun out => if_pos hinside⟩
      · obtain ⟨o, hterms, hrun⟩ := ih (i + 1)
        refine ⟨⟨.number (start + step * Float.ofNat i) :: o.terms, o.told⟩,
          List.forall_mem_cons.2 ⟨Term.omits_number _, hterms⟩, fun out => ?_⟩
        refine (if_neg hinside).trans ?_
        simp only [hrun]
        exact (bind_assoc _ _ _).symm

theorem range_offersAt : range.OffersAt 3 := by
  rintro x bpm e (_ | ⟨a, _ | ⟨b, _ | ⟨c, _ | ⟨_, _⟩⟩⟩⟩) he hinputs
  case cons.cons.cons.nil =>
    exact .read (reads_number e a) fun start => .read (reads_number e b) fun last =>
      .read (reads_number e c) fun given => .inr (rangeFrom_offers x e _ _ _ _ _ _ _)
  all_goals exact .stop _

/-- **The builtins with an output make it an offer by their inputs alone.** -/
theorem offers_of_mem_outputs : ∀ p ∈ outputs, p.1.OffersAt p.2 := by
  simp only [outputs, List.forall_mem_cons]
  exact ⟨evaluation_offersAt, sum_offersAt _, sum_offersAt _, scale_offersAt,
    chord_offersAt, choose_offersAt, rotation_offersAt, range_offersAt, by simp⟩

/-- They are standard builtins, and the output is one of their arguments. -/
theorem standard_of_mem_outputs : ∀ p ∈ outputs, p.1 ∈ standard ∧ p.2 < p.1.arity := by
  simp [outputs, standard, evaluation, addition, transposition, sum, scale, chord, choose,
    rotation, range]

end Builtin

/-! ### What an offer comes to -/

/-- **The bindings that a row of unifications finds**, in order, unless one of them halts. -/
def collect : List Unified → Except Halt (List Bindings)
  | [] => .ok []
  | .error cause :: _ => .error cause
  | .ok found :: rest => (collect rest).map (found.toList ++ ·)

namespace Offer

variable {e : Bindings} {out : Term} {found : List Bindings} {cause : Halt}

/-- The notices of an offer are told in order. -/
theorem forM_tell (told : List Notice) (s : Effects) :
    told.forM Body.tell s = (.ok (), { s with world := told.foldl World.tell s.world }) := by
  induction told generalizing s with
  | nil => rfl
  | cons n told ih => exact ih _

theorem unifyInto_ok {t : Term} {r : Option Bindings} (h : unify out t e = .ok r) (s : Effects) :
    Body.unifyInto e out t s = (.ok (), { s with pushed := r.toList ++ s.pushed }) := by
  simp only [Body.unifyInto, h]
  cases r <;> rfl

/-- **The output is unified with term after term**: all bindings that are found are pushed, or the
run halts where a unification does. -/
theorem forM_unifyInto (e : Bindings) (out : Term) (terms : List Term) (s : Effects) :
    match collect (terms.map fun t => unify out t e) with
    | .ok found => (terms.forM fun t => Body.unifyInto e out t) s =
        (.ok (), { s with pushed := found.reverse ++ s.pushed })
    | .error cause => ((terms.forM fun t => Body.unifyInto e out t) s).1 =
        .error (.halted cause) := by
  induction terms generalizing s with
  | nil => rfl
  | cons t terms ih =>
      have hcons : ((t :: terms).forM fun t => Body.unifyInto e out t) s =
          ExceptT.bindCont (fun _ => terms.forM fun t => Body.unifyInto e out t)
            (Body.unifyInto e out t s).1 (Body.unifyInto e out t s).2 := rfl
      rw [List.map_cons, hcons]
      rcases hfirst : unify out t e with cause | first
      · simp only [Body.unifyInto, hfirst]
        rfl
      -- the other terms are worked off on top of what the first one pushed
      have hrest := ih { s with pushed := first.toList ++ s.pushed }
      rw [unifyInto_ok hfirst, collect]
      generalize collect (terms.map fun t => unify out t e) = more at hrest ⊢
      cases more with
      | error cause => exact hrest
      | ok more =>
          refine hrest.trans ?_
          rw [List.reverse_append, List.append_assoc]
          cases first <;> rfl

/-- **A call that makes an offer**: its solutions are the bindings that are found, unless one of the
unifications halts. -/
theorem call_eq {b : Builtin} {bpm : Float} {args : List Term} {o : Offer} (w : World)
    (hrun : b.run bpm args e = o.run e out) :
    match collect (o.terms.map fun t => unify out t e) with
    | .ok found => b.call bpm args e w = ⟨found, o.told.foldl World.tell w, none⟩
    | .error cause => (b.call bpm args e w).stop = some (.halted cause) := by
  have hterms := forM_unifyInto e out o.terms ⟨w, []⟩
  have hbind : o.run e out ⟨w, []⟩ = ExceptT.bindCont (fun _ => o.told.forM Body.tell)
      ((o.terms.forM fun t => Body.unifyInto e out t) ⟨w, []⟩).1
      ((o.terms.forM fun t => Body.unifyInto e out t) ⟨w, []⟩).2 := rfl
  simp only [Builtin.call, hrun, hbind]
  generalize collect (o.terms.map fun t => unify out t e) = r at hterms ⊢
  cases r with
  | error cause =>
      dsimp only at hterms ⊢
      rw [hterms]
      rfl
  | ok found =>
      dsimp only at hterms ⊢
      have htold : ExceptT.bindCont (fun _ : Unit => o.told.forM Body.tell) (.ok ())
          (⟨w, found.reverse ++ []⟩ : Effects) =
            (.ok (), ⟨o.told.foldl World.tell w, found.reverse ++ []⟩) := forM_tell o.told _
      rw [hterms, htold, List.append_nil]
      dsimp only
      rw [List.reverse_reverse]

/-- An offer is not refused any more. -/
theorem call_not_refused {b : Builtin} {bpm : Float} {args : List Term} {o : Offer}
    (hrun : b.run bpm args e = o.run e out) (w : World) (error : ArgumentError) :
    (b.call bpm args e w).stop ≠ some (.refused error) := by
  have hcall := call_eq w hrun
  generalize collect (o.terms.map fun t => unify out t e) = r at hcall
  cases r <;> simp only [hcall] <;> exact nofun

end Offer

/-- A run that only stops has done nothing. -/
theorem Builtin.call_of_stop {b : Builtin} {bpm : Float} {args : List Term} {e : Bindings}
    {stop : Stop} (hrun : b.run bpm args e = throw stop) (w : World) :
    b.call bpm args e w = ⟨[], w, some stop⟩ := by
  simp only [Builtin.call, hrun]
  rfl

end RhythmLogic
