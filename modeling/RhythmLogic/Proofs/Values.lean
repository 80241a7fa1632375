/-
**Assignments, and the values of terms under them.**

What a program means is said with assignments: functions that give every variable a term.  The
*value* of a term under an assignment is its instance with the tails of all lists joined, so that
`[1 | [2]]` and `[1, 2]` have the same value.  Two terms are *equal* when they are the same once
joined, and an assignment *satisfies* bindings when each name that is bound equals what it stands
for.

Numbers are compared through a function `ν`: two doubles are the same number when `ν` takes them to
the same double.  The identity keeps all doubles apart; a function that takes both zeros to one
does not keep the zeros apart.  The tolerance is *exact* on some numbers when it takes just the
same ones of them for the same as `ν` does.

Joining is not injective: `[1 | t]` has the same value for the tail `t` and for the list without
items that goes on as `t`.  Where every list with a tail has an item, it is.

Main definitions:

* `Term.inst`, `Term.joined`, `Term.value` — instances, joined terms and values;
* `Term.Equal` — equal once joined;
* `Bindings.SatisfiedBy` — an assignment makes true what is bound;
* `Exact` — the tolerance tells numbers apart like `ν`.

Main results:

* `Term.valuation_value` — **values are a valuation**, of all terms;
* `Term.joinTail_inj` — joining is injective for tails that are no empty lists with a tail;
* `Term.Full.value` — the value of a full term under a full assignment is no such list.
-/

import RhythmLogic.Proofs.Valuations

set_option autoImplicit false

namespace RhythmLogic

namespace Term

/-! ### Instances -/

mutual

/-- A term with every variable replaced by what an assignment gives it. -/
def inst (θ : String → Term) : Term → Term
  | number x => number x
  | atom name => atom name
  | var name => θ name
  | compound f args => compound f (instAll θ args)
  | list items => list (instAll θ items)
  | partialList items tail => partialList (instAll θ items) (inst θ tail)
  | expr op l r => expr op (inst θ l) (inst θ r)

/-- The instances of several terms. -/
def instAll (θ : String → Term) : List Term → List Term
  | [] => []
  | t :: ts => inst θ t :: instAll θ ts

end

variable {θ θ' : String → Term}

@[simp] theorem instAll_eq_map (θ : String → Term) (ts : List Term) :
    instAll θ ts = ts.map (inst θ) := by
  induction ts with
  | nil => rfl
  | cons t ts ih => simp [instAll, ih]

/-- A term is an instance of itself. -/
theorem inst_self (t : Term) : t.inst var = t := by
  induction t with
  | number | atom | var => rfl
  | compound f args ih => simp [inst, List.map_congr_left ih]
  | list items ih => simp [inst, List.map_congr_left ih]
  | partialList items tail ih ih' => simp [inst, List.map_congr_left ih, ih']
  | expr op l r ihl ihr => simp only [inst, ihl, ihr]

/-- An instance depends only on the variables that occur. -/
theorem inst_congr {t : Term} (h : ∀ x, (var x).Occurs t → θ x = θ' x) :
    t.inst θ = t.inst θ' := by
  induction t with
  | number | atom => rfl
  | var name => exact h name .here
  | compound f args ih =>
      have hargs : args.map (inst θ) = args.map (inst θ') :=
        List.map_congr_left fun a ha => ih a ha fun x hx => h x (.arg ha hx)
      simp only [inst, instAll_eq_map, hargs]
  | list items ih =>
      have hitems : items.map (inst θ) = items.map (inst θ') :=
        List.map_congr_left fun a ha => ih a ha fun x hx => h x (.item ha hx)
      simp only [inst, instAll_eq_map, hitems]
  | partialList items tail ih ih' =>
      have hitems : items.map (inst θ) = items.map (inst θ') :=
        List.map_congr_left fun a ha => ih a ha fun x hx => h x (.partialItem ha hx)
      simp only [inst, instAll_eq_map, hitems, ih' fun x hx => h x (.tail hx)]
  | expr op l r ihl ihr =>
      simp only [inst, ihl fun x hx => h x (.left hx), ihr fun x hx => h x (.right hx)]

/-- The functor and the arguments of a call are those of its instances. -/
theorem functor?_inst {t : Term} (h : t.isVar = false) : (t.inst θ).functor? = t.functor? := by
  cases t <;> simp_all [inst, functor?, isVar]

/-! ### Joined terms -/

mutual

/-- **A term with the tails of its lists joined,** and with its numbers as `ν` takes them. -/
def joined (ν : Float → Float) : Term → Term
  | number x => number (ν x)
  | atom name => atom name
  | var name => var name
  | compound f args => compound f (joinedAll ν args)
  | list items => list (joinedAll ν items)
  | partialList items tail => joinTail (joinedAll ν items) (joined ν tail)
  | expr op l r => expr op (joined ν l) (joined ν r)

/-- Several terms with the tails of their lists joined. -/
def joinedAll (ν : Float → Float) : List Term → List Term
  | [] => []
  | t :: ts => joined ν t :: joinedAll ν ts

end

variable {ν : Float → Float}

@[simp] theorem joinedAll_eq_map (ν : Float → Float) (ts : List Term) :
    joinedAll ν ts = ts.map (joined ν) := by
  induction ts with
  | nil => rfl
  | cons t ts ih => simp [joinedAll, ih]

/-- **Two terms are equal** when they are the same, once the tails of lists are joined. -/
def Equal (ν : Float → Float) (s t : Term) : Prop := s.joined ν = t.joined ν

/-! ### Values -/

/-- **The value of a term under an assignment.** -/
def value (ν : Float → Float) (θ : String → Term) (t : Term) : Term := (t.inst θ).joined ν

@[simp] theorem value_number (x : Float) : value ν θ (number x) = number (ν x) := rfl

@[simp] theorem value_atom (name : String) : value ν θ (atom name) = atom name := rfl

@[simp] theorem value_compound (f : String) (args : List Term) :
    value ν θ (compound f args) = compound f (args.map (value ν θ)) := by
  simp [value, inst, joined, Function.comp_def]

@[simp] theorem value_list (items : List Term) :
    value ν θ (list items) = list (items.map (value ν θ)) := by
  simp [value, inst, joined, Function.comp_def]

@[simp] theorem value_partialList (items : List Term) (tail : Term) :
    value ν θ (partialList items tail) = joinTail (items.map (value ν θ)) (value ν θ tail) := by
  simp only [value, inst, joined, instAll_eq_map, joinedAll_eq_map, List.map_map]
  rfl

@[simp] theorem value_expr (op : Op) (l r : Term) :
    value ν θ (expr op l r) = expr op (value ν θ l) (value ν θ r) := rfl

theorem hereditary_true : Hereditary fun _ => True where
  arg _ _ _ := trivial
  side _ := ⟨trivial, trivial⟩
  item _ _ _ _ _ := trivial
  tail _ := trivial
  rest _ _ := trivial

/-- **Values are a valuation** of all terms. -/
theorem valuation_value (ν : Float → Float) (θ : String → Term) :
    Valuation (fun _ => True) (value ν θ) where
  atom _ := rfl
  compound _ := value_compound _ _
  listOf items tail _ := by
    cases tail with
    | none => exact value_list items
    | some tail => exact value_partialList items tail
  expr _ := rfl

/-! ### Front and end of a list -/

/-- The items of a list. -/
def front : Term → List Term
  | list items => items
  | partialList items _ => items
  | _ => []

/-- What a list goes on as: nothing if it is proper.  Another term goes on as itself. -/
def back : Term → Option Term
  | list _ => none
  | partialList _ tail => some tail
  | t => some t

/-- A term is not a list that has a tail but no item. -/
def HasItems (t : Term) : Prop := ∀ tail, t ≠ partialList [] tail

theorem joinTail_eq_listOf (items : List Term) (t : Term) :
    joinTail items t = listOf (items ++ t.front) t.back := by
  cases t <;> simp [joinTail, listOf, front, back]

theorem listOf_inj {as bs : List Term} {s t : Option Term} :
    listOf as s = listOf bs t ↔ as = bs ∧ s = t := by
  cases s <;> cases t <;> simp [listOf]

/-- Front and back determine a term, but for empty lists with a tail. -/
theorem eq_of_front_of_back {s t : Term} (hs : s.HasItems) (ht : t.HasItems)
    (hfront : s.front = t.front) (hback : s.back = t.back) : s = t := by
  cases s with
  | partialList items tail =>
      cases t with
      | partialList items' tail' => simp_all [front, back]
      | list => simp [back] at hback
      | _ => exact absurd (congrArg (partialList · tail) hfront) (hs tail)
  | list items =>
      cases t with
      | list items' => simp_all [front]
      | _ => simp [back] at hback
  | _ =>
      cases t with
      | partialList items' tail' =>
          exact absurd (congrArg (partialList · tail') hfront.symm) (ht tail')
      | list => simp [back] at hback
      | _ => simp_all [back]

/-- **Joining is injective,** for tails that are no empty lists with a tail. -/
theorem joinTail_inj {as bs : List Term} {s t : Term} (hlen : as.length = bs.length)
    (hs : s.HasItems) (ht : t.HasItems) (h : joinTail as s = joinTail bs t) :
    as = bs ∧ s = t := by
  rw [joinTail_eq_listOf, joinTail_eq_listOf, listOf_inj] at h
  obtain ⟨hitems, hback⟩ := h
  obtain ⟨rfl, hfront⟩ := List.append_inj hitems hlen
  exact ⟨rfl, eq_of_front_of_back hs ht hfront hback⟩

/-- Joined to items, no tail makes an empty list with a tail. -/
theorem hasItems_joinTail {items : List Term} (h : items ≠ []) (tail : Term) :
    (joinTail items tail).HasItems := by
  intro t
  cases tail <;> simp [joinTail, h]

/-! ### Full terms -/

theorem stable_hasItems : Stable HasItems where
  nil tail := by simp
  cons a items tail t := by cases tail <;> simp [listOf]

theorem full_iff {t : Term} : t.Full ↔ t.Everywhere HasItems :=
  ⟨fun h _ hu tail hut => h tail (hut ▸ hu), fun h tail hu => h _ hu tail rfl⟩

/-- Joining the lists of a full term leaves no empty list with a tail. -/
theorem Full.joined {t : Term} (h : t.Full) : (t.joined ν).HasItems := by
  cases t with
  | partialList items tail =>
      have hne : items ≠ [] := by
        rintro rfl
        exact h tail .here
      simp only [Term.joined, joinedAll_eq_map]
      exact hasItems_joinTail (by simpa using hne) _
  | _ => intro tail; simp [Term.joined]

/-- Full instances of full terms are full. -/
theorem Full.inst {t : Term} (h : t.Full) (hθ : ∀ x, (θ x).Full) : (t.inst θ).Full := by
  rw [full_iff] at h ⊢
  induction t with
  | number | atom => exact h
  | var name => exact full_iff.1 (hθ name)
  | compound f args ih =>
      rw [everywhere_compound] at h
      simp only [Term.inst, instAll_eq_map, everywhere_compound, List.forall_mem_map]
      exact ⟨fun tail => by simp, fun a ha => ih a ha (h.2 a ha)⟩
  | list items ih =>
      rw [everywhere_list] at h
      simp only [Term.inst, instAll_eq_map, everywhere_list, List.forall_mem_map]
      exact ⟨fun tail => by simp, fun a ha => ih a ha (h.2 a ha)⟩
  | partialList items tail ih ih' =>
      rw [everywhere_partialList] at h
      obtain ⟨hself, hitems, htail⟩ := h
      simp only [Term.inst, instAll_eq_map, everywhere_partialList, List.forall_mem_map]
      refine ⟨fun t => ?_, fun a ha => ih a ha (hitems a ha), ih' htail⟩
      have hne : items ≠ [] := by
        rintro rfl
        exact hself tail rfl
      simp [hne]
  | expr op l r ihl ihr =>
      rw [everywhere_expr] at h
      simp only [Term.inst, everywhere_expr]
      exact ⟨fun tail => by simp, ihl h.2.1, ihr h.2.2⟩

/-- **The value of a full term under a full assignment** is no empty list with a tail. -/
theorem Full.value {t : Term} (h : t.Full) (hθ : ∀ x, (θ x).Full) : (t.value ν θ).HasItems :=
  (h.inst hθ).joined

end Term

/-! ### Satisfaction -/

/-- **An assignment satisfies bindings** when every name that is bound equals what it stands for. -/
def Bindings.SatisfiedBy (ν : Float → Float) (θ : String → Term) (e : Bindings) : Prop :=
  ∀ x t, e.get? x = some t → Term.Equal ν (θ x) (t.inst θ)

/-- The tolerance takes two of these numbers for the same just when `ν` does. -/
def Exact (ν : Float → Float) (N : Float → Prop) : Prop :=
  ∀ x y, N x → N y → (closeEnough x y = true ↔ ν x = ν y)

namespace Bindings

variable {ν : Float → Float} {θ : String → Term} {e e' : Bindings} {s t u : Term} {x : String}

theorem satisfiedBy_empty : empty.SatisfiedBy ν θ := by
  intro x t h
  simp at h

/-- What satisfies later bindings satisfies the earlier ones. -/
theorem SatisfiedBy.of_le (h : e'.SatisfiedBy ν θ) (hle : e ≤ e') : e.SatisfiedBy ν θ :=
  fun x t hx => h x t (hle x t hx)

theorem SatisfiedBy.bind (h : e.SatisfiedBy ν θ) (hx : (Term.var x).value ν θ = t.value ν θ) :
    (e.bind x t).SatisfiedBy ν θ := by
  intro y u hy
  rw [get?_bind] at hy
  split at hy
  · next hyx =>
      subst hyx
      rw [Option.some.injEq] at hy
      exact hy ▸ hx
  · exact h y u hy

/-- A term has the value of what it stands for. -/
theorem SatisfiedBy.trail {names : List String} (h : e.SatisfiedBy ν θ)
    (ht : e.Trail names t u) : t.value ν θ = u.value ν θ := by
  induction ht with
  | stay => rfl
  | follow hx _ ih => exact (h _ _ hx).trans ih

theorem SatisfiedBy.settles (h : e.SatisfiedBy ν θ) (ht : e.Settles t u) :
    t.value ν θ = u.value ν θ := by
  obtain ⟨names, ht, -⟩ := ht
  exact h.trail ht

end Bindings

end RhythmLogic
