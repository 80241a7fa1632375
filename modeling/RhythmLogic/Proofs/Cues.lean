/-
**A program that is queued is swapped in once, in its turn, and not early.**

A handover has one place for a program that waits.  Queueing a program takes the place, whoever had
it; cancelling and swapping in empty it; and whatever else a host does leaves it alone, though it
may change the bar line that the next program is queued for.  So of the programs that were queued
the latest waits, with the bar line that it was queued for, unless something has befallen it since;
and what befalls a program is told by the first of the calls after it that touches the place.

The programs that are swapped in are then those that this befell, in the order in which they were
queued.  All of this holds in any arithmetic, and so in doubles with their roundings.

Main definitions:

* `Cue`, `Booth.apply`, `Booth.run` — the calls that a host makes on a handover and a transport;
* `Booth.ending`, `Booth.fate` — what a call, or several, make of a program that waits;
* `Booth.Awaits` — the program that was queued last, while nothing has befallen it;
* `Booth.swaps`, `Booth.served` — the programs that are swapped in, and the queued programs whose
  fate it is to be swapped in.

Main results:

* `Booth.change` — **every call** queues a program, drops the one that waits, swaps it in, or leaves
  it alone;
* `Booth.waiting_run_iff` — which program waits after some calls;
* `Booth.swaps_eq` — the programs that are swapped in are those whose fate it is;
* `Booth.swaps_inTurn` — **what holds of every run**.
-/

import RhythmLogic.CommandLine.Mixer
import RhythmLogic.Proofs.Histories

set_option autoImplicit false

namespace RhythmLogic

open Quantity

/-! ### Calls -/

/-- **A call that a host makes** on a handover or a transport. -/
inductive Cue (α : Type) where
  | schedule (p : Program) (now : α)
  | cancel
  | process (now : α)
  | setBar (beats : α)
  | setBpm (bpm : α)
  | setProgram (p : Program)
  | clearProgram

/-- The program that a call queues. -/
def Cue.queued {α : Type} : Cue α → Option Program
  | .schedule p _ => some p
  | _ => none

/-- A handover, and the transport that it hands programs to. -/
structure Booth (α : Type) where
  handover : Handover α
  transport : Transport α

/-- **What can befall a program that waits.** -/
inductive Fate where
  | swappedIn
  | replaced
  | cancelled
deriving DecidableEq

namespace Booth

variable {α : Type} [Quantity α]

/-- **The booth after a call.** -/
def apply (d : Booth α) : Cue α → Booth α
  | .schedule p now => { d with handover := (d.handover.schedule p now d.transport).state }
  | .cancel => { d with handover := d.handover.cancel }
  | .process now =>
      let (handover, transport) := (d.handover.process now d.transport).state
      ⟨handover, transport⟩
  | .setBar beats => { d with handover := d.handover.setBar beats }
  | .setBpm bpm => { d with transport := (d.transport.setBpm bpm).1 }
  | .setProgram p => { d with transport := (d.transport.setProgram p).1 }
  | .clearProgram => { d with transport := d.transport.clearProgram }

/-- The booth after several calls. -/
def run (d : Booth α) (cues : List (Cue α)) : Booth α := cues.foldl apply d

/-- **What a call makes of a program that waits**, if it makes anything of it. -/
def ending (d : Booth α) : Cue α → Option Fate
  | .schedule _ _ => some .replaced
  | .cancel => some .cancelled
  | .process now => if (d.handover.process now d.transport).result then some .swappedIn else none
  | _ => none

/-- **What befalls a program that waits** in the course of some calls, if anything does: the first
thing that does. -/
def fate (d : Booth α) : List (Cue α) → Option Fate
  | [] => none
  | c :: rest => (d.ending c).or ((d.apply c).fate rest)

/-- The program that a call swaps in. -/
def swapped (d : Booth α) : Cue α → Option Program
  | .process now =>
      let step := d.handover.process now d.transport
      if step.result then step.state.2.program else none
  | _ => none

/-- **The programs that are swapped in**, one after the other. -/
def swaps (d : Booth α) : List (Cue α) → List Program
  | [] => []
  | c :: rest => (d.swapped c).toList ++ (d.apply c).swaps rest

/-- **The programs that are queued and whose fate it is to be swapped in**, in the order in which
they are queued. -/
def served (d : Booth α) : List (Cue α) → List Program
  | [] => []
  | c :: rest =>
      (if (d.apply c).fate rest = some .swappedIn then c.queued.toList else []) ++
        (d.apply c).served rest

/-- What waits when a program is queued: the program, with the bar line that it is queued for. -/
def entry (d : Booth α) (p : Program) (now : α) : Waiting α :=
  ⟨p, (d.handover.schedule p now d.transport).result⟩

/-- **The program that was queued last, while nothing has befallen it.** -/
def Awaits (start : Booth α) (cues : List (Cue α)) (w : Waiting α) : Prop :=
  ∃ earlier p now later, cues = earlier ++ .schedule p now :: later ∧
    w = (start.run earlier).entry p now ∧
    (start.run (earlier ++ [.schedule p now])).fate later = none

/-! ### One call -/

variable {d start : Booth α} {c : Cue α} {cues more : List (Cue α)} {w : Waiting α}

/-- **What a call does** to the program that waits. -/
inductive Change (d : Booth α) : Cue α → Prop where
  /-- A program waits that is queued by the call. -/
  | queued (p : Program) (now : α) :
      (d.apply (.schedule p now)).handover.waiting = some (d.entry p now) →
      Change d (.schedule p now)
  /-- No program waits any more. -/
  | dropped {c : Cue α} : c.queued = none → d.ending c = some .cancelled → d.swapped c = none →
      (d.apply c).handover.waiting = none → Change d c
  /-- The program that waits is swapped in. -/
  | swappedIn {c : Cue α} (w : Waiting α) : d.handover.waiting = some w → c.queued = none →
      d.ending c = some .swappedIn → d.swapped c = some w.program →
      (d.apply c).handover.waiting = none → Change d c
  /-- The program that waits goes on waiting. -/
  | kept {c : Cue α} : c.queued = none → d.ending c = none → d.swapped c = none →
      (d.apply c).handover.waiting = d.handover.waiting → Change d c

/-- **Every call is one of the four.** -/
theorem change (d : Booth α) (c : Cue α) : Change d c := by
  cases c with
  | schedule p now => exact .queued p now rfl
  | cancel => exact .dropped rfl rfl rfl rfl
  | process now =>
      obtain ⟨-, hprocess⟩ | ⟨w, hw, -, hstate, hresult⟩ :=
        d.handover.process_cases now d.transport
      · exact .kept rfl (by simp [ending, hprocess]) (by simp [swapped, hprocess])
          (by simp [apply, hprocess])
      · exact .swappedIn w hw rfl (by simp [ending, hresult]) (by simp [swapped, hresult, hstate])
          (by simp [apply, hstate, Handover.cancel])
  | setBar beats => exact .kept rfl rfl rfl rfl
  | setBpm bpm => exact .kept rfl rfl rfl rfl
  | setProgram p => exact .kept rfl rfl rfl rfl
  | clearProgram => exact .kept rfl rfl rfl rfl

/-! ### Several calls -/

@[simp] theorem run_nil (d : Booth α) : d.run [] = d := rfl

@[simp] theorem run_cons (d : Booth α) (c : Cue α) (cues : List (Cue α)) :
    d.run (c :: cues) = (d.apply c).run cues := rfl

/-- **What has befallen a program stays so**, and only while nothing has do later calls tell. -/
theorem fate_append (d : Booth α) (cues more : List (Cue α)) :
    d.fate (cues ++ more) = (d.fate cues).or ((d.run cues).fate more) := by
  induction cues generalizing d with
  | nil => rfl
  | cons c cues ih => rw [List.cons_append, fate, fate, run_cons, ih, Option.or_assoc]

/-- Of some calls, the first queues a program that goes on waiting, or the program that waits is
queued by a later one. -/
theorem awaits_cons : start.Awaits (c :: cues) w ↔
    (∃ p now, c = .schedule p now ∧ w = start.entry p now ∧ (start.apply c).fate cues = none) ∨
      (start.apply c).Awaits cues w := by
  constructor
  · rintro ⟨_ | ⟨first, earlier⟩, p, now, later, hcues, hw, hfate⟩
    · obtain ⟨rfl, rfl⟩ := List.cons.inj hcues
      exact .inl ⟨p, now, rfl, hw, hfate⟩
    · obtain ⟨rfl, rfl⟩ := List.cons.inj hcues
      exact .inr ⟨earlier, p, now, later, rfl, hw, hfate⟩
  · rintro (⟨p, now, rfl, hw, hfate⟩ | ⟨earlier, p, now, later, rfl, hw, hfate⟩)
    · exact ⟨[], p, now, cues, rfl, hw, hfate⟩
    · exact ⟨c :: earlier, p, now, later, rfl, hw, hfate⟩

/-- A call that queues no program is none that a program waits since. -/
theorem awaits_cons_of_not_queued (hc : c.queued = none) :
    start.Awaits (c :: cues) w ↔ (start.apply c).Awaits cues w := by
  rw [awaits_cons]
  refine or_iff_right ?_
  rintro ⟨p, now, rfl, -⟩
  cases hc

/-- **Which program waits after some calls**: the one that was queued last, while nothing has
befallen it, or the one that waited before, in the same case. -/
theorem waiting_run_iff (start : Booth α) (cues : List (Cue α)) (w : Waiting α) :
    (start.run cues).handover.waiting = some w ↔
      start.Awaits cues w ∨ start.handover.waiting = some w ∧ start.fate cues = none := by
  induction cues generalizing start with
  | nil => simp [Awaits, fate]
  | cons c cues ih =>
      rw [run_cons, ih, fate]
      cases start.change c with
      | queued p now hwaiting =>
          rw [awaits_cons, hwaiting]
          simp [ending, eq_comm, or_comm]
      | dropped hqueued hending hswapped hwaiting =>
          simp [awaits_cons_of_not_queued hqueued, hending, hwaiting]
      | swappedIn w' hw hqueued hending hswapped hwaiting =>
          simp [awaits_cons_of_not_queued hqueued, hending, hwaiting]
      | kept hqueued hending hswapped hwaiting =>
          simp [awaits_cons_of_not_queued hqueued, hending, hwaiting]

/-- **The programs that are swapped in are those whose fate it is**, and the one that waited before
if this befalls it. -/
theorem swaps_eq (start : Booth α) (cues : List (Cue α)) :
    start.swaps cues = (if start.fate cues = some .swappedIn then
      (start.handover.waiting.map Waiting.program).toList else []) ++ start.served cues := by
  induction cues generalizing start with
  | nil => rfl
  | cons c cues ih =>
      rw [swaps, served, fate, ih]
      cases start.change c with
      | queued p now hwaiting => simp [hwaiting, ending, swapped, entry, Cue.queued]
      | dropped hqueued hending hswapped hwaiting => simp [hqueued, hending, hswapped, hwaiting]
      | swappedIn w hw hqueued hending hswapped hwaiting =>
          simp [hqueued, hending, hswapped, hwaiting, hw]
      | kept hqueued hending hswapped hwaiting => simp [hqueued, hending, hswapped, hwaiting]

/-- **A program that is queued is swapped in once, in its turn, and not early.**  Let no program
wait, and let a host make any calls.

* A call to swap a program in has an effect just when the bar line of the program that was queued
  last has come, up to the slack, and this program was neither cancelled nor swapped in since.  It
  is this program that then plays, and no program waits any more.  Without an effect the call leaves
  the handover and the transport as they are, and tells nothing.
* There is at most one such program.
* The programs that were swapped in are those of the queued programs that it befell before another
  thing did, each of them once, in the order in which they were queued.
* What has befallen a queued program, such as being swapped in, replaced or cancelled, is not undone
  by later calls. -/
theorem swaps_inTurn (hnone : start.handover.waiting = none) (cues : List (Cue α)) :
    (∀ now, let d := start.run cues
      let step := d.handover.process now d.transport
      (step.result = true ↔
        ∃ w, start.Awaits cues w ∧ le w.boundary (now + slack) = true) ∧
      (step.result = true → ∃ w, start.Awaits cues w ∧
        step.state = (d.handover.cancel, (d.transport.setProgram w.program).1)) ∧
      (step.result = false → step.state = (d.handover, d.transport) ∧ step.signals = [])) ∧
    (∀ w w', start.Awaits cues w → start.Awaits cues w' → w = w') ∧
    start.swaps cues = start.served cues ∧
    ∀ earlier p now later more, cues = earlier ++ .schedule p now :: later →
      ∀ befallen, (start.run (earlier ++ [.schedule p now])).fate later = some befallen →
        (start.run (earlier ++ [.schedule p now])).fate (later ++ more) = some befallen := by
  have hwaiting : ∀ w, (start.run cues).handover.waiting = some w ↔ start.Awaits cues w := by
    intro w
    simp [waiting_run_iff, hnone]
  refine ⟨fun now => ?_, fun w w' hw hw' => ?_, ?_, ?_⟩
  · obtain ⟨hnotDue, hprocess⟩ | ⟨w, hw, hdue, hstate, hresult⟩ :=
      (start.run cues).handover.process_cases now (start.run cues).transport
    · dsimp only
      rw [hprocess]
      refine ⟨iff_of_false Bool.false_ne_true ?_, (nomatch ·), fun _ => ⟨rfl, rfl⟩⟩
      rintro ⟨w, hw, hdue⟩
      exact Bool.false_ne_true ((hnotDue w ((hwaiting w).2 hw)).symm.trans hdue)
    · have hawaits := (hwaiting w).1 hw
      refine ⟨iff_of_true hresult ⟨w, hawaits, hdue⟩, fun _ => ⟨w, hawaits, hstate⟩, fun h => ?_⟩
      cases h.symm.trans hresult
  · exact Option.some.inj (((hwaiting w).2 hw).symm.trans ((hwaiting w').2 hw'))
  · simp [swaps_eq, hnone]
  · rintro earlier p now later more - befallen hfate
    rw [fate_append, hfate, Option.some_or]

/-- A program of one clause replaces the empty one, at half the tempo: it is not swapped in at two
seconds, where the empty one would have been, but at four, and then not again. -/
theorem swaps_inTurn_replaced :
    ∃ (start : Booth Float) (cues : List (Cue Float)) (w : Waiting Float),
    start.handover.waiting = none ∧ start.Awaits cues w ∧ w.program.size = 1 ∧
    (let d := start.run cues
     (d.handover.process 2 d.transport).state = (d.handover, d.transport) ∧
     (d.handover.process 4 d.transport).state =
       (d.handover.cancel, (d.transport.setProgram w.program).1)) ∧
    (start.swaps (cues ++ [.process 4, .process 4])).map Program.size = [1] := by
  let play : Program := ⟨[⟨.atom "play", []⟩]⟩
  let start : Booth Float := ⟨.new 4, .new (.silent 0) .standard 1⟩
  let earlier : List (Cue Float) := [.schedule .empty 1.3, .setBpm 60]
  let later : List (Cue Float) := [.process 1.95, .setProgram .empty]
  let cues : List (Cue Float) := earlier ++ .schedule play 1.4 :: later
  let d := start.run cues
  have hnone : start.handover.waiting = none := rfl
  have hawaits : start.Awaits cues ((start.run earlier).entry play 1.4) :=
    ⟨earlier, play, 1.4, later, rfl, rfl, by decide +kernel⟩
  obtain ⟨hearly, hdue⟩ : (d.handover.process 2 d.transport).result = false ∧
      (d.handover.process 4 d.transport).result = true := by decide +kernel
  obtain ⟨hprocess, honly, -, -⟩ := swaps_inTurn hnone cues
  obtain ⟨w, hw, hswap⟩ := (hprocess 4).2.1 hdue
  obtain ⟨-, -, hserved, -⟩ := swaps_inTurn hnone (cues ++ [.process 4, .process 4])
  refine ⟨start, cues, w, hnone, hw, ?_, ⟨((hprocess 2).2.2 hearly).1, hswap⟩, ?_⟩
  · rw [honly w _ hw hawaits]
    rfl
  · rw [hserved]
    decide +kernel

end Booth

end RhythmLogic
