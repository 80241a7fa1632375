/-
**Bar lines: which tempo the swap of a program goes by.**

The bar line that a program waits for is computed when it is queued, in seconds, and it is told to
the host.  It is not computed anew when the tempo changes.  So a program is swapped in on a bar line
of the tempo at which it was queued, and that is a bar line of the tempo at which it is swapped in
only as long as nobody sets the tempo in between.

The invariant of a history looks back from the program that waits to the edit that queued it.

Main definitions:

* `Session.bar` — the length of a bar now, in seconds;
* `QueuedOnBar` — an edit of the history queued a program for a bar line of its time.

Main results:

* `operate_sameBar` — only setting the tempo changes the bar;
* `swap_onBar` — **a program is swapped in on a bar line of the tempo at which it was queued**;
* `swap_offBar` — after a change of tempo it need not be one of the tempo that is played.
-/

import RhythmLogic.Proofs.Histories
import RhythmLogic.Proofs.Ratios

set_option autoImplicit false

namespace RhythmLogic

open Quantity

variable {s s' : Session ℚ} {op : Operation ℚ} {occasions : List (Occasion ℚ)} {read : FileReader}

/-- The length of a bar at the present tempo, in seconds. -/
def Session.bar (s : Session ℚ) : ℚ := s.handover.barDuration s.transport

/-! ### What changes the bar -/

-- what a text is read as is never computed below
attribute [local irreducible] readCompleted

namespace Session

/-- Two sessions have one tempo, and bars of as many beats. -/
def SameBar (s s' : Session ℚ) : Prop :=
  s'.transport.timing.bpm = s.transport.timing.bpm ∧ s'.handover.barBeats = s.handover.barBeats

theorem SameBar.bar (h : s.SameBar s') : s'.bar = s.bar := by
  rw [Session.bar, Handover.barDuration, Timing.beatDuration, h.1, h.2]
  rfl

theorem install_sameBar (s : Session ℚ) (p : Program) : s.SameBar (s.install p).state := by
  refine ⟨by rw [install_timing], ?_⟩
  unfold install
  split <;> rfl

theorem evaluate_sameBar (s : Session ℚ) (text : String) : s.SameBar (s.evaluate text).state := by
  cases hresult : (s.editor.evaluate text).result with
  | error e =>
      rw [evaluate_refused hresult]
      exact ⟨rfl, rfl⟩
  | ok p =>
      rw [(evaluate_accepted hresult).1]
      exact install_sameBar _ p

theorem loadFile_sameBar (s : Session ℚ) (read : FileReader) (path : String) :
    s.SameBar (s.loadFile read path).state := by
  unfold loadFile
  cases read path with
  | error e => exact ⟨rfl, rfl⟩
  | ok text => exact evaluate_sameBar s text

theorem tick_sameBar (read : FileReader) {now : ℚ} (h : s.move read (.tick now) = .ok s') : s.SameBar s' := by
  obtain ⟨tick, htick, htransport, hhandover, -⟩ := move_tick h
  obtain ⟨output, memory, chance, beat, hstate⟩ := Transport.tickAt_state htick
  rw [SameBar, htransport, hstate, hhandover]
  obtain ⟨-, hprocess⟩ | ⟨w, -, -, hprocess, -⟩ := s.handover.process_cases now s.transport
  all_goals
    rw [hprocess]
    exact ⟨rfl, rfl⟩

/-- **Only setting the tempo changes the bar.** -/
theorem operate_sameBar (h : s.operate op = .ok s') (hop : ¬ op.IsTempo) : s.SameBar s' := by
  cases op with
  | load read path =>
      cases h
      exact loadFile_sameBar s read path
  | move read m =>
      cases m with
      | tick now => exact tick_sameBar read h
      | edit text =>
          cases h
          exact evaluate_sameBar s text
      | clock time =>
          cases h
          exact ⟨rfl, rfl⟩
      | command c =>
          cases h
          cases c with
          | help | status | quit | stop => exact ⟨rfl, rfl⟩
          | tempo bpm => exact absurd ⟨read, bpm, rfl⟩ hop
          | swing amount =>
              -- a tempo of zero is no tempo, and keeps the one there is
              have hzero : ¬ isPositive (ofInt 0 : ℚ) = true := by decide +kernel
              have hbpm : (s.execute read (.swing amount)).state.transport.timing.bpm =
                  if isPositive (ofInt 0 : ℚ) then ofInt 0 else s.transport.timing.bpm := rfl
              exact ⟨hbpm.trans (if_neg hzero), rfl⟩
          | start =>
              simp only [execute]
              split <;> exact ⟨rfl, rfl⟩
          | play path => exact loadFile_sameBar s read path
          | source text => exact evaluate_sameBar s text

theorem operate_barBeats (h : s.operate op = .ok s') :
    s'.handover.barBeats = s.handover.barBeats := by
  by_cases hop : op.IsTempo
  · obtain ⟨read, bpm, rfl⟩ := hop
    cases h
    rfl
  · exact (operate_sameBar h hop).2

theorem operate_positive (hs : s.transport.timing.Positive) (h : s.operate op = .ok s') :
    s'.transport.timing.Positive := by
  cases op with
  | move read m => exact move_positive hs h
  | load read path => exact move_positive (m := .command (.play path)) hs h

/-- **A bar has a length**, whatever the tempo is set to. -/
theorem History.bar_pos {start : Session ℚ} (ht : start.transport.timing.Positive)
    (hh : 0 < start.handover.barBeats) (h : History start occasions s) : 0 < s.bar := by
  have hkept : s.transport.timing.Positive ∧ 0 < s.handover.barBeats := by
    induction h with
    | nil => exact ⟨ht, hh⟩
    | cons _ hop ih => exact ⟨operate_positive ih.1 hop, (operate_barBeats hop).symm ▸ ih.2⟩
  exact mul_pos (div_pos (by norm_num) hkept.1.bpm) hkept.2

end Session

theorem Handover.barOf_pos (beats : ℚ) : 0 < barOf beats := by
  unfold barOf
  split
  · next h => exact (isPositive_iff beats).1 h
  · norm_num

/-! ### Who queued the program that waits -/

/-- **An edit of the history queued a program** for a bar line of its time, no program was accepted
after it, and the bar is still the same if the tempo was not set since. -/
structure QueuedOnBar (s : Session ℚ) (w : Waiting ℚ) (later : List (Occasion ℚ))
    (edit : Occasion ℚ) : Prop where
  accepts : edit.session.accepted edit.operation = some w.program
  latest : ∀ o ∈ later, o.session.accepted o.operation = none
  onBar : ∃ k : ℤ, w.boundary = k * edit.session.bar
  sameBar : (∀ o ∈ later, ¬ o.operation.IsTempo) → s.bar = edit.session.bar

namespace QueuedOnBar

variable {w : Waiting ℚ} {later : List (Occasion ℚ)} {edit : Occasion ℚ} {p : Program}

/-- An operation that accepts no program leaves the edit the latest one. -/
theorem later_cons (h : QueuedOnBar s w later edit) (haccepted : s.accepted op = none)
    (hop : s.operate op = .ok s') : QueuedOnBar s' w (⟨s, op⟩ :: later) edit where
  accepts := h.accepts
  latest := List.forall_mem_cons.2 ⟨haccepted, h.latest⟩
  onBar := h.onBar
  sameBar htempo := by
    obtain ⟨hlast, hlater⟩ := List.forall_mem_cons.1 htempo
    exact (Session.operate_sameBar hop hlast).bar.trans (h.sameBar hlater)

/-- An edit that queues a program is an edit of the history. -/
theorem of_edit (haccepted : s.accepted op = some p) (hop : s.operate op = .ok s')
    (hbar : 0 < s.bar) : QueuedOnBar s' ⟨p, nextBoundary s.transport.now s.bar⟩ [] ⟨s, op⟩ where
  accepts := haccepted
  latest := by simp
  onBar := ⟨_, nextBoundary_eq hbar.ne'⟩
  sameBar _ := by
    refine (Session.operate_sameBar hop ?_).bar
    rintro ⟨read, bpm, rfl⟩
    cases haccepted

end QueuedOnBar

/-- **A program that waits was queued by an edit of the history**, by induction on the
operations. -/
theorem exists_queuedOnBar {start : Session ℚ} (ht : start.transport.timing.Positive)
    (hh : 0 < start.handover.barBeats) (hnone : start.handover.waiting = none)
    (h : Session.History start occasions s) {w : Waiting ℚ} (hw : s.handover.waiting = some w) :
    ∃ later edit earlier, occasions = later ++ edit :: earlier ∧ QueuedOnBar s w later edit := by
  induction h generalizing w with
  | nil => cases hnone.symm.trans hw
  | @cons occasions s s' op hearlier hop ih =>
      have hchange := Session.operate_change hop
      cases haccepted : s.accepted op with
      | none =>
          rw [haccepted] at hchange
          cases hchange with
          | idle _ _ hwaiting =>
              obtain ⟨later, edit, earlier, rfl, hqueued⟩ := ih (hwaiting ▸ hw)
              exact ⟨⟨s, op⟩ :: later, edit, earlier, rfl, hqueued.later_cons haccepted hop⟩
          | stopped _ _ hwaiting => cases hwaiting.symm.trans hw
          | handedOver _ _ _ _ hwaiting => cases hwaiting.symm.trans hw
      | some p =>
          rw [haccepted] at hchange
          cases hchange with
          | installed _ _ hwaiting => cases hwaiting.symm.trans hw
          | queued _ _ hwaiting =>
              cases hwaiting.symm.trans hw
              exact ⟨[], ⟨s, op⟩, occasions, rfl, .of_edit haccepted hop (hearlier.bar_pos ht hh)⟩

/-- **A program is swapped in on a bar line of the tempo at which it was queued.**  After every
history of a new session, when a program is handed over, the bar line that it waited for is a whole
multiple of the bar at the time of the edit that queued it, which is the latest edit that was
accepted; and so of the bar at the time of the swap, if the tempo was not set since that edit. -/
theorem swap_onBar {transport : Transport ℚ} {beats now : ℚ} (ht : transport.timing.Positive)
    (h : Session.History (.new transport (.new beats)) occasions s)
    (hswap : (s.handover.process now s.transport).result = true) :
    ∃ w, s.handover.waiting = some w ∧
      (s.handover.process now s.transport).state.2.program = some w.program ∧
      ∃ later edit earlier, occasions = later ++ edit :: earlier ∧
        edit.session.accepted edit.operation = some w.program ∧
        (∀ o ∈ later, o.session.accepted o.operation = none) ∧
        (∃ k : ℤ, w.boundary = k * edit.session.bar) ∧
        ((∀ o ∈ later, ¬ o.operation.IsTempo) → ∃ k : ℤ, w.boundary = k * s.bar) := by
  obtain ⟨-, hstays⟩ | ⟨w, hw, -, hprocess, -⟩ := s.handover.process_cases now s.transport
  · rw [hstays] at hswap
    cases hswap
  obtain ⟨later, edit, earlier, hoccasions, hqueued⟩ :=
    exists_queuedOnBar ht (Handover.barOf_pos beats) rfl h hw
  refine ⟨w, hw, by rw [hprocess], later, edit, earlier, hoccasions, hqueued.accepts,
    hqueued.latest, hqueued.onBar, fun htempo => ?_⟩
  rw [hqueued.sameBar htempo]
  exact hqueued.onBar

/-! ### Runs -/

/-- At ninety beats a minute a bar has eight thirds of a second; the swing is set while the snares
wait for the first bar line. -/
theorem swap_onBar_swing : ∃ (occasions : List (Occasion ℚ)) (s : Session ℚ) (w : Waiting ℚ),
    Session.History freshSession occasions s ∧
    (s.handover.process (8 / 3) s.transport).result = true ∧
    s.handover.waiting = some w ∧ s.bar = 8 / 3 ∧
    (s.handover.process (8 / 3) s.transport).state.2.program = some w.program ∧
    ∃ later edit earlier, occasions = later ++ edit :: earlier ∧
      edit.session.accepted edit.operation = some w.program ∧
      (∀ o ∈ later, o.session.accepted o.operation = none) ∧
      (∃ k : ℤ, w.boundary = k * edit.session.bar) ∧
      ((∀ o ∈ later, ¬ o.operation.IsTempo) → ∃ k : ℤ, w.boundary = k * s.bar) := by
  let at₁ : Session ℚ := (freshSession.execute noFiles (.tempo 90)).state
  let at₂ : Session ℚ := (at₁.evaluate kicks).state
  let at₃ : Session ℚ :=
    { at₂ with transport := { at₂.transport with output := at₂.transport.output.setClock (13 / 10) } }
  let at₄ : Session ℚ := (at₃.evaluate snares).state
  let at₅ : Session ℚ := (at₄.execute noFiles (.swing 0.5)).state
  let tempo : Occasion ℚ := ⟨freshSession, .move noFiles (.command (.tempo 90))⟩
  let edit : Occasion ℚ := ⟨at₁, .move noFiles (.edit kicks)⟩
  let wait : Occasion ℚ := ⟨at₂, .move noFiles (.clock (13 / 10))⟩
  let again : Occasion ℚ := ⟨at₃, .move noFiles (.edit snares)⟩
  let swing : Occasion ℚ := ⟨at₄, .move noFiles (.command (.swing 0.5))⟩
  have h₁ : Session.History freshSession [tempo] at₁ := .cons .nil rfl
  have h₂ : Session.History freshSession [edit, tempo] at₂ := h₁.cons rfl
  have h₃ : Session.History freshSession [wait, edit, tempo] at₃ := h₂.cons rfl
  have h₄ : Session.History freshSession [again, wait, edit, tempo] at₄ := h₃.cons rfl
  have h₅ : Session.History freshSession [swing, again, wait, edit, tempo] at₅ := h₄.cons rfl
  obtain ⟨hswap, hbar⟩ : (at₅.handover.process (8 / 3) at₅.transport).result = true ∧
      at₅.bar = 8 / 3 := by decide +kernel
  obtain ⟨w, hw, hrest⟩ := swap_onBar Timing.positive_standard h₅ hswap
  exact ⟨_, at₅, w, h₅, hswap, hw, hbar, hrest⟩

/-- **After a change of tempo a program need not be swapped in on a bar line of the tempo that is
played**: the snares wait for the bar line at two seconds, the tempo is halved, and they are swapped
in at two seconds, where a bar has four. -/
theorem swap_offBar : ∃ (occasions : List (Occasion ℚ)) (s : Session ℚ) (w : Waiting ℚ),
    Session.History freshSession occasions s ∧ s.handover.waiting = some w ∧
    (s.handover.process 2 s.transport).result = true ∧ ¬ ∃ k : ℤ, w.boundary = k * s.bar := by
  let at₁ : Session ℚ := (freshSession.evaluate kicks).state
  let at₂ : Session ℚ :=
    { at₁ with transport := { at₁.transport with output := at₁.transport.output.setClock (13 / 10) } }
  let at₃ : Session ℚ := (at₂.evaluate snares).state
  let at₄ : Session ℚ := (at₃.execute noFiles (.tempo 60)).state
  let edit : Occasion ℚ := ⟨freshSession, .move noFiles (.edit kicks)⟩
  let wait : Occasion ℚ := ⟨at₁, .move noFiles (.clock (13 / 10))⟩
  let again : Occasion ℚ := ⟨at₂, .move noFiles (.edit snares)⟩
  let tempo : Occasion ℚ := ⟨at₃, .move noFiles (.command (.tempo 60))⟩
  have h₁ : Session.History freshSession [edit] at₁ := .cons .nil rfl
  have h₂ : Session.History freshSession [wait, edit] at₂ := h₁.cons rfl
  have h₃ : Session.History freshSession [again, wait, edit] at₃ := h₂.cons rfl
  have h₄ : Session.History freshSession [tempo, again, wait, edit] at₄ := h₃.cons rfl
  obtain ⟨hswap, hboundary, hbar⟩ : (at₄.handover.process 2 at₄.transport).result = true ∧
      at₄.handover.waiting.map Waiting.boundary = some 2 ∧ at₄.bar = 4 := by decide +kernel
  obtain ⟨w, hw, hline⟩ := Option.map_eq_some_iff.1 hboundary
  refine ⟨_, at₄, w, h₄, hw, hswap, ?_⟩
  rintro ⟨k, hk⟩
  rw [hline, hbar] at hk
  have hmultiple : (2 : ℤ) = k * 4 := by exact_mod_cast hk
  omega

end RhythmLogic
