/-
**Histories of a session, and what three programs have to do with each other.**

A session holds a program in three places: the editor has the latest one that was accepted, the
transport has the one that plays, and one may wait in the handover.  Every operation moves programs
between these places in its own way, and the places are consistent only together with what happened
before: after a stop that drops a waiting program, the editor is ahead of the transport until the
next edit is accepted.

So a history is kept, with the session before each operation.  What an operation can do to the three
places is one of five things, and the invariant is preserved by each of them.

Main definitions:

* `Operation`, `Session.operate` — an operation on a session, and the session after it;
* `Session.History` — the operations that led to a session, the latest one first;
* `Session.accepted`, `Occasion.Cancels` — the program that an operation accepts, and a stop that
  drops a waiting program;
* `sinceAccepted` — what was done after the latest program was accepted;
* `Session.Change` — what an operation does to the three places.

Main results:

* `operate_change` — **every operation is one of the five changes**;
* `history_consistent` — how the three programs are related after every history.
-/

import RhythmLogic.Proofs.Seam

set_option autoImplicit false

namespace RhythmLogic

open Quantity

variable {α : Type}

/-! ### Operations -/

/-- **An operation on a session.**  The files are those that are there at the time. -/
inductive Operation (α : Type) where
  | move (read : FileReader) (m : Move α)
  | load (read : FileReader) (path : String)

namespace Operation

/-- The source that an operation evaluates, if it comes to evaluate one. -/
def source? : Operation α → Option String
  | move _ (.edit text) => some text
  | move _ (.command (.source text)) => some text
  | move read (.command (.play path)) => (read path).toOption
  | load read path => (read path).toOption
  | _ => none

/-- The transport is stopped. -/
def IsStop (op : Operation α) : Prop := ∃ read, op = move read (.command .stop)

variable {read : FileReader}

theorem isStop_move {m : Move α} : (move read m).IsStop ↔ m = .command .stop := by
  simp [IsStop]

theorem not_isStop_load {path : String} : ¬ (load read path : Operation α).IsStop := by
  simp [IsStop]

/-- The tempo is set. -/
def IsTempo (op : Operation α) : Prop := ∃ read bpm, op = move read (.command (.tempo bpm))

end Operation

/-- The program that an operation accepts, if it accepts one. -/
def Session.accepted (s : Session α) (op : Operation α) : Option Program :=
  op.source?.bind fun text => (s.editor.evaluate text).result.toOption

/-- **The session after an operation.** -/
def Session.operate [Quantity α] (s : Session α) : Operation α → Except Halt (Session α)
  | .move read m => s.move read m
  | .load read path => .ok (s.loadFile read path).state

/-! ### Histories -/

/-- An operation, and the session in which it was made. -/
structure Occasion (α : Type) where
  session : Session α
  operation : Operation α

/-- **A program waited, and a stop dropped it.** -/
def Occasion.Cancels (o : Occasion α) : Prop :=
  o.operation.IsStop ∧ o.session.handover.waiting.isSome = true

/-- **The operations that led from one session to another**, the latest one first. -/
inductive Session.History [Quantity α] (start : Session α) : List (Occasion α) → Session α → Prop where
  | nil : History start [] start
  | cons {occasions : List (Occasion α)} {s s' : Session α} {op : Operation α} :
      History start occasions s → s.operate op = .ok s' →
      History start (⟨s, op⟩ :: occasions) s'

/-- **What was done after the latest program was accepted.** -/
def sinceAccepted (occasions : List (Occasion α)) : List (Occasion α) :=
  occasions.takeWhile fun o => (o.session.accepted o.operation).isNone

section Since

variable {o : Occasion α} {occasions : List (Occasion α)}

theorem sinceAccepted_of_accepted {p : Program} (h : o.session.accepted o.operation = some p) :
    sinceAccepted (o :: occasions) = [] := by
  simp [sinceAccepted, h]

theorem sinceAccepted_of_none (h : o.session.accepted o.operation = none) :
    sinceAccepted (o :: occasions) = o :: sinceAccepted occasions := by
  simp [sinceAccepted, h]

end Since

/-! ### What an operation can do -/

variable [Quantity α]

-- what a text is read as is never computed below
attribute [local irreducible] readCompleted

namespace Editor

/-- **An edit** is refused and leaves the editor as it is, or becomes its program. -/
theorem evaluate_cases (s : Editor) (text : String) :
    (∃ e, (s.evaluate text).result = .error e ∧ (s.evaluate text).state = s) ∨
    ∃ p, (s.evaluate text).result = .ok p ∧ (s.evaluate text).state.program = some p := by
  unfold evaluate
  extract_lets code reading told
  clear_value told reading
  cases hresult : reading.result with
  | error e => exact .inl ⟨e, rfl, rfl⟩
  | ok p => exact .inr ⟨p, rfl, rfl⟩

end Editor

/-- **A program is handed over if one waits and its bar line has come**, and else nothing is
done. -/
theorem Handover.process_cases (h : Handover α) (now : α) (s : Transport α) :
    (∀ w, h.waiting = some w → isDue w now = false) ∧ h.process now s = ⟨(h, s), false, []⟩ ∨
    ∃ w, h.waiting = some w ∧ isDue w now = true ∧
      (h.process now s).state = (h.cancel, { s with program := some w.program }) ∧
      (h.process now s).result = true := by
  unfold process
  cases hwaiting : h.waiting with
  | none => exact .inl ⟨by simp, rfl⟩
  | some w =>
      dsimp only
      split
      · next hdue => exact .inr ⟨w, rfl, hdue, rfl, rfl⟩
      · next hdue =>
        refine .inl ⟨fun w' hw' => ?_, rfl⟩
        rwa [← Option.some.inj hw', ← Bool.not_eq_true]

namespace Session

variable {read : FileReader} {s s' : Session α} {op : Operation α} {text : String}

/-- **What an operation does** to the program of the editor, the one that plays and the one that
waits.  An operation accepts no program, or the one that is named. -/
inductive Change (s : Session α) (stops : Prop) : Option Program → Session α → Prop where
  /-- All three stay, and what runs goes on running. -/
  | idle {s' : Session α} : ¬ stops → s'.editor.program = s.editor.program →
      s'.handover.waiting = s.handover.waiting → s'.transport.program = s.transport.program →
      (s.transport.running = true → s'.transport.running = true) → Change s stops none s'
  /-- The accepted program plays, and none waits. -/
  | installed {s' : Session α} (p : Program) : s'.editor.program = some p →
      s'.handover.waiting = none → s'.transport.program = some p →
      s'.transport.running = true → Change s stops (some p) s'
  /-- The accepted program waits, and the one that plays plays on. -/
  | queued {s' : Session α} (p : Program) : s'.editor.program = some p →
      s'.handover.waiting = some ⟨p, nextBoundary s.transport.now
        (s.handover.barDuration s.transport)⟩ →
      s'.transport.program = s.transport.program → s.transport.program.isSome = true →
      s'.transport.running = true → Change s stops (some p) s'
  /-- The program that waits is dropped. -/
  | stopped {s' : Session α} : stops → s'.editor.program = s.editor.program →
      s'.handover.waiting = none → s'.transport.program = s.transport.program →
      Change s stops none s'
  /-- The program that waits plays. -/
  | handedOver {s' : Session α} (w : Waiting α) : ¬ stops → s.handover.waiting = some w →
      s'.editor.program = s.editor.program → s'.handover.waiting = none →
      s'.transport.program = some w.program →
      s'.transport.running = s.transport.running → Change s stops none s'

/-- A session that differs in nothing that matters. -/
theorem Change.refl {stops : Prop} (h : ¬ stops) (s : Session α) : Change s stops none s :=
  .idle h rfl rfl rfl id

/-- A program is installed, or waits for the next bar line. -/
theorem install_change {stops : Prop} {p : Program} (s : Session α) (editor : Editor)
    (h : editor.program = some p) :
    Change s stops (some p) (install { s with editor := editor } p).state := by
  unfold install
  split
  · next hplays =>
      obtain ⟨hruns, hprogram⟩ := Bool.and_eq_true_iff.1 hplays
      exact .queued p h rfl rfl hprogram hruns
  · dsimp only [Transport.setProgram]
    split
    · next hruns => exact .installed p h rfl rfl hruns
    · exact .installed p h rfl rfl rfl

theorem evaluate_change {stops : Prop} (h : ¬ stops) (s : Session α) (text : String) :
    Change s stops (s.editor.evaluate text).result.toOption (s.evaluate text).state := by
  obtain ⟨e, hresult, hstate⟩ | ⟨p, hresult, hprogram⟩ := s.editor.evaluate_cases text
  · rw [evaluate_refused hresult, hstate, hresult]
    exact .refl h s
  · rw [(evaluate_accepted hresult).1, hresult]
    exact install_change s _ hprogram

theorem loadFile_change {stops : Prop} (h : ¬ stops) (s : Session α) (read : FileReader)
    (path : String) :
    Change s stops ((read path).toOption.bind fun text =>
      (s.editor.evaluate text).result.toOption) (s.loadFile read path).state := by
  unfold loadFile
  cases read path with
  | error e => exact .refl h s
  | ok text => exact evaluate_change h s text

/-- A tick plays on, or hands the waiting program over. -/
theorem tick_change {stops : Prop} (h : ¬ stops) (read : FileReader) {now : α}
    (hmove : s.move read (.tick now) = .ok s') : Change s stops none s' := by
  obtain ⟨tick, htick, htransport, hhandover, heditor⟩ := move_tick hmove
  obtain ⟨output, memory, chance, beat, hstate⟩ := Transport.tickAt_state htick
  have hprogram : s'.transport.program =
      (s.handover.process now s.transport).state.2.program := by rw [htransport, hstate]
  have hruns : s'.transport.running =
      (s.handover.process now s.transport).state.2.running := by rw [htransport, hstate]
  have heditor : s'.editor.program = s.editor.program := by rw [heditor]
  obtain ⟨-, hprocess⟩ | ⟨w, hwaiting, -, hprocess, -⟩ :=
    s.handover.process_cases now s.transport
  all_goals rw [hprocess] at hprogram hruns hhandover
  · exact .idle h heditor (by rw [hhandover]) hprogram fun h => hruns.trans h
  · exact .handedOver w h hwaiting heditor (by rw [hhandover]; rfl) hprogram hruns

/-- **Every operation is one of these changes.** -/
theorem operate_change (h : s.operate op = .ok s') :
    Change s op.IsStop (s.accepted op) s' := by
  cases op with
  | load read path =>
      cases h
      exact loadFile_change Operation.not_isStop_load s read path
  | move read m =>
      have hno : m ≠ .command .stop → ¬ (Operation.move read m).IsStop :=
        mt Operation.isStop_move.1
      cases m with
      | edit text =>
          cases h
          exact evaluate_change (hno (by simp)) s text
      | clock time =>
          cases h
          exact .idle (hno (by simp)) rfl rfl rfl id
      | tick now => exact tick_change (hno (by simp)) read h
      | command c =>
          cases h
          cases c with
          | help | status | quit => exact .refl (hno (by simp)) s
          | tempo | swing => exact .idle (hno (by simp)) rfl rfl rfl id
          | play path => exact loadFile_change (hno (by simp)) s read path
          | stop => exact .stopped (Operation.isStop_move.2 rfl) rfl rfl rfl
          | start =>
              simp only [execute]
              split
              · exact .refl (hno (by simp)) s
              · exact .idle (hno (by simp)) rfl rfl rfl fun _ => rfl
          | source text => exact evaluate_change (hno (by simp)) s text

end Session

/-! ### How the three programs are related -/

/-- **The three places are consistent** with what was done after the latest program was accepted. -/
structure Session.Consistent (s : Session α) (recent : List (Occasion α)) : Prop where
  /-- A program that waits is that of the editor, and waits while another one plays. -/
  waiting : ∀ w, s.handover.waiting = some w → s.transport.running = true ∧
    s.transport.program.isSome = true ∧ s.editor.program = some w.program
  /-- Where no program waits, that of the editor plays, unless a stop dropped it. -/
  playing : s.handover.waiting = none → (∀ o ∈ recent, ¬ o.Cancels) →
    s.transport.program = s.editor.program
  /-- After such a stop the program plays that played before it. -/
  cancelled : ∀ o ∈ recent, o.Cancels → s.transport.program = o.session.transport.program
  /-- The program that waits was not dropped. -/
  kept : s.handover.waiting.isSome = true → ∀ o ∈ recent, ¬ o.Cancels

namespace Session.Consistent

variable {s s' : Session α} {op : Operation α} {recent : List (Occasion α)} {p : Program}

omit [Quantity α] in
/-- After an operation that is no stop, what was dropped is what was dropped before. -/
theorem cancels_cons (h : ¬ op.IsStop) {Q : Occasion α → Prop} :
    (∀ o ∈ ⟨s, op⟩ :: recent, o.Cancels → Q o) ↔ ∀ o ∈ recent, o.Cancels → Q o := by
  rw [List.forall_mem_cons]
  exact and_iff_right fun hcancels => absurd hcancels.1 h

/-- **What an operation keeps**, when it accepts no program. -/
theorem change_none (hs : s.Consistent recent) (h : Change s op.IsStop none s') :
    s'.Consistent (⟨s, op⟩ :: recent) := by
  cases h with
  | idle hstop heditor hwaiting hprogram hruns =>
      constructor
      case waiting =>
        intro w hw
        obtain ⟨hrun, hsome, hcurrent⟩ := hs.waiting w (hwaiting ▸ hw)
        exact ⟨hruns hrun, hprogram ▸ hsome, heditor.trans hcurrent⟩
      case playing =>
        intro hnone hkept
        rw [hprogram, heditor]
        exact hs.playing (hwaiting ▸ hnone) ((cancels_cons hstop).1 hkept)
      case cancelled => exact (cancels_cons hstop).2 (hprogram ▸ hs.cancelled)
      case kept => exact fun hsome => (cancels_cons hstop).2 (hs.kept (hwaiting ▸ hsome))
  | stopped _ heditor hwaiting hprogram =>
      constructor
      case waiting =>
        intro w hw
        rw [hwaiting] at hw
        cases hw
      case playing =>
        intro _ hkept
        obtain ⟨hlast, hkept⟩ := List.forall_mem_cons.1 hkept
        -- a stop that dropped nothing met no program that waits
        have hnone : s.handover.waiting = none := by
          cases hw : s.handover.waiting with
          | none => rfl
          | some w => exact absurd ⟨‹_›, by rw [hw]; rfl⟩ hlast
        rw [hprogram, heditor]
        exact hs.playing hnone hkept
      case cancelled =>
        rw [hprogram]
        exact List.forall_mem_cons.2 ⟨fun _ => rfl, hs.cancelled⟩
      case kept =>
        intro hsome
        rw [hwaiting] at hsome
        cases hsome
  | handedOver w hstop hw heditor hwaiting hprogram hruns =>
      have hkept := (cancels_cons hstop (s := s)).2 (hs.kept (by rw [hw]; rfl))
      constructor
      case waiting =>
        intro w hw
        rw [hwaiting] at hw
        cases hw
      case playing =>
        intro _ _
        rw [hprogram, heditor, (hs.waiting w hw).2.2]
      case cancelled => exact fun o ho hcancels => absurd hcancels (hkept o ho)
      case kept =>
        intro hsome
        rw [hwaiting] at hsome
        cases hsome

/-- **After a program was accepted** nothing that was done before matters. -/
theorem of_change_some {stops : Prop} (h : Change s stops (some p) s') : s'.Consistent [] := by
  cases h with
  | installed _ heditor hwaiting hprogram hruns =>
      refine ⟨fun w hw => ?_, fun _ _ => hprogram.trans heditor.symm, by simp, by simp⟩
      rw [hwaiting] at hw
      cases hw
  | queued _ heditor hwaiting hprogram hplays hruns =>
      refine ⟨fun w hw => ?_, fun hnone => ?_, by simp, by simp⟩
      · rw [hwaiting] at hw
        cases hw
        exact ⟨hruns, hprogram ▸ hplays, heditor⟩
      · rw [hwaiting] at hnone
        cases hnone

end Session.Consistent

/-- **In every history the three places are consistent**, by induction on the operations. -/
theorem Session.History.consistent {transport : Transport α} {handover : Handover α}
    {occasions : List (Occasion α)} {s : Session α} (ht : transport.program = none)
    (hh : handover.waiting = none) (h : History (.new transport handover) occasions s) :
    s.Consistent (sinceAccepted occasions) := by
  induction h with
  | nil =>
      refine ⟨fun w hw => ?_, fun _ _ => ht, by simp [sinceAccepted], by simp [sinceAccepted]⟩
      cases hh.symm.trans hw
  | @cons occasions s s' op _ hop ih =>
      have hchange := operate_change hop
      cases haccepted : s.accepted op with
      | none =>
          rw [sinceAccepted_of_none haccepted]
          exact ih.change_none (haccepted ▸ hchange)
      | some p =>
          rw [sinceAccepted_of_accepted haccepted]
          exact .of_change_some (haccepted ▸ hchange)

/-- **The editor, the handover and the transport stay consistent.**  After every history of a new
session whose transport had no program yet:

* a program that waits is the one that was accepted last, and waits while the transport runs and has
  a program;
* where none waits, the one that was accepted last is that of the transport, unless a stop dropped
  it after it was accepted;
* after such a stop the transport has the program that it had at the stop. -/
theorem history_consistent {transport : Transport α} {handover : Handover α}
    {occasions : List (Occasion α)} {s : Session α} (ht : transport.program = none)
    (hh : handover.waiting = none) (h : Session.History (.new transport handover) occasions s) :
    (∀ w, s.handover.waiting = some w → s.transport.running = true ∧
      s.transport.program.isSome = true ∧ s.editor.program = some w.program) ∧
    (s.handover.waiting = none → (∀ o ∈ sinceAccepted occasions, ¬ o.Cancels) →
      s.transport.program = s.editor.program) ∧
    ∀ o ∈ sinceAccepted occasions, o.Cancels →
      s.transport.program = o.session.transport.program := by
  have hs := h.consistent ht hh
  exact ⟨hs.waiting, hs.playing, hs.cancelled⟩

/-- The snares are to become the program while the kicks play, and the transport is stopped and
started before they do. -/
theorem history_consistent_stopped : ∃ (occasions : List (Occasion Float)) (s : Session Float),
    Session.History freshSession occasions s ∧ (∃ o ∈ sinceAccepted occasions, o.Cancels) ∧
    s.transport.program.map Program.text = some (kicks ++ "\n") ∧
    s.editor.program.map Program.text = some (snares ++ "\n") ∧
    (∀ w, s.handover.waiting = some w → s.transport.running = true ∧
      s.transport.program.isSome = true ∧ s.editor.program = some w.program) ∧
    (s.handover.waiting = none → (∀ o ∈ sinceAccepted occasions, ¬ o.Cancels) →
      s.transport.program = s.editor.program) ∧
    ∀ o ∈ sinceAccepted occasions, o.Cancels →
      s.transport.program = o.session.transport.program := by
  let at₁ : Session Float := (freshSession.evaluate kicks).state
  let at₂ : Session Float :=
    { at₁ with transport := { at₁.transport with output := at₁.transport.output.setClock 1.3 } }
  let at₃ : Session Float := (at₂.evaluate snares).state
  let at₄ : Session Float := (at₃.execute noFiles .stop).state
  let at₅ : Session Float := (at₄.execute noFiles .start).state
  let edit : Occasion Float := ⟨freshSession, .move noFiles (.edit kicks)⟩
  let wait : Occasion Float := ⟨at₁, .move noFiles (.clock 1.3)⟩
  let again : Occasion Float := ⟨at₂, .move noFiles (.edit snares)⟩
  let stop : Occasion Float := ⟨at₃, .move noFiles (.command .stop)⟩
  let start : Occasion Float := ⟨at₄, .move noFiles (.command .start)⟩
  have h₁ : Session.History freshSession [edit] at₁ := .cons .nil rfl
  have h₂ : Session.History freshSession [wait, edit] at₂ := h₁.cons rfl
  have h₃ : Session.History freshSession [again, wait, edit] at₃ := h₂.cons rfl
  have h₄ : Session.History freshSession [stop, again, wait, edit] at₄ := h₃.cons rfl
  have h₅ : Session.History freshSession [start, stop, again, wait, edit] at₅ := h₄.cons rfl
  have hstop : stop.Cancels := ⟨⟨noFiles, rfl⟩, by decide +kernel⟩
  refine ⟨_, at₅, h₅, ⟨stop, ?_, hstop⟩, by decide +kernel, by decide +kernel,
    history_consistent rfl rfl h₅⟩
  rw [sinceAccepted_of_none rfl, sinceAccepted_of_none rfl]
  exact List.mem_cons_of_mem _ List.mem_cons_self

end RhythmLogic
