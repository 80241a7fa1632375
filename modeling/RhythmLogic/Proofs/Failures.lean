/-
**Operations that fail, and what is seen of a run without them.**

An edit fails below a chain of three stateful parts: the file is not there, the text has no tokens,
its tokens are no program, or a head is no predicate.  Notices are told and listeners are notified
on the way, so that a failure does not pass unseen.  What must not happen is that it is seen in
anything that comes later.

Whether an operation fails is a matter of its text and of its files alone, and never of the session.
So the operations that fail can be left out of a run before it starts.

Main definitions:

* `Answer`, `Session.perform` — what an operation answers, beside the session after it;
* `Operation.refusal?` — the error that an operation fails with, if it fails;
* `Report`, `record` — what a host sees of an operation, and of a run.

Main results:

* `perform_operate` — the answers come beside what an operation does;
* `perform_goesBy` — **an operation that is refused fails and leaves the session**, and any other
  does not fail;
* `failures_leave_no_trace` — all that is seen of the other operations is what would be seen of a
  run of these alone.
-/

import RhythmLogic.Proofs.Histories

set_option autoImplicit false

namespace RhythmLogic

variable {α : Type}

/-! ### Operations that are refused -/

/-- What evaluating a text is refused with, if it is refused. -/
def refusalOf (text : String) : Option SessionError :=
  match (readCompleted (completed text)).result with
  | .error e => some (.parse e)
  | .ok _ => none

/-- What evaluating a file is refused with, if it is refused. -/
def fileRefusal (read : FileReader) (path : String) : Option SessionError :=
  match read path with
  | .error e => some (.file path e)
  | .ok text => refusalOf text

/-- What a command is refused with, if it is refused. -/
def Command.refusal? (read : FileReader) : Command → Option SessionError
  | .play path => fileRefusal read path
  | .source text => refusalOf text
  | _ => none

/-- **What an operation is refused with**, if it is refused.  Only edits and files are. -/
def Operation.refusal? : Operation α → Option SessionError
  | move _ (.edit text) => refusalOf text
  | move read (.command c) => c.refusal? read
  | load read path => fileRefusal read path
  | _ => none

/-! ### Answers and reports -/

/-- What an operation answers. -/
inductive Answer (α : Type) where
  /-- An edit or a file was accepted. -/
  | installed (when : Install α)
  | replied (reply : Reply α)
  /-- The clock of the output was set. -/
  | clocked
  /-- A tick sent this many notes. -/
  | ticked (notes : Nat)

/-- **What is seen of an operation**: its answer or its error, what is signalled on the way, and the
status after it. -/
structure Report (α : Type) where
  answer : Except SessionError (Answer α)
  signals : List Signal
  status : Status α

/-- A step with its result among the answers. -/
def Step.answering {ρ : Type} (step : Step (Session α) (Except SessionError ρ)) (f : ρ → Answer α) :
    Step (Session α) (Except SessionError (Answer α)) :=
  ⟨step.state, step.result.map f, step.signals⟩

/-- Signals that play nothing: no note reaches the output, and no beat is told. -/
def Soundless (signals : List Signal) : Prop :=
  Signal.notes signals = [] ∧ Signal.beats signals = []

/-- **A step that goes by a refusal**: it fails with the refusal, plays nothing and leaves the
session as it is; without a refusal it does not fail. -/
structure Step.GoesBy {ρ : Type} (step : Step (Session α) (Except SessionError ρ))
    (refusal : Option SessionError) (s : Session α) : Prop where
  refused : ∀ e, refusal = some e →
    step.result = .error e ∧ step.state = s ∧ Soundless step.signals
  accepted : refusal = none → ∃ r, step.result = .ok r

namespace Step.GoesBy

variable {ρ σ : Type} {step : Step (Session α) (Except SessionError ρ)} {s : Session α}
  {refusal : Option SessionError}

/-- A step that does not fail. -/
theorem of_ok {r : ρ} (h : step.result = .ok r) : step.GoesBy none s :=
  ⟨nofun, fun _ => ⟨r, h⟩⟩

/-- **A step fails only as it is refused.** -/
theorem of_error (h : step.GoesBy refusal s) {e : SessionError} (he : step.result = .error e) :
    refusal = some e ∧ step.state = s ∧ Soundless step.signals := by
  cases refusal with
  | none =>
      obtain ⟨r, hr⟩ := h.accepted rfl
      rw [hr] at he
      cases he
  | some e' =>
      obtain ⟨hresult, hrest⟩ := h.refused e' rfl
      rw [hresult] at he
      cases he
      exact ⟨rfl, hrest⟩

/-- The same step with another result. -/
theorem map (h : step.GoesBy refusal s) (f : ρ → σ) :
    GoesBy ⟨step.state, step.result.map f, step.signals⟩ refusal s := by
  constructor
  case refused =>
    intro e he
    obtain ⟨hresult, hrest⟩ := h.refused e he
    exact ⟨by rw [hresult]; rfl, hrest⟩
  case accepted =>
    intro hnone
    obtain ⟨r, hr⟩ := h.accepted hnone
    exact ⟨f r, by rw [hr]; rfl⟩

/-- A notice comes first, and plays nothing. -/
theorem noticed (h : step.GoesBy refusal s) (n : Notice) :
    GoesBy { step with signals := .notice n :: step.signals } refusal s :=
  ⟨h.refused, h.accepted⟩

end Step.GoesBy

variable [Quantity α]

-- what a text is read as is never computed below
attribute [local irreducible] readCompleted

/-- An editor tells notices and outcomes only. -/
theorem Editor.soundless_evaluate (s : Editor) (text : String) :
    Soundless (s.evaluate text).signals := by
  unfold evaluate
  extract_lets code reading told
  clear_value reading
  split <;> simp [Soundless, Signal.notes, Signal.beats, told, notify, List.filterMap_map]

/-- What an edit comes to is a matter of its text alone. -/
theorem Editor.result_evaluate (s : Editor) (text : String) :
    (s.evaluate text).result = (readCompleted (completed text)).result := by
  unfold evaluate
  extract_lets code reading told
  have hreading : readCompleted (completed text) = reading := rfl
  rw [hreading]
  clear_value told reading
  cases hresult : reading.result <;> rfl

namespace Session

/-! ### Edits and files -/

theorem evaluate_goesBy (s : Session α) (text : String) :
    (s.evaluate text).GoesBy (refusalOf text) s := by
  unfold refusalOf
  rw [← s.editor.result_evaluate]
  have hquiet := s.editor.soundless_evaluate text
  have hcases := s.editor.evaluate_cases text
  unfold evaluate
  generalize s.editor.evaluate text = edit at hquiet hcases ⊢
  obtain ⟨editor, result, signals⟩ := edit
  cases result with
  | ok p => exact .of_ok rfl
  | error e =>
      obtain ⟨_, _, hstate⟩ | ⟨_, hresult, _⟩ := hcases
      · subst hstate
        exact ⟨fun _ h => by cases h; exact ⟨rfl, rfl, hquiet⟩, nofun⟩
      · cases hresult

theorem loadFile_goesBy (s : Session α) (read : FileReader) (path : String) :
    (s.loadFile read path).GoesBy (fileRefusal read path) s := by
  unfold loadFile fileRefusal
  cases read path with
  | error e => exact ⟨fun _ h => by cases h; exact ⟨rfl, rfl, rfl, rfl⟩, nofun⟩
  | ok text => exact (evaluate_goesBy s text).noticed _

theorem execute_goesBy (s : Session α) (read : FileReader) (c : Command) :
    (s.execute read c).GoesBy (c.refusal? read) s := by
  cases c with
  | help | status | quit | tempo | swing | stop => exact .of_ok rfl
  | start =>
      simp only [execute]
      split <;> exact .of_ok rfl
  | play path => exact (loadFile_goesBy s read path).map _
  | source text => exact (evaluate_goesBy s text).map _

/-! ### Operations and runs -/

/-- **An operation with what it answers.** -/
def perform (s : Session α) :
    Operation α → Except Halt (Step (Session α) (Except SessionError (Answer α)))
  | .move _ (.edit text) => .ok ((s.evaluate text).answering .installed)
  | .move read (.command c) => .ok ((s.execute read c).answering .replied)
  | .move _ (.clock time) =>
      .ok ⟨{ s with transport := { s.transport with output := s.transport.output.setClock time } },
        .ok .clocked, []⟩
  | .move _ (.tick now) =>
      (s.tickAt now).map fun tick => ⟨tick.state, .ok (.ticked tick.result), tick.signals⟩
  | .load read path => .ok ((s.loadFile read path).answering .installed)

/-- An operation leads where it leads without its answer. -/
theorem perform_operate (s : Session α) (op : Operation α) :
    (s.perform op).map Step.state = s.operate op := by
  cases op with
  | load read path => rfl
  | move read m =>
      cases m with
      | edit text | command c | clock time => rfl
      | tick now =>
          simp only [perform, operate, move]
          cases s.tickAt now <;> rfl

/-- **What is seen of a run**: a report of every operation up to one that halts, and the session in
which the run ends. -/
def record : List (Operation α) → Session α → List (Report α) × Except Halt (Session α)
  | [], s => ([], .ok s)
  | op :: rest, s =>
      match s.perform op with
      | .error h => ([], .error h)
      | .ok step =>
          let later := record rest step.state
          (⟨step.result, step.signals, step.state.status⟩ :: later.1, later.2)

/-- **Every operation goes by its refusal**; one that is not refused may halt. -/
theorem perform_goesBy {s : Session α} {op : Operation α}
    {step : Step (Session α) (Except SessionError (Answer α))} (h : s.perform op = .ok step) :
    step.GoesBy op.refusal? s := by
  cases op with
  | load read path =>
      cases h
      exact (loadFile_goesBy s read path).map _
  | move read m =>
      cases m with
      | edit text =>
          cases h
          exact (evaluate_goesBy s text).map _
      | command c =>
          cases h
          exact (execute_goesBy s read c).map _
      | clock time =>
          cases h
          exact .of_ok rfl
      | tick now =>
          simp only [perform] at h
          cases htick : s.tickAt now with
          | error halt =>
              rw [htick] at h
              cases h
          | ok tick =>
              rw [htick] at h
              cases h
              exact .of_ok rfl

/-- An operation that is refused does not halt. -/
theorem exists_perform {op : Operation α} {e : SessionError} (h : op.refusal? = some e)
    (s : Session α) : ∃ step, s.perform op = .ok step := by
  cases op with
  | load read path => exact ⟨_, rfl⟩
  | move read m =>
      cases m with
      | edit text | clock time | command c => exact ⟨_, rfl⟩
      | tick now => cases h

/-- **Operations that are refused can be left out**: the others are seen as they are seen without
them, and the run ends as it ends without them.  By induction on the operations; a refused one leads
back to the session that it met. -/
theorem record_filter (ops : List (Operation α)) (s : Session α) :
    record (ops.filter fun op => op.refusal?.isNone) s =
      ((record ops s).1.filter fun r => r.answer.isOk, (record ops s).2) := by
  induction ops generalizing s with
  | nil => rfl
  | cons op rest ih =>
      cases hrefusal : op.refusal? with
      | some e =>
          obtain ⟨step, hstep⟩ := exists_perform hrefusal s
          obtain ⟨hresult, hstate, -⟩ := (perform_goesBy hstep).refused e hrefusal
          rw [List.filter_cons_of_neg (by simp [hrefusal]), ih]
          simp [record, hstep, hresult, hstate, Except.isOk, Except.toBool]
      | none =>
          rw [List.filter_cons_of_pos (by simp [hrefusal])]
          simp only [record]
          cases hstep : s.perform op with
          | error h => rfl
          | ok step =>
              obtain ⟨r, hr⟩ := (perform_goesBy hstep).accepted hrefusal
              simp [ih, hr, Except.isOk, Except.toBool]

end Session

open Session in
/-- **A failing operation leaves no trace.**  In every session:

* an edit, a file or a command with an error leaves the whole session as it is;
* an operation fails exactly with its refusal, which its text and its files decide alone, and plays
  nothing while it fails;
* of every run, whatever is edited, commanded and ticked in it, the operations that are refused can
  be left out: the others give the same answers, signals and statuses, and the run ends alike. -/
theorem failures_leave_no_trace (s : Session α) :
    (∀ text e, (s.evaluate text).result = .error e → (s.evaluate text).state = s) ∧
    (∀ read path e, (s.loadFile read path).result = .error e →
      (s.loadFile read path).state = s) ∧
    (∀ read c e, (s.execute read c).result = .error e → (s.execute read c).state = s) ∧
    (∀ op step e, s.perform op = .ok step → (step.result = .error e ↔ op.refusal? = some e) ∧
      (step.result = .error e → Soundless step.signals)) ∧
    ∀ ops, record (ops.filter fun op => op.refusal?.isNone) s =
      ((record ops s).1.filter fun r => r.answer.isOk, (record ops s).2) := by
  refine ⟨?edits, ?files, ?commands, ?refusals, ?runs⟩
  case edits => exact fun text e he => ((evaluate_goesBy s text).of_error he).2.1
  case files => exact fun read path e he => ((loadFile_goesBy s read path).of_error he).2.1
  case commands => exact fun read c e he => ((execute_goesBy s read c).of_error he).2.1
  case refusals =>
    intro op step e hstep
    have hgoes := perform_goesBy hstep
    exact ⟨⟨fun he => (hgoes.of_error he).1, fun he => (hgoes.refused e he).1⟩,
      fun he => (hgoes.of_error he).2.2⟩
  case runs => exact fun ops => record_filter ops s

/-- While the kicks play, a text without an end, a head that is a number and a file that is not
there are refused, and the tick that follows sends its notes. -/
theorem failures_leave_no_trace_kicks :
    let ops : List (Operation Float) := [.move noFiles (.edit kicks),
      .move noFiles (.edit "event(snare"), .move noFiles (.command (.source "3 :- beat(1).")),
      .load noFiles "snares.rl", .move noFiles (.tick 0)]
    ((Session.record ops freshSession).1.map fun r => r.answer.isOk) =
        [true, false, false, false, true] ∧
      ((Session.record ops freshSession).1.map fun r => (Signal.notes r.signals).length) =
        [0, 0, 0, 0, 1] ∧
      Session.record (ops.filter fun op => op.refusal?.isNone) freshSession =
        ((Session.record ops freshSession).1.filter fun r => r.answer.isOk,
          (Session.record ops freshSession).2) := by
  intro ops
  have hanswers : ((Session.record ops freshSession).1.map fun r => r.answer.isOk) =
      [true, false, false, false, true] := by decide +kernel
  have hnotes : ((Session.record ops freshSession).1.map fun r =>
      (Signal.notes r.signals).length) = [0, 0, 0, 0, 1] := by decide +kernel
  exact ⟨hanswers, hnotes, (failures_leave_no_trace freshSession).2.2.2.2 ops⟩

end RhythmLogic
