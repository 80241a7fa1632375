/-
**Runs of a session: what a host does, one thing after the other.**

A host edits, gives commands, lets the clock of the output go on, and ticks.  A run collects what
its ticks asked.  Most of what a host does leaves alone what plays: an edit that cannot be read, and
the commands that only look, change nothing that a later tick depends on.

Main definitions:

* `Move`, `Move.Quiet` — what a host does, and what of it leaves alone what plays;
* `Session.move`, `Session.asks`, `Session.run` — the session after it, and what was asked.

Main results:

* `move_quiet` — a quiet move that is no tick changes the output only;
* `evaluate_atBoundary` — an edit that is to wait for a bar line waits, and what plays plays on;
* `move_positive` — whatever a host does, the settings stay positive.
-/

import RhythmLogic.Proofs.Grid
import RhythmLogic.Proofs.Ticks
import RhythmLogic.Session

set_option autoImplicit false

namespace RhythmLogic

/-! ### Moves -/

/-- What a host does with a session. -/
inductive Move (α : Type) where
  | edit (text : String)
  | command (c : Command)
  /-- The clock of the output goes on. -/
  | clock (time : α)
  | tick (now : α)

/-- The time of a tick. -/
def Move.tick? {α : Type} : Move α → Option α
  | .tick now => some now
  | _ => none

/-- The times of the ticks among some moves. -/
def tickTimes {α : Type} (moves : List (Move α)) : List α := moves.filterMap Move.tick?

-- what a text is read as is never computed below
attribute [local irreducible] readCompleted

/-- A text that cannot be read. -/
def Unreadable (text : String) : Prop := ∃ e, (readCompleted (completed text)).result = .error e

/-- A command that leaves alone what plays, if something plays. -/
def Command.Quiet (read : FileReader) : Command → Prop
  | .help | .start | .status | .quit => True
  | .tempo _ | .swing _ | .stop => False
  | .play path => ∀ text, read path = .ok text → Unreadable text
  | .source text => Unreadable text

/-- **A move without an accepted edit** and without a change of tempo, swing or transport. -/
def Move.Quiet {α : Type} (read : FileReader) : Move α → Prop
  | .edit text => Unreadable text
  | .command c => c.Quiet read
  | .clock _ | .tick _ => True

/-- An editor refuses what cannot be read, and stays as it is. -/
theorem Editor.evaluate_unreadable {text : String} (h : Unreadable text) (s : Editor) :
    ∃ e, (s.evaluate text).state = s ∧ (s.evaluate text).result = .error e := by
  obtain ⟨e, he⟩ := h
  unfold Editor.evaluate
  extract_lets code reading told
  -- what is read is not looked at any further
  have hresult : reading.result = .error e := he
  clear_value reading
  rw [hresult]
  exact ⟨e, rfl, rfl⟩

/-! ### Runs -/

namespace Session

section Runs

variable {α : Type} [Quantity α]

/-- The session after a move. -/
def move (read : FileReader) (s : Session α) : Move α → Except Halt (Session α)
  | .edit text => .ok (s.evaluate text).state
  | .command c => .ok (s.execute read c).state
  | .clock time =>
      .ok { s with transport := { s.transport with output := s.transport.output.setClock time } }
  | .tick now => (s.tickAt now).map Step.state

/-- **What a move asks**: a tick asks the program that plays after a program that is due was handed
over. -/
def asks (s : Session α) : Move α → List (Asking α)
  | .tick now => (s.handover.process now s.transport).state.2.asks now
  | _ => []

/-- **A run**: the session after some moves, and what their ticks asked. -/
def run (read : FileReader) : List (Move α) → Session α → Except Halt (Session α × List (Asking α))
  | [], s => .ok (s, [])
  | m :: rest, s =>
      match s.move read m with
      | .error h => .error h
      | .ok next =>
          match run read rest next with
          | .error h => .error h
          | .ok (last, asked) => .ok (last, s.asks m ++ asked)

variable {read : FileReader} {m : Move α} {moves : List (Move α)} {s s' : Session α}
  {asked : List (Asking α)} {text : String}

theorem run_cons : s.run read (m :: moves) = .ok (s', asked) ↔
    ∃ next more, s.move read m = .ok next ∧ next.run read moves = .ok (s', more) ∧
      asked = s.asks m ++ more := by
  simp only [run]
  constructor
  · intro h
    split at h
    · cases h
    next next hnext =>
    split at h
    · cases h
    next last more hmore =>
    cases h
    exact ⟨next, more, hnext, hmore, rfl⟩
  · rintro ⟨next, more, hnext, hmore, rfl⟩
    simp only [hnext, hmore]

/-! ### What plays -/

/-- An edit that is refused leaves alone all but the editor. -/
theorem evaluate_refused {e : ParseError} (he : (s.editor.evaluate text).result = .error e) :
    (s.evaluate text).state = { s with editor := (s.editor.evaluate text).state } := by
  unfold evaluate
  generalize s.editor.evaluate text = edit at he ⊢
  obtain ⟨editor, result, signals⟩ := edit
  cases he
  rfl

/-- **An edit that is accepted is installed.** -/
theorem evaluate_accepted {p : Program} (hp : (s.editor.evaluate text).result = .ok p) :
    (s.evaluate text).state =
        (install { s with editor := (s.editor.evaluate text).state } p).state ∧
      (s.evaluate text).result =
        .ok (install { s with editor := (s.editor.evaluate text).state } p).result := by
  unfold evaluate
  generalize s.editor.evaluate text = edit at hp ⊢
  obtain ⟨editor, result, signals⟩ := edit
  cases hp
  exact ⟨rfl, rfl⟩

/-- An edit that cannot be read changes nothing. -/
theorem evaluate_unreadable (h : Unreadable text) (s : Session α) :
    (s.evaluate text).state = s := by
  obtain ⟨e, hstate, hresult⟩ := s.editor.evaluate_unreadable h
  rw [evaluate_refused hresult, hstate]

theorem loadFile_unreadable {path : String} (h : ∀ text, read path = .ok text → Unreadable text)
    (s : Session α) : (s.loadFile read path).state = s := by
  unfold loadFile
  cases hread : read path with
  | error e => rfl
  | ok text => exact evaluate_unreadable (h text hread) s

/-- **A quiet move that is no tick** changes nothing but the output, if something plays. -/
theorem move_quiet (hquiet : m.Quiet read) (hruns : s.transport.running = true)
    (ha : m.tick? = none) (h : s.move read m = .ok s') :
    s'.handover = s.handover ∧
      ∃ output, s'.transport = { s.transport with output := output } := by
  have hsame : ∀ {t : Session α}, t = s → t.handover = s.handover ∧
      ∃ output, t.transport = { s.transport with output := output } := by
    rintro _ rfl
    exact ⟨rfl, _, rfl⟩
  cases m with
  | edit text =>
      rw [← Except.ok.inj h]
      exact hsame (evaluate_unreadable hquiet s)
  | clock time =>
      rw [← Except.ok.inj h]
      exact ⟨rfl, _, rfl⟩
  | tick now => cases ha
  | command c =>
      rw [← Except.ok.inj h]
      cases c with
      | help | status | quit => exact hsame rfl
      | tempo | swing | stop => exact hquiet.elim
      | start =>
          rw [execute, if_pos hruns]
          exact hsame rfl
      | play path => exact hsame (loadFile_unreadable hquiet s)
      | source text => exact hsame (evaluate_unreadable hquiet s)

/-- A program that is to wait for a bar line waits, and what plays plays on. -/
theorem install_atBoundary {p : Program} {boundary : α}
    (h : (s.install p).result = .atBoundary boundary) :
    s.transport.running = true ∧ (s.install p).state.transport = s.transport ∧
      (s.install p).state.handover.waiting = some ⟨p, boundary⟩ := by
  unfold install at h ⊢
  split at h
  · next hplays =>
      rw [if_pos hplays]
      cases h
      exact ⟨(Bool.and_eq_true_iff.1 hplays).1, rfl, rfl⟩
  · cases h

/-- **An edit that is to wait for a bar line** waits for it, and what plays plays on. -/
theorem evaluate_atBoundary {p : Program} {boundary : α}
    (hp : (s.editor.evaluate text).result = .ok p)
    (h : (s.evaluate text).result = .ok (.atBoundary boundary)) :
    s.transport.running = true ∧ (s.evaluate text).state.transport = s.transport ∧
      (s.evaluate text).state.handover.waiting = some ⟨p, boundary⟩ := by
  obtain ⟨hstate, hresult⟩ := evaluate_accepted hp
  rw [hstate]
  exact install_atBoundary (Except.ok.inj (hresult.symm.trans h))

/-- A tick of the session is a tick of the transport, after a program that is due took over. -/
theorem move_tick {now : α} (h : s.move read (.tick now) = .ok s') :
    ∃ tick, (s.handover.process now s.transport).state.2.tickAt now = .ok tick ∧
      s'.transport = tick.state ∧ s'.handover = (s.handover.process now s.transport).state.1 ∧
      s'.editor = s.editor := by
  simp only [move, tickAt] at h
  split at h
  · cases h
  next tick htick =>
  cases h
  exact ⟨tick, htick, rfl, rfl, rfl⟩

end Runs

/-! ### Settings -/

variable {read : FileReader} {m : Move ℚ} {s s' : Session ℚ}

theorem install_timing (s : Session ℚ) (p : Program) :
    (s.install p).state.transport.timing = s.transport.timing := by
  unfold install
  split
  · rfl
  · dsimp only [Transport.setProgram]
    split <;> rfl

theorem evaluate_timing (s : Session ℚ) (text : String) :
    (s.evaluate text).state.transport.timing = s.transport.timing := by
  cases hresult : (s.editor.evaluate text).result with
  | error e => rw [evaluate_refused hresult]
  | ok p => rw [(evaluate_accepted hresult).1, install_timing]

/-- A program that takes over changes the program only. -/
theorem process_state (h : Handover ℚ) (now : ℚ) (s : Transport ℚ) :
    ∃ program, (h.process now s).state.2 = { s with program := program } := by
  simp only [Handover.process]
  split
  · exact ⟨s.program, rfl⟩
  · split
    · exact ⟨_, rfl⟩
    · exact ⟨s.program, rfl⟩

/-- **Whatever a host does, the settings stay positive.** -/
theorem move_positive (hs : s.transport.timing.Positive) (h : s.move read m = .ok s') :
    s'.transport.timing.Positive := by
  have hedit : ∀ text, (s.evaluate text).state.transport.timing.Positive := fun text => by
    rw [evaluate_timing]
    exact hs
  cases m with
  | edit text =>
      cases h
      exact hedit text
  | clock time =>
      cases h
      exact hs
  | tick now =>
      obtain ⟨tick, htick, hstate, -, -⟩ := move_tick h
      obtain ⟨program, hprogram⟩ := process_state s.handover now s.transport
      obtain ⟨output, memory, chance, beat, htransport⟩ := Transport.tickAt_state htick
      rw [hstate, htransport, hprogram]
      exact hs
  | command c =>
      cases h
      cases c with
      | help | status | quit => exact hs
      | tempo bpm => exact hs.configure _ _ _ _
      | swing amount => exact hs.configure _ _ _ _
      | stop => exact hs
      | start =>
          simp only [execute]
          split <;> exact hs
      | play path =>
          simp only [execute, editing, loadFile]
          split
          · exact hs
          · exact hedit _
      | source text => exact hedit text

/-- In a run the settings stay positive. -/
theorem run_positive {moves : List (Move ℚ)} {asked : List (Asking ℚ)}
    (hs : s.transport.timing.Positive) (h : s.run read moves = .ok (s', asked)) :
    s'.transport.timing.Positive := by
  induction moves generalizing s asked with
  | nil =>
      cases h
      exact hs
  | cons m moves ih =>
      obtain ⟨next, more, hmove, hmore, -⟩ := run_cons.1 h
      exact ih (move_positive hs hmove) hmore

end Session

end RhythmLogic
