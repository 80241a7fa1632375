/-
**The editor and its last good source.**

An editor keeps a text and a program, and evaluating is the only thing that changes them.  What is
kept is not what was typed: the text is completed, and it is completed once more before it is read.
The two stay coherent because completing is done after the first time: the text that is kept is read
as the program that is kept, after every history of edits, good or bad, with listeners that come and
go between them.

Listeners are told every edit, those that fail too.  Who is told is a matter of who stays
subscribed, and not of what was told before.

Main definitions:

* `Editor.Action`, `Editor.act`, `Editor.run` — an edit or an enrolment, and the editor after some;
* `Editor.Coherent` — **the text that is kept is read as the program that is kept**.

Main results:

* `coherent_act`, `coherent_run` — no action breaks coherence, and no run does;
* `listeners_run` — a run enrols listeners as its enrolments say;
* `validations_evaluate` — an edit is told to every listener once;
* `editor_coherent` — **coherence and who is told, after every run**.
-/

import RhythmLogic.Proofs.FinalPeriod
import RhythmLogic.Proofs.Subscriptions

set_option autoImplicit false

namespace RhythmLogic.Editor

/-! ### Actions -/

/-- **What happens to an editor**: a text is evaluated, a listener subscribes, or one is removed. -/
inductive Action where
  | evaluate (text : String)
  | subscribe (listener : Nat)
  | unsubscribe (handle : Nat)

/-- An action on listeners. -/
def Action.enrolment? : Action → Option (Enrolment Nat)
  | evaluate _ => none
  | subscribe listener => some (.join listener)
  | unsubscribe handle => some (.leave handle)

/-- The editor after an action. -/
def act (s : Editor) : Action → Editor
  | .evaluate text => (s.evaluate text).state
  | .subscribe listener => { s with listeners := (s.listeners.add listener).2 }
  | .unsubscribe handle => { s with listeners := (s.listeners.remove handle).2 }

/-- **The editor after some actions**, from the start. -/
def run (actions : List Action) : Editor := actions.foldl act .new

/-- **The text that is kept is read as the program that is kept**, if there is one, and it is
complete. -/
def Coherent (s : Editor) : Prop :=
  ∀ p, s.program = some p → completed s.code = s.code ∧ (readCompleted s.code).result = .ok p

-- what a text is read as is never computed below
attribute [local irreducible] readCompleted

/-! ### Edits -/

section Evaluate

variable (s : Editor) (text : String)

/-- **The editor after an edit**: the text is kept, completed, with its program, or nothing is
changed. -/
theorem state_evaluate : (s.evaluate text).state =
    match (readCompleted text).result with
    | .ok p => { s with code := completed text, program := some p }
    | .error _ => s := by
  rw [← result_evaluate_eq text s]
  unfold evaluate
  extract_lets code reading told
  clear_value told reading
  cases reading.result <;> rfl

theorem validations_notices (told : List Notice) (signals : List Signal) :
    Signal.validations (told.map Signal.notice ++ signals) = Signal.validations signals := by
  simp [Signal.validations, List.filterMap_append, List.filterMap_map]

theorem validations_notify (event : Validation) :
    Signal.validations (s.notify event) = s.listeners.tags.map fun listener => (listener, event) := by
  simp [Signal.validations, notify, List.filterMap_map]

/-- **An edit is told to every listener once**, in the order in which they came, with its completed
text and what it came to. -/
theorem validations_evaluate : Signal.validations (s.evaluate text).signals =
    s.listeners.tags.map fun listener =>
      (listener, ⟨completed text, (s.evaluate text).result⟩) := by
  unfold evaluate
  extract_lets code reading told
  -- a notice, of whatever kind, comes before what the listeners are told
  have htold : ∀ n event, Signal.validations (told ++ .notice n :: s.notify event) =
      s.listeners.tags.map fun listener => (listener, event) := by
    intro n event
    rw [validations_notices]
    exact validations_notify s event
  clear_value told reading
  cases reading.result <;> exact htold _ _

theorem listeners_evaluate : (s.evaluate text).state.listeners = s.listeners := by
  rw [state_evaluate]
  split <;> rfl

end Evaluate

/-! ### Runs -/

variable {s : Editor}

/-- **No action breaks coherence.** -/
theorem coherent_act (h : s.Coherent) (action : Action) : (s.act action).Coherent := by
  cases action with
  | evaluate text =>
      rw [act, state_evaluate]
      split
      · next p hp =>
        rintro _ ⟨⟩
        refine ⟨completed_completed text, ?_⟩
        rwa [readCompleted_eq, completed_completed, ← readCompleted_eq]
      · exact h
  | subscribe listener => exact h
  | unsubscribe handle => exact h

theorem coherent_run (actions : List Action) : (run actions).Coherent := by
  induction actions using List.reverseRecOn with
  | nil => exact nofun
  | append_singleton actions action ih =>
      rw [run, List.foldl_append]
      exact coherent_act ih action

/-- **A run enrols listeners as its enrolments say**, whatever is evaluated between them. -/
theorem listeners_run (actions : List Action) :
    (run actions).listeners = Subscribers.empty.after (actions.filterMap Action.enrolment?) := by
  induction actions using List.reverseRecOn with
  | nil => rfl
  | append_singleton actions action ih =>
      have hstep : run (actions ++ [action]) = (run actions).act action := List.foldl_append
      have henrol : ∀ more, Subscribers.empty.after
          (actions.filterMap Action.enrolment? ++ more) = (run actions).listeners.after more := by
        intro more
        rw [ih]
        exact List.foldl_append
      rw [hstep, List.filterMap_append, henrol]
      cases action with
      | evaluate text => exact listeners_evaluate _ text
      | subscribe listener => rfl
      | unsubscribe handle => rfl

/-- Evaluating the text of a coherent editor once more changes nothing. -/
theorem Coherent.evaluate_code (h : s.Coherent) {p : Program} (hp : s.program = some p) :
    (s.evaluate s.code).result = .ok p ∧ (s.evaluate s.code).state = s := by
  obtain ⟨hcode, hread⟩ := h p hp
  refine ⟨(result_evaluate_eq s.code s).trans hread, ?_⟩
  rw [state_evaluate, hread]
  dsimp only
  rw [hcode, ← hp]

/-- **The editor is coherent with its last good source.**  After any run of edits and enrolments, a
program that is held is what the text that is held is read as, and evaluating that text once more
gives this program and leaves the editor as it is.  As long as fewer than `2 ^ 32 - 1` listeners
came, no two of them have one handle.  An edit that fails leaves the editor as it is,
and one that does not is held from then on.  Each edit is told exactly once to everyone who came and
was not removed since, in the order in which they came, with the completed text and with what the
edit came to; the edit is told as a success just if it did not fail, and just then there is a program
with it, and no error. -/
theorem editor_coherent (actions : List Action) :
    let s := run actions
    let enrolled := staying 1 (actions.filterMap Action.enrolment?)
    (∀ p, s.program = some p → (readCompleted s.code).result = .ok p ∧
      (s.evaluate s.code).result = .ok p ∧ (s.evaluate s.code).state = s) ∧
    ((actions.filterMap Action.enrolment?).countP Enrolment.joins < 2 ^ 32 - 1 →
      enrolled.Pairwise fun a b => a.1 < b.1) ∧
    ∀ text,
      (∀ e, (s.evaluate text).result = .error e → (s.evaluate text).state = s) ∧
      (∀ p, (s.evaluate text).result = .ok p →
        (s.evaluate text).state = { s with code := completed text, program := some p }) ∧
      ∃ event : Validation,
        Signal.validations (s.evaluate text).signals =
          enrolled.map (fun entry => (entry.2, event)) ∧
        event.text = completed text ∧
        event.program? = (s.evaluate text).result.toOption ∧
        (event.success = true ↔ ∃ p, (s.evaluate text).result = .ok p) ∧
        event.program?.isSome = event.success ∧ event.error?.isNone = event.success := by
  intro s enrolled
  have hcoherent : s.Coherent := coherent_run actions
  have htags : s.listeners.tags = enrolled.map (·.2) := by
    rw [Subscribers.tags, listeners_run, Subscribers.entries_after]
    rfl
  refine ⟨fun p hp => ⟨(hcoherent p hp).2, hcoherent.evaluate_code hp⟩,
    fun hjoins => staying_pairwise (by omega),
    fun text => ⟨?_, ?_, ⟨completed text, (s.evaluate text).result⟩, ?_⟩⟩
  · intro e he
    rw [state_evaluate, ← result_evaluate_eq text s, he]
  · intro p hp
    rw [state_evaluate, ← result_evaluate_eq text s, hp]
  · refine ⟨by rw [validations_evaluate, htags, List.map_map]; rfl, rfl, ?_⟩
    -- an outcome is a program or an error
    cases (s.evaluate text).result <;>
      simp [Validation.program?, Validation.error?, Validation.success, Except.toOption]

/-- Two listeners come and the first one is removed; an edit is accepted and the next one is not,
and a third listener comes. -/
theorem editor_coherent_secondEdit :
    let s := run [.subscribe 7, .subscribe 8, .evaluate " a. b\n", .unsubscribe 1, .evaluate "c(.",
      .subscribe 9]
    ∃ p e event, s.program = some p ∧ p.text = "a.\nb.\n" ∧ s.code = "a. b." ∧
      (readCompleted s.code).result = .ok p ∧ (s.evaluate s.code).state = s ∧
      (s.evaluate "c(.").result = .error e ∧ (s.evaluate "c(.").state = s ∧
      Signal.validations (s.evaluate "c(.").signals = [(8, event), (9, event)] ∧
      event.program?.isSome = false := by
  intro s
  have hprogram : s.program.map Program.text = some "a.\nb.\n" := by decide +kernel
  have hcode : s.code = "a. b." := by decide +kernel
  have hfails : (s.evaluate "c(.").result.toOption.isNone = true := by decide +kernel
  obtain ⟨p, hp, htext⟩ := Option.map_eq_some_iff.1 hprogram
  obtain ⟨hheld, -, hedits⟩ := editor_coherent [.subscribe 7, .subscribe 8, .evaluate " a. b\n",
    .unsubscribe 1, .evaluate "c(.", .subscribe 9]
  obtain ⟨hread, -, hagain⟩ := hheld p hp
  obtain ⟨hrefused, -, event, htold, -, houtcome, -⟩ := hedits "c(."
  cases hresult : (s.evaluate "c(.").result with
  | ok p' => simp [hresult, Except.toOption] at hfails
  | error e =>
      refine ⟨p, e, event, hp, htext, hcode, hread, hagain, rfl, hrefused e hresult, htold, ?_⟩
      have hnone : event.program? = none := by rw [houtcome, hresult]; rfl
      rw [hnone]
      rfl

end RhythmLogic.Editor
