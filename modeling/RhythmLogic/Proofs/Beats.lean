/-
**What a listener hears of the beat.**

A listener is told a number when a tick comes to another beat than the one before it, and zero when
the transport stops.  Ticks may come at any times, so that the beat jumps over some numbers or goes
back; and other listeners come and go in between.  None of this matters to one listener: from the
moment it comes to the moment its handle is removed it hears the beats that the transport takes, as
they can be read off the states of the transport alone, and nothing before or after.

So there are two histories to follow.  The states of the transport give the beats, and the enrolments
give the table of those who are told.  They do not touch each other: no action but an enrolment
changes the table, and no enrolment tells anything.

Main definitions:

* `Transport.Use`, `Transport.use`, `Transport.uses` — what a host does, listeners included, and the
  signals that it observes;
* `Transport.changes` — **the beats that a transport takes**;
* `Transport.heardBy` — the numbers that one listener is told;
* `Transport.handles`, `Transport.joins` — the handles that are given, and how many there are.

Main results:

* `Transport.use_told` — one action: who is told what, and who is there after it;
* `Transport.isChain_changes` — no beat is taken twice in a row between two stops;
* `Transport.heardBy_enrolled` — one who stays hears all that the transport takes;
* `Transport.beats_of_lifetime` — **handles, order and what is heard**, in every history.
-/

import RhythmLogic.CommandLine.Mixer
import RhythmLogic.Proofs.Subscriptions
import RhythmLogic.Proofs.Velocities

set_option autoImplicit false

namespace RhythmLogic

open Quantity

/-! ### Which signals are beats -/

namespace Signal

@[simp] theorem beats_nil : beats [] = [] := rfl

@[simp] theorem beats_append (first more : List Signal) :
    beats (first ++ more) = beats first ++ beats more := List.filterMap_append

@[simp] theorem beats_cons_notice (n : Notice) (signals : List Signal) :
    beats (.notice n :: signals) = beats signals := rfl

@[simp] theorem beats_notices (found : List Notice) : beats (found.map .notice) = [] := by
  induction found with
  | nil => rfl
  | cons n found ih => exact ih

end Signal

namespace Transport

section

variable {α : Type}

/-- **Everyone who is subscribed is told a beat**, in the order in which they came. -/
theorem beats_notifyBeat (s : Transport α) (number : ℤ) :
    Signal.beats (s.notifyBeat number) = s.listeners.tags.map (·, number) := by
  simp [notifyBeat, Signal.beats, List.filterMap_map]

theorem beats_play (note : Trigger) (output : Output α) :
    Signal.beats (output.play note).2 = [] := by
  cases output <;> rfl

theorem beats_playAll (time sounding : Float) (found : List Bindings) (output : Output α)
    (fired : ℕ) : Signal.beats (playAll time sounding found output fired).2.2 = [] := by
  induction found generalizing output fired with
  | nil => rfl
  | cons e found ih =>
      cases he : noteOf time sounding e with
      | error n =>
          simp only [playAll, he, Signal.beats_cons_notice]
          exact ih output fired
      | ok note =>
          simp only [playAll, he, Signal.beats_append, beats_play, List.nil_append]
          exact ih _ _

theorem beats_init [Quantity α] (output : Output α) : Signal.beats output.init.2 = [] := by
  cases output <;> rfl

end

variable {α : Type} [Quantity α]

theorem beats_dispatch {s : Transport α} {p : Program} {t : α} {played : Step (Transport α) ℕ}
    (h : dispatch s p t = .ok played) : Signal.beats played.signals = [] := by
  simp only [dispatch] at h
  split at h
  · cases h
  · cases h
    rw [Signal.beats_append, Signal.beats_notices, beats_playAll, List.append_nil]

end Transport

/-- Grid times tell no beat. -/
theorem Dispatches.beats {α : Type} [Quantity α] {asked : List (Asking α)} {s : Transport α}
    {played : Step (Transport α) ℕ} (h : Dispatches asked s played) :
    Signal.beats played.signals = [] := by
  induction h with
  | nil => rfl
  | cons hfirst _ ih => rw [Signal.beats_append, Transport.beats_dispatch hfirst, ih, List.append_nil]

namespace Transport

variable {α : Type} [Quantity α]

/-- A tick of a transport that stands does nothing. -/
theorem tickAt_of_stands {s : Transport α} (hstands : s.running = false) (now : α) :
    s.tickAt now = .ok ⟨s, 0, []⟩ := by
  simp [tickAt, hstands]

/-- **A tick of a transport that runs** comes to the beat of its time, and tells it if it is another
one than before. -/
theorem tickAt_of_runs {s : Transport α} {now : α} {tick : Step (Transport α) ℕ}
    (hruns : s.running = true) (h : s.tickAt now = .ok tick) :
    tick.state.beat = floor (now / s.timing.beatDuration) ∧
      Signal.beats tick.signals = Signal.beats (s.crossing now) := by
  cases hp : s.program with
  | none =>
      simp only [tickAt, hruns, hp] at h
      cases h
      exact ⟨rfl, rfl⟩
  | some p =>
  rw [tickAt_of_plays hruns hp] at h
  split at h
  · cases h
  next times _ =>
  cases hplayed : dispatchAll p times { s with beat := floor (now / s.timing.beatDuration) } with
  | error cause =>
      rw [hplayed] at h
      cases h
  | ok played =>
  rw [hplayed] at h
  cases h
  have hdispatches := dispatchAll_dispatches now hplayed
  obtain ⟨output, memory, chance, hstate⟩ := hdispatches.state
  refine ⟨by rw [hstate], ?_⟩
  rw [Signal.beats_append, hdispatches.beats, List.append_nil]

/-! ### What a host does -/

/-- **What a host does with a transport and those who listen to it.** -/
inductive Use (α : Type) where
  | start
  | stop
  | tick (now : α)
  | configure (bpm swing lookahead grid : α)
  | setBpm (bpm : α)
  | setSwing (swing : α)
  | setProgram (p : Program)
  | clearProgram
  /-- Puts other parts in the place of those that have nothing to do with the beat. -/
  | replace (output : Output α) (builtins : BuiltinTable) (memory : Memory) (chance : Chance)
      (maxDepth : ℕ)
  | enrol (e : Enrolment ℕ)

/-- The transport after an action, and what is observed of it. -/
def use (s : Transport α) : Use α → Except Halt (Transport α × List Signal)
  | .start => .ok s.start
  | .stop => .ok s.stop
  | .tick now => (s.tickAt now).map fun tick => (tick.state, tick.signals)
  | .configure bpm swing lookahead grid => .ok (s.configure bpm swing lookahead grid)
  | .setBpm bpm => .ok (s.setBpm bpm)
  | .setSwing swing => .ok (s.setSwing swing)
  | .setProgram p => .ok (s.setProgram p)
  | .clearProgram => .ok (s.clearProgram, [])
  | .replace output builtins memory chance maxDepth =>
      .ok ({ s with
        output := output, builtins := builtins, memory := memory, chance := chance,
        maxDepth := maxDepth }, [])
  | .enrol e => .ok ({ s with listeners := s.listeners.enrol e }, [])

/-- The transport after several actions, and what is observed of them. -/
def uses : List (Use α) → Transport α → Except Halt (Transport α × List Signal)
  | [], s => .ok (s, [])
  | u :: rest, s =>
      match s.use u with
      | .error h => .error h
      | .ok (next, told) =>
          match uses rest next with
          | .error h => .error h
          | .ok (last, more) => .ok (last, told ++ more)

namespace Use

omit [Quantity α]

/-- Someone comes, or a handle is removed. -/
def enrolment? : Use α → Option (Enrolment ℕ)
  | enrol e => some e
  | _ => none

/-- The transport is stopped. -/
def isStop : Use α → Bool
  | stop => true
  | _ => false

/-- **The beat that is taken by an action**, from the states before and after it: zero at a stop, and
at a tick of a transport that runs the new beat, if it is another one. -/
def beat? (s next : Transport α) : Use α → Option ℤ
  | stop => some 0
  | tick _ => if s.running ∧ next.beat ≠ s.beat then some next.beat else none
  | _ => none

/-- The handle that is given by an action. -/
def handle? (s : Transport α) : Use α → Option ℕ
  | enrol (.join tag) => some (s.listeners.add tag).1
  | _ => none

end Use

/-- **The beats that a transport takes** in a history. -/
def changes : List (Use α) → Transport α → List ℤ
  | [], _ => []
  | u :: rest, s =>
      match s.use u with
      | .error _ => []
      | .ok (next, _) => (u.beat? s next).toList ++ changes rest next

/-- **The handles that are given** in a history. -/
def handles : List (Use α) → Transport α → List ℕ
  | [], _ => []
  | u :: rest, s =>
      match s.use u with
      | .error _ => []
      | .ok (next, _) => (u.handle? s).toList ++ handles rest next

omit [Quantity α] in
/-- The enrolments in a history. -/
def enrolments (us : List (Use α)) : List (Enrolment ℕ) := us.filterMap Use.enrolment?

omit [Quantity α] in
/-- How many came in a history. -/
def joins (us : List (Use α)) : ℕ := (enrolments us).countP Enrolment.joins

/-- **The numbers that one listener is told.** -/
def heardBy (listener : ℕ) (signals : List Signal) : List ℤ :=
  (Signal.beats signals).filterMap fun (other, number) =>
    if other = listener then some number else none

/-! ### One action -/

section Step

variable {s next last : Transport α} {u : Use α} {us more : List (Use α)}
  {told signals : List Signal} {listener : ℕ}

/-- **One action.**  The table changes by enrolments only; and if a beat is taken then everyone who
was there before the action is told it, in order, and else nobody is told anything. -/
theorem use_told (h : s.use u = .ok (next, told)) :
    next.listeners = s.listeners.after u.enrolment?.toList ∧
    Signal.beats told =
      (u.beat? s next).toList.flatMap fun number => s.listeners.tags.map (·, number) := by
  cases u with
  | start =>
      cases h
      refine ⟨rfl, ?_⟩
      change Signal.beats (s.output.init.2 ++ [.notice (.started (toFloat s.timing.bpm))]) = []
      rw [Signal.beats_append, beats_init]
      rfl
  | stop =>
      cases h
      refine ⟨rfl, ?_⟩
      change Signal.beats (s.notifyBeat 0) = s.listeners.tags.map (·, 0) ++ []
      rw [beats_notifyBeat, List.append_nil]
  | tick now =>
      rcases htick : s.tickAt now with cause | tick
      · rw [use, htick] at h
        cases h
      rw [use, htick] at h
      cases h
      obtain ⟨output, memory, chance, beat, hstate⟩ := tickAt_state htick
      refine ⟨by rw [hstate]; rfl, ?_⟩
      cases hruns : s.running with
      | false =>
          rw [tickAt_of_stands hruns] at htick
          cases htick
          simp [Use.beat?, hruns]
      | true =>
          obtain ⟨hbeat, hbeats⟩ := tickAt_of_runs hruns htick
          rw [hbeats, crossing, ← hbeat]
          by_cases hnew : tick.state.beat = s.beat
          · simp [Use.beat?, hnew]
          · simp [Use.beat?, hnew, hruns, beats_notifyBeat]
  | enrol e =>
      cases h
      exact ⟨rfl, rfl⟩
  | configure | setBpm | setSwing | setProgram | clearProgram | replace =>
      cases h
      exact ⟨rfl, rfl⟩

/-- What is taken by an action is the beat after it; one that takes nothing, and is no stop, leaves
the beat as it was; and a beat that is taken by no stop is another one than before. -/
theorem use_beat (h : s.use u = .ok (next, told)) :
    next.beat = (u.beat? s next).getD s.beat ∧
      (u.isStop = false → u.beat? s next ≠ some s.beat) := by
  cases u with
  | stop =>
      cases h
      exact ⟨rfl, fun hstop => Bool.noConfusion hstop⟩
  | tick now =>
      rcases htick : s.tickAt now with cause | tick
      · rw [use, htick] at h
        cases h
      rw [use, htick] at h
      cases h
      cases hruns : s.running with
      | false =>
          rw [tickAt_of_stands hruns] at htick
          cases htick
          simp [Use.beat?, hruns]
      | true =>
          by_cases hnew : tick.state.beat = s.beat <;> simp [Use.beat?, hnew, hruns]
  | start | enrol | configure | setBpm | setSwing | setProgram | clearProgram | replace =>
      cases h
      exact ⟨rfl, fun _ => nofun⟩

/-! ### Histories -/

theorem uses_cons (h : uses (u :: us) s = .ok (last, signals)) : ∃ next told more,
    s.use u = .ok (next, told) ∧ uses us next = .ok (last, more) ∧ signals = told ++ more := by
  simp only [uses] at h
  split at h
  · cases h
  next next told hu =>
  split at h
  · cases h
  next rest hrest =>
  cases h
  exact ⟨next, told, _, hu, hrest, rfl⟩

/-- A history in two parts. -/
theorem uses_append (h : uses (us ++ more) s = .ok (last, signals)) : ∃ next told after,
    uses us s = .ok (next, told) ∧ uses more next = .ok (last, after) ∧ signals = told ++ after := by
  induction us generalizing s signals with
  | nil => exact ⟨s, [], signals, rfl, h, rfl⟩
  | cons u us ih =>
      obtain ⟨next, told, rest, hu, hrest, rfl⟩ := uses_cons h
      obtain ⟨middle, told', after, hus, hmore, rfl⟩ := ih hrest
      refine ⟨middle, told ++ told', after, ?_, hmore, (List.append_assoc ..).symm⟩
      simp only [uses, hu, hus]

theorem changes_cons (hu : s.use u = .ok (next, told)) (us : List (Use α)) :
    changes (u :: us) s = (u.beat? s next).toList ++ changes us next := by
  simp only [changes, hu]

theorem changes_append (h : uses us s = .ok (next, told)) (more : List (Use α)) :
    changes (us ++ more) s = changes us s ++ changes more next := by
  induction us generalizing s told with
  | nil =>
      cases h
      rfl
  | cons u us ih =>
      obtain ⟨middle, _, _, hu, hus, -⟩ := uses_cons h
      rw [List.cons_append, changes_cons hu, changes_cons hu, ih hus, List.append_assoc]

omit [Quantity α] in
theorem enrolments_cons (u : Use α) (us : List (Use α)) :
    enrolments (u :: us) = u.enrolment?.toList ++ enrolments us := by
  cases h : u.enrolment? <;> simp [enrolments, h]

/-- **Who is there after a history** is told by its enrolments. -/
theorem listeners_uses (h : uses us s = .ok (last, signals)) :
    last.listeners = s.listeners.after (enrolments us) := by
  induction us generalizing s signals with
  | nil =>
      cases h
      rfl
  | cons u us ih =>
      obtain ⟨next, told, more, hu, hus, -⟩ := uses_cons h
      rw [ih hus, (use_told hu).1, enrolments_cons]
      exact (List.foldl_append ..).symm

/-- **No beat is taken twice in a row between two stops.** -/
theorem isChain_changes (hstop : ∀ u ∈ us, u.isStop = false) (s : Transport α) :
    (s.beat :: changes us s).IsChain (· ≠ ·) := by
  induction us generalizing s with
  | nil => exact .singleton _
  | cons u us ih =>
      rcases hu : s.use u with cause | ⟨next, told⟩
      · simp only [changes, hu]
        exact .singleton _
      have hrest := ih (fun v hv => hstop v (.tail _ hv)) next
      obtain ⟨hbeat, hnew⟩ := use_beat hu
      rw [changes_cons hu]
      cases htaken : u.beat? s next with
      | none =>
          rw [htaken, Option.getD_none] at hbeat
          rwa [hbeat] at hrest
      | some number =>
          rw [htaken, Option.getD_some] at hbeat
          rw [hbeat] at hrest
          refine List.isChain_cons_cons.2 ⟨?_, hrest⟩
          rintro rfl
          exact hnew (hstop u (.head _)) htaken

/-! ### Handles -/

omit [Quantity α] in
theorem joins_cons (u : Use α) (us : List (Use α)) :
    joins (u :: us) = (u.handle? s).toList.length + joins us := by
  rw [joins, enrolments_cons, List.countP_append, ← joins]
  rcases u with _ | _ | _ | _ | _ | _ | _ | _ | _ | (_ | _) <;> rfl

omit [Quantity α] in
theorem joins_append (us more : List (Use α)) : joins (us ++ more) = joins us + joins more := by
  rw [joins, enrolments, List.filterMap_append, List.countP_append]
  rfl

omit [Quantity α] in
/-- The handle that is given is the next one. -/
theorem handle_eq {handle : ℕ} (h : u.handle? s = some handle) : handle = s.listeners.next := by
  rcases u with _ | _ | _ | _ | _ | _ | _ | _ | _ | (_ | _) <;> cases h
  rfl

/-- An action that gives a handle leaves the one after it as the next one. -/
theorem next_use (h : s.use u = .ok (next, told))
    (hbound : s.listeners.next + (u.handle? s).toList.length < 2 ^ 32) :
    next.listeners.next = s.listeners.next + (u.handle? s).toList.length := by
  rw [(use_told h).1]
  rcases u with _ | _ | _ | _ | _ | _ | _ | _ | _ | (tag | handle)
  case enrol.join => exact Subscribers.following_of_lt hbound
  all_goals rfl

/-- **Handles are given one after the other**, whoever is removed in between, as long as there are
some to give. -/
theorem handles_uses (h : uses us s = .ok (last, signals))
    (hbound : s.listeners.next + joins us < 2 ^ 32) :
    handles us s = List.range' s.listeners.next (joins us) ∧
      last.listeners.next = s.listeners.next + joins us := by
  induction us generalizing s signals with
  | nil =>
      cases h
      exact ⟨rfl, rfl⟩
  | cons u us ih =>
      obtain ⟨next, told, more, hu, hus, -⟩ := uses_cons h
      have hstep := next_use hu (by rw [joins_cons (s := s)] at hbound; omega)
      rw [joins_cons (s := s)] at hbound ⊢
      obtain ⟨hgiven, hnext⟩ := ih hus (by omega)
      refine ⟨?_, by omega⟩
      simp only [handles, hu, hgiven, hstep]
      cases hhandle : u.handle? s with
      | none => simp
      | some handle =>
          obtain rfl := handle_eq hhandle
          simp [Nat.add_comm 1, List.range'_succ]

/-! ### What one listener hears -/

theorem heardBy_append (listener : ℕ) (first more : List Signal) :
    heardBy listener (first ++ more) = heardBy listener first ++ heardBy listener more := by
  rw [heardBy, Signal.beats_append, List.filterMap_append]
  rfl

/-- The entries of one listener. -/
def entriesOf (s : Transport α) (listener : ℕ) : List (ℕ × ℕ) :=
  s.listeners.entries.filter fun entry => entry.2 == listener

/-- At one action a listener hears the beat that is taken, once for each of its entries. -/
theorem heardBy_use (h : s.use u = .ok (next, told)) (listener : ℕ) : heardBy listener told =
    (u.beat? s next).toList.flatMap fun number => (s.entriesOf listener).map fun _ => number := by
  rw [heardBy, (use_told h).2]
  cases u.beat? s next with
  | none => rfl
  | some number =>
      simp only [Option.toList_some, List.flatMap_singleton, Subscribers.tags, List.map_map,
        List.filterMap_map, entriesOf]
      induction s.listeners.entries with
      | nil => rfl
      | cons entry entries ih =>
          by_cases hentry : entry.2 = listener <;> simp_all

/-- An enrolment changes the entries of one listener if it comes, or if its handle is removed. -/
theorem entriesOf_use (h : s.use u = .ok (next, told)) (listener : ℕ)
    (hjoin : u.enrolment? ≠ some (.join listener)) : next.entriesOf listener =
      (s.entriesOf listener).filter fun entry =>
        !u.enrolment?.toList.any (Enrolment.leaves entry.1) := by
  have hcame : (staying s.listeners.next u.enrolment?.toList).filter
      (fun entry => entry.2 == listener) = [] := by
    rcases he : u.enrolment? with _ | (tag | handle)
    · rfl
    · have htag : tag ≠ listener := by
        rintro rfl
        exact hjoin he
      simp [staying, htag]
    · rfl
  rw [entriesOf, (use_told h).1, Subscribers.entries_after, List.filter_append, hcame,
    List.append_nil, List.filter_filter, entriesOf, List.filter_filter]
  exact List.filter_congr fun entry _ => Bool.and_comm ..

/-- **One who is not there hears nothing**, unless it comes. -/
theorem heardBy_absent (h : uses us s = .ok (last, signals)) (listener : ℕ)
    (habsent : s.entriesOf listener = []) (hjoin : .join listener ∉ enrolments us) :
    heardBy listener signals = [] ∧ last.entriesOf listener = [] := by
  induction us generalizing s signals with
  | nil =>
      cases h
      exact ⟨rfl, habsent⟩
  | cons u us ih =>
      obtain ⟨next, told, more, hu, hus, rfl⟩ := uses_cons h
      rw [enrolments_cons, List.mem_append, Option.mem_toList, not_or] at hjoin
      have hnext := entriesOf_use hu listener hjoin.1
      rw [habsent, List.filter_nil] at hnext
      obtain ⟨hrest, hlast⟩ := ih hus hnext hjoin.2
      rw [heardBy_append, hrest, heardBy_use hu, habsent]
      exact ⟨by cases u.beat? s next <;> rfl, hlast⟩

/-- **One who stays hears all that the transport takes.** -/
theorem heardBy_enrolled {handle : ℕ} (h : uses us s = .ok (last, signals))
    (hthere : s.entriesOf listener = [(handle, listener)])
    (hjoin : .join listener ∉ enrolments us) (hleave : .leave handle ∉ enrolments us) :
    heardBy listener signals = changes us s ∧ last.entriesOf listener = [(handle, listener)] := by
  induction us generalizing s signals with
  | nil =>
      cases h
      exact ⟨rfl, hthere⟩
  | cons u us ih =>
      obtain ⟨next, told, more, hu, hus, rfl⟩ := uses_cons h
      rw [enrolments_cons, List.mem_append, Option.mem_toList, not_or] at hjoin hleave
      have hnext := entriesOf_use hu listener hjoin.1
      have hkept : u.enrolment?.toList.any (Enrolment.leaves handle) = false := by
        rcases he : u.enrolment? with _ | (tag | other)
        · rfl
        · rfl
        · have hother : other ≠ handle := by
            rintro rfl
            exact hleave.1 he
          simpa [Enrolment.leaves] using hother
      rw [hthere, List.filter_singleton, hkept] at hnext
      obtain ⟨hrest, hlast⟩ := ih hus hnext hjoin.2 hleave.2
      rw [heardBy_append, hrest, heardBy_use hu, hthere, changes_cons hu]
      exact ⟨by cases u.beat? s next <;> rfl, hlast⟩

/-- One whose handle is removed now, or of whom nothing follows, hears nothing more. -/
theorem heardBy_gone {handle : ℕ} (h : uses us s = .ok (last, signals))
    (hthere : s.entriesOf listener = [(handle, listener)])
    (hend : us = [] ∨ ∃ rest, us = .enrol (.leave handle) :: rest)
    (hjoin : .join listener ∉ enrolments us) : heardBy listener signals = [] := by
  rcases hend with rfl | ⟨rest, rfl⟩
  · cases h
    rfl
  · obtain ⟨next, told, more, hremove, hrest, rfl⟩ := uses_cons h
    rw [enrolments_cons, List.mem_append, not_or] at hjoin
    have hgone := entriesOf_use hremove listener nofun
    rw [hthere, List.filter_singleton] at hgone
    have habsent : next.entriesOf listener = [] := by
      simpa [Use.enrolment?, Enrolment.leaves] using hgone
    rw [heardBy_append, (heardBy_absent hrest listener habsent hjoin.2).1, List.append_nil]
    cases hremove
    rfl

omit [Quantity α] in
/-- The transport with one more listener. -/
def enter (s : Transport α) (listener : ℕ) : Transport α :=
  { s with listeners := (s.listeners.add listener).2 }

/-- **A lifetime.**  One who comes now hears what is taken until its handle is removed. -/
theorem heardBy_lifetime {during after : List (Use α)}
    (h : uses (.enrol (.join listener) :: (during ++ after)) s = .ok (last, signals))
    (habsent : s.entriesOf listener = []) (hjoin : .join listener ∉ enrolments (during ++ after))
    (hleave : .leave (s.listeners.add listener).1 ∉ enrolments during)
    (hend : after = [] ∨ ∃ rest, after = .enrol (.leave (s.listeners.add listener).1) :: rest) :
    (∃ middle told, uses during (s.enter listener) = .ok (middle, told)) ∧
      heardBy listener signals = changes during (s.enter listener) := by
  obtain ⟨next, told₁, _, hcome, hthen, rfl⟩ := uses_cons h
  cases hcome
  obtain ⟨middle, told₂, told₃, hduring, hafter, rfl⟩ := uses_append hthen
  change uses during (s.enter listener) = _ at hduring
  have hthere : (s.enter listener).entriesOf listener =
      [((s.listeners.add listener).1, listener)] := by
    rw [entriesOf] at habsent
    simp [enter, entriesOf, Subscribers.add, List.filter_append, habsent]
  rw [enrolments, List.filterMap_append, List.mem_append, not_or] at hjoin
  obtain ⟨hheard, hstill⟩ := heardBy_enrolled hduring hthere hjoin.1 hleave
  refine ⟨⟨middle, told₂, hduring⟩, ?_⟩
  rw [List.nil_append, heardBy_append, hheard, heardBy_gone hafter hstill hend hjoin.2,
    List.append_nil]

/-- **Between two stops** no beat is taken twice in a row. -/
theorem changes_quiet {first quiet rest : List (Use α)}
    (h : uses (first ++ (quiet ++ rest)) s = .ok (last, signals))
    (hquiet : ∀ u ∈ quiet, u.isStop = false) : ∃ next told later,
      uses first s = .ok (next, told) ∧
      changes (first ++ (quiet ++ rest)) s = changes first s ++ (changes quiet next ++ later) ∧
      (next.beat :: changes quiet next).IsChain (· ≠ ·) := by
  obtain ⟨next, told, _, hfirst, hmore, -⟩ := uses_append h
  obtain ⟨after, _, _, hafter, -, -⟩ := uses_append hmore
  refine ⟨next, told, changes rest after, hfirst, ?_, isChain_changes hquiet next⟩
  rw [changes_append hfirst, changes_append hafter]

/-- Those who are there after a history of a new transport. -/
theorem entries_of_uses_new [Generator] {output : Output α} {builtins : BuiltinTable} {seed : ℕ}
    (h : uses us (.new output builtins seed) = .ok (s, signals)) :
    s.listeners.entries = staying 1 (enrolments us) := by
  rw [listeners_uses h, Subscribers.entries_after]
  rfl

end Step

/-- **Handles, order and what is heard.**  Let a host have done anything to a new transport, and let
fewer than `2 ^ 32 - 1` listeners have come.

* Handles are given from one on, each of them once, and the next one has 32 bits.
* Those are there who came and whose handle was not removed since, by ascending handles.
* Removing a handle tells whether it was there, and takes its entry and no other.
* At each action, everyone who is there is told the beat that is taken, in the order in which they
  came, and nobody is told anything if none is.
* A listener hears the beats that are taken from when it comes to when its handle is removed, if it
  is, and nothing else.  Between two stops it never hears the same one twice in a row. -/
theorem beats_of_lifetime [Generator] {output : Output α} {builtins : BuiltinTable} {seed : ℕ}
    {us : List (Use α)} {s : Transport α} {signals : List Signal}
    (h : uses us (.new output builtins seed) = .ok (s, signals)) (hjoins : joins us < 2 ^ 32 - 1) :
    let present := staying 1 (enrolments us)
    (handles us (.new output builtins seed) = List.range' 1 (joins us) ∧
      s.listeners.next = joins us + 1 ∧ s.listeners.next < 2 ^ 32) ∧
    (s.listeners.entries = present ∧ present.Pairwise fun a b => a.1 < b.1) ∧
    (∀ handle,
      ((s.listeners.remove handle).1 = true ↔ ∃ listener, (handle, listener) ∈ present) ∧
      (s.listeners.remove handle).2 =
        ⟨present.filter fun entry => entry.1 != handle, s.listeners.next⟩) ∧
    (∀ before u later, us = before ++ u :: later → ∃ s₀ told₀ next told,
      uses before (.new output builtins seed) = .ok (s₀, told₀) ∧ s₀.use u = .ok (next, told) ∧
      next.beat = (u.beat? s₀ next).getD s₀.beat ∧
      Signal.beats told = (u.beat? s₀ next).toList.flatMap fun number =>
        (staying 1 (enrolments before)).map fun entry => (entry.2, number)) ∧
    ∀ before listener during after, us = before ++ .enrol (.join listener) :: (during ++ after) →
      .join listener ∉ enrolments (before ++ during ++ after) → ∃ s₀ told₀,
      uses before (.new output builtins seed) = .ok (s₀, told₀) ∧
      let handle := (s₀.listeners.add listener).1
      let s₁ := s₀.enter listener
      handle = joins before + 1 ∧
      (.leave handle ∉ enrolments during →
        (after = [] ∨ ∃ rest, after = .enrol (.leave handle) :: rest) →
        heardBy listener signals = changes during s₁ ∧
        ∀ first quiet rest, during = first ++ (quiet ++ rest) →
          (∀ u ∈ quiet, u.isStop = false) → ∃ s₂ told₂ later,
          uses first s₁ = .ok (s₂, told₂) ∧
          changes during s₁ = changes first s₁ ++ (changes quiet s₂ ++ later) ∧
          (s₂.beat :: changes quiet s₂).IsChain (· ≠ ·)) := by
  intro present
  have hbound : (new output builtins seed).listeners.next + joins us < 2 ^ 32 := by
    have hfirst : (new output builtins seed).listeners.next = 1 := rfl
    omega
  obtain ⟨hgiven, hnext⟩ := handles_uses h hbound
  have hentries : s.listeners.entries = present := entries_of_uses_new h
  have hfresh : s.listeners.next = joins us + 1 := hnext.trans (Nat.add_comm ..)
  refine ⟨⟨hgiven, hfresh, by omega⟩, ⟨hentries, staying_pairwise hbound⟩,
    fun handle => ⟨?removed, ?rest⟩, ?told, ?lifetime⟩
  case removed => rw [Subscribers.remove_fst, hentries]
  case rest => rw [Subscribers.remove, hentries]
  case told =>
    rintro before u later rfl
    obtain ⟨s₀, told₀, _, hbefore, hlater, -⟩ := uses_append h
    obtain ⟨next, told, _, hu, -, -⟩ := uses_cons hlater
    refine ⟨s₀, told₀, next, told, hbefore, hu, (use_beat hu).1, ?_⟩
    rw [(use_told hu).2, Subscribers.tags, entries_of_uses_new hbefore]
    simp only [List.map_map, Function.comp_def]
  case lifetime =>
    rintro before listener during after rfl honce
    obtain ⟨s₀, told₀, _, hbefore, hlater, rfl⟩ := uses_append h
    rw [joins_append] at hbound
    refine ⟨s₀, told₀, hbefore,
      (handles_uses hbefore (by omega)).2.trans (Nat.add_comm ..), fun hleave hend => ?_⟩
    rw [List.append_assoc, enrolments, List.filterMap_append, List.mem_append, not_or] at honce
    obtain ⟨hearly, habsent⟩ := heardBy_absent hbefore listener rfl honce.1
    obtain ⟨⟨middle, told, hduring⟩, hheard⟩ :=
      heardBy_lifetime hlater habsent honce.2 hleave hend
    refine ⟨by rw [heardBy_append, hearly, hheard, List.nil_append], ?_⟩
    rintro first quiet rest rfl hquiet
    exact changes_quiet hduring hquiet

/-- What happens while one listener is there: ticks that stay, jump over beats and go back, another
tempo, a stop, and another listener. -/
def whileThere : List (Use Float) :=
  [.start, .tick 0.3, .tick 0.5, .enrol (.join 8), .tick 0.6, .tick 3, .setBpm 60, .tick 3, .stop,
    .tick 9, .start, .tick 2.5]

/-- A listener that is there meanwhile, and is not there any more at the stop in the end. -/
theorem beats_of_lifetime_whileThere : ∃ s signals,
    uses (.enrol (.join 7) :: (whileThere ++ [.enrol (.leave 1), .stop]))
      (.new (.silent 0) .standard 0) = .ok (s, signals) ∧
    s.listeners.entries = [(2, 8)] ∧ heardBy 7 signals = [1, 6, 3, 0, 2] := by
  cases huses : uses (.enrol (.join 7) :: (whileThere ++ [.enrol (.leave 1), .stop]))
      (.new (.silent 0) .standard 0) with
  | error cause =>
      have hends : (uses (.enrol (.join 7) :: (whileThere ++ [.enrol (.leave 1), .stop]))
          (.new (.silent (0 : Float)) .standard 0)).isOk = true := by decide +kernel
      rw [huses] at hends
      cases hends
  | ok done =>
      obtain ⟨s, signals⟩ := done
      obtain ⟨-, ⟨hentries, -⟩, -, -, hlifetimes⟩ := beats_of_lifetime huses (by decide)
      obtain ⟨s₀, told₀, hbefore, -, hlifetime⟩ :=
        hlifetimes [] 7 whileThere [.enrol (.leave 1), .stop] rfl
          (by simp [enrolments, whileThere, Use.enrolment?])
      cases hbefore
      refine ⟨s, signals, rfl, hentries, ?_⟩
      rw [(hlifetime (by simp [enrolments, whileThere, Use.enrolment?, Subscribers.add])
        (.inr ⟨_, rfl⟩)).1]
      decide +kernel

end Transport

end RhythmLogic
