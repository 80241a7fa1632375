/-
**Schedules: every grid time once, and none left out.**

The transport remembers the latest grid time that it asked for as a time, and not as an index.  The
step of the grid may change from one tick to the next, and ticks may come late, early or twice; so
that a time is not asked for again has to be read off the time itself: the index that it has under
the step of the present, with a slack for roundings, is one that was passed.  That index plus one is
an index of a later time, whatever the step was when the time was asked for.

While the settings stay and the ticks come in time, more can be said.  The index at which a tick
starts is then the one at which the tick before it ended, since the present has not overtaken the
horizon of that tick.  So the ticks of a run take the grid apart into intervals that meet.

Nothing is assumed of what the program answers.  A query without a result ends a run, and then what
was asked up to it is an initial part of what the run would have asked.

Main definitions:

* `Action`, `Transport.act`, `Transport.acts` — what a host does with a transport;
* `Resolution`, `Transport.log` — the grid times at which the event query is resolved in a run, with
  the ticks that do it and the settings in force.

Main results:

* `Transport.tickAt_resolved`, `Transport.resolved_isPrefix` — what a tick resolves is what it asks,
  or an initial part of it;
* `Timing.firstIndex_later` — **a tick in time starts where the one before it ended**;
* `Transport.log_increasing` — **no grid time is resolved twice**, whatever is changed between the
  ticks;
* `Transport.log_complete` — **no grid time is left out** while the lookahead covers the gaps between
  the ticks.
-/

import RhythmLogic.CommandLine.Mixer
import RhythmLogic.Proofs.Grid
import RhythmLogic.Proofs.Ticks

set_option autoImplicit false

namespace RhythmLogic

open Quantity

/-! ### What a host does -/

/-- **What a host does with a transport.** -/
inductive Action (α : Type) where
  | tick (now : α)
  | configure (bpm swing lookahead grid : α)
  | setBpm (bpm : α)
  | setSwing (swing : α)
  | setProgram (p : Program)
  | clearProgram
  | start
  | stop
  /-- Puts other parts in the place of those that the grid does not depend on. -/
  | replace (output : Output α) (builtins : BuiltinTable) (memory : Memory) (chance : Chance)
      (maxDepth : Nat) (listeners : Subscribers Nat)

/-- A grid time at which the event query is resolved, the tick that does it, and the settings in
force. -/
structure Resolution (α : Type) where
  timing : Timing α
  now : α
  time : α

namespace Transport

section Runs

variable {α : Type} [Quantity α]

/-- The transport after an action. -/
def act (s : Transport α) : Action α → Except Halt (Transport α)
  | .tick now => (s.tickAt now).map Step.state
  | .configure bpm swing lookahead grid => .ok (s.configure bpm swing lookahead grid).1
  | .setBpm bpm => .ok (s.setBpm bpm).1
  | .setSwing swing => .ok (s.setSwing swing).1
  | .setProgram p => .ok (s.setProgram p).1
  | .clearProgram => .ok s.clearProgram
  | .start => .ok s.start.1
  | .stop => .ok s.stop.1
  | .replace output builtins memory chance maxDepth listeners =>
      .ok { s with
        output := output, builtins := builtins, memory := memory, chance := chance,
        maxDepth := maxDepth, listeners := listeners }

/-- The transport after several actions. -/
def acts : List (Action α) → Transport α → Except Halt (Transport α)
  | [], s => .ok s
  | a :: rest, s =>
      match s.act a with
      | .error h => .error h
      | .ok next => acts rest next

/-- The grid times at which the event query is resolved, of those that are due: all of them, or those
up to the first without a result. -/
def resolvedAll (p : Program) : List α → Transport α → List α
  | [], _ => []
  | t :: rest, s =>
      t :: match dispatch s p t with
        | .error _ => []
        | .ok first => resolvedAll p rest first.state

/-- **The grid times at which a tick resolves the event query.** -/
def resolved (s : Transport α) (now : α) : List α :=
  if s.running then
    match s.program with
    | none => []
    | some p =>
        resolvedAll p ((s.timing.gridTimes s.last now).getD [])
          { s with beat := floor (now / s.timing.beatDuration) }
  else []

/-- What an action resolves. -/
def resolutions (s : Transport α) : Action α → List (Resolution α)
  | .tick now => (s.resolved now).map fun t => ⟨s.timing, now, t⟩
  | _ => []

/-- **What some actions resolve**, one after the other, up to the first without a result. -/
def log : List (Action α) → Transport α → List (Resolution α)
  | [], _ => []
  | a :: rest, s =>
      s.resolutions a ++
        match s.act a with
        | .error _ => []
        | .ok next => log rest next

variable {p : Program} {s s' : Transport α} {now : α} {times : List α} {cause : Halt}
  {tick played : Step (Transport α) Nat} {actions : List (Action α)}

/-! ### What a tick resolves -/

@[simp] theorem times_resolutions_tick (s : Transport α) (now : α) :
    (s.resolutions (.tick now)).map Resolution.time = s.resolved now := by
  simp [resolutions, Function.comp_def]

theorem resolvedAll_isPrefix (p : Program) (times : List α) (s : Transport α) :
    resolvedAll p times s <+: times := by
  induction times generalizing s with
  | nil => exact List.prefix_refl []
  | cons t times ih =>
      rw [resolvedAll, List.prefix_cons_inj]
      split
      · exact List.nil_prefix
      · exact ih _

theorem resolvedAll_of_ok (h : dispatchAll p times s = .ok played) :
    resolvedAll p times s = times := by
  induction times generalizing s played with
  | nil => rfl
  | cons t times ih =>
      simp only [dispatchAll] at h
      split at h
      · cases h
      next first hfirst =>
      split at h
      · cases h
      next more hmore =>
      simp only [resolvedAll, hfirst, ih hmore]

/-- If grid times have no result, then the latest that was resolved has none. -/
theorem resolvedAll_of_error (herror : dispatchAll p times s = .error cause) :
    ∃ before t s', resolvedAll p times s = before ++ [t] ∧
      dispatch s' p t = .error cause := by
  induction times generalizing s with
  | nil => cases herror
  | cons t times ih =>
      simp only [dispatchAll] at herror
      split at herror
      · next hfirst =>
        cases herror
        exact ⟨[], t, s, by simp only [resolvedAll, hfirst, List.nil_append], hfirst⟩
      next first hfirst =>
      split at herror
      · next hmore =>
        cases herror
        obtain ⟨before, t', s', hresolved, hlast⟩ := ih hmore
        exact ⟨t :: before, t', s', by simp only [resolvedAll, hfirst, hresolved, List.cons_append],
          hlast⟩
      · cases herror

theorem resolved_of_plays (hruns : s.running = true) (hp : s.program = some p) :
    s.resolved now = resolvedAll p ((s.timing.gridTimes s.last now).getD [])
      { s with beat := floor (now / s.timing.beatDuration) } := by
  rw [resolved, if_pos hruns]
  split
  · next hnone =>
    rw [hp] at hnone
    cases hnone
  · next q hq =>
    rw [hp] at hq
    cases hq
    rfl

/-- A tick that asks nobody resolves nothing. -/
theorem resolved_of_idle (h : s.running = false ∨ s.program = none) : s.resolved now = [] := by
  rcases h with h | h <;> simp [resolved, h]

theorem asks_times (hruns : s.running = true) (hp : s.program = some p) :
    (s.asks now).map Asking.time = (s.timing.gridTimes s.last now).getD [] := by
  simp [asks, hruns, hp, Function.comp_def]

/-- **What a tick resolves is an initial part of what it asks.** -/
theorem resolved_isPrefix (s : Transport α) (now : α) :
    s.resolved now <+: (s.asks now).map Asking.time := by
  rcases hruns : s.running with _ | _
  · rw [resolved_of_idle (.inl hruns)]
    exact List.nil_prefix
  rcases hp : s.program with _ | p
  · rw [resolved_of_idle (.inr hp)]
    exact List.nil_prefix
  rw [resolved_of_plays hruns hp, asks_times hruns hp]
  exact resolvedAll_isPrefix _ _ _

/-- **A tick with a result resolves what it asks.** -/
theorem tickAt_resolved (h : s.tickAt now = .ok tick) :
    s.resolved now = (s.asks now).map Asking.time := by
  simp only [tickAt] at h
  split at h
  · next hstands =>
    have hruns : s.running = false := by simpa using hstands
    rw [resolved_of_idle (.inl hruns), asks_of_stands hruns, List.map_nil]
  next hruns =>
  split at h
  · next hnone => rw [resolved_of_idle (.inr hnone), asks_of_program_none hnone, List.map_nil]
  next p hp =>
  split at h
  · cases h
  next times htimes =>
  split at h
  · cases h
  next played hplayed =>
  rw [resolved_of_plays (by simpa using hruns) hp, asks_times (by simpa using hruns) hp, htimes,
    Option.getD_some, resolvedAll_of_ok hplayed]

/-- **If a tick has no result**, then it was at a grid time that the query was resolved at last, or
the grid has none. -/
theorem tickAt_error (h : s.tickAt now = .error cause) (hp : s.program = some p)
    (hgrid : s.timing.gridTimes s.last now ≠ none) :
    ∃ before t s', s.resolved now = before ++ [t] ∧ dispatch s' p t = .error cause := by
  simp only [tickAt] at h
  split at h
  · cases h
  next hruns =>
  rw [resolved_of_plays (by simpa using hruns) hp]
  split at h
  · cases h
  next q hq =>
  split at h
  · next hnone => exact absurd hnone hgrid
  next times htimes =>
  split at h
  · next herror =>
    cases h
    rw [hp, Option.some.injEq] at hq
    subst hq
    rw [htimes]
    exact resolvedAll_of_error herror
  · cases h

end Runs

end Transport

/-! ### One tick after another -/

namespace Timing

variable {s : Timing ℚ} {last : Option ℚ} {now later t : ℚ} {times : List ℚ}

/-- **A tick in time starts where the one before it ended**: at the first index that is not before
the horizon, or where nothing was due, at the one that was next already. -/
theorem firstIndex_later (hs : s.Positive) (h : s.gridTimes last now = some times)
    (hgap : later - now ≤ s.lookahead / 1000) :
    s.firstIndex (times.getLast?.or last) later = max (s.firstIndex last now) (s.endIndex now) := by
  -- the present has not overtaken the horizon
  have hlater : ⌊later / s.step⌋ ≤ s.endIndex now := by
    have hhorizon : later / s.step ≤ s.horizon now / s.step := by
      refine div_le_div_of_nonneg_right ?_ hs.step_pos.le
      rw [horizon_eq]
      linarith
    have hle : (⌊later / s.step⌋ : ℚ) ≤ ⌈s.horizon now / s.step⌉ :=
      (Int.floor_le _).trans (hhorizon.trans (Int.le_ceil _))
    exact_mod_cast hle
  rw [firstIndex_next hs h, max_eq_right (hlater.trans (le_max_right _ _))]

/-- A grid time that is due is later than the latest that was asked for, whatever the step was
then. -/
theorem lt_of_mem_gridTimes {t₀ : ℚ} (hs : s.Positive) (h : s.gridTimes (some t₀) now = some times)
    (ht : t ∈ times) : t₀ < t := by
  obtain ⟨i, hfirst, -, rfl⟩ := (mem_gridTimes hs h).1 ht
  rw [firstIndex_some] at hfirst
  have hslack : (0 : ℚ) < slack := by
    rw [slack_eq]
    norm_num
  have hindex : ⌊t₀ / s.step + (slack : ℚ)⌋ + 1 ≤ i := (le_max_right _ _).trans hfirst
  have hcast : ((⌊t₀ / s.step + (slack : ℚ)⌋ + 1 : ℤ) : ℚ) ≤ i := by exact_mod_cast hindex
  push_cast at hcast
  rw [← div_lt_iff₀ hs.step_pos]
  linarith [Int.lt_floor_add_one (t₀ / s.step + (slack : ℚ))]

end Timing

/-! ### Every grid time once -/

/-- **A grid time of the present**: a multiple of the step, less than a step ago, and before the end
of the lookahead. -/
def Resolution.Due (r : Resolution ℚ) : Prop :=
  (∃ k : ℤ, r.time = k * r.timing.step) ∧ r.now - r.timing.step < r.time ∧
    r.time < r.now + r.timing.lookahead / 1000

namespace Transport

variable {s next : Transport ℚ} {a : Action ℚ} {actions : List (Action ℚ)} {now : ℚ}

/-- The grid times that a tick asks for are due, later than all before, and in order. -/
theorem asks_due (hs : s.timing.Positive) (now : ℚ) :
    ((s.asks now).map Asking.time).Pairwise (· < ·) ∧
      ∀ t ∈ (s.asks now).map Asking.time,
        (∀ t₀ ∈ s.last, t₀ < t) ∧ Resolution.Due ⟨s.timing, now, t⟩ := by
  rcases hruns : s.running with _ | _
  · simp [asks_of_stands hruns]
  rcases hp : s.program with _ | p
  · simp [asks_of_program_none hp]
  rw [asks_times hruns hp]
  have htimes := Timing.gridTimes_eq hs s.last now
  rw [htimes, Option.getD_some]
  refine ⟨Timing.pairwise_between hs _ _, fun t ht => ⟨?_, ?_⟩⟩
  · intro t₀ hlast
    rw [Option.mem_def] at hlast
    rw [hlast] at htimes ht
    exact Timing.lt_of_mem_gridTimes hs htimes ht
  · obtain ⟨k, rfl, hfirst, hend⟩ := (Timing.mem_between_endIndex hs).1 ht
    refine ⟨⟨k, rfl⟩, ?_, hend⟩
    have hfloor : ((⌊now / s.timing.step⌋ : ℤ) : ℚ) ≤ k := by
      exact_mod_cast (Timing.floor_le_firstIndex s.timing s.last now).trans hfirst
    have hnow : now / s.timing.step < k + 1 := by
      linarith [Int.lt_floor_add_one (now / s.timing.step)]
    rw [div_lt_iff₀ hs.step_pos] at hnow
    linarith

/-- What an action resolves is due, later than all before, and in order. -/
theorem resolutions_due (hs : s.timing.Positive) (a : Action ℚ) :
    ((s.resolutions a).map Resolution.time).Pairwise (· < ·) ∧
      ∀ r ∈ s.resolutions a, (∀ t₀ ∈ s.last, t₀ < r.time) ∧ r.Due := by
  cases a with
  | tick now =>
      obtain ⟨hsorted, hdue⟩ := asks_due hs now
      have hpre := s.resolved_isPrefix now
      rw [times_resolutions_tick]
      refine ⟨hsorted.sublist hpre.sublist, fun r hr => ?_⟩
      obtain ⟨t, ht, rfl⟩ := List.mem_map.1 hr
      exact hdue t (hpre.subset ht)
  | _ => exact ⟨.nil, nofun⟩

/-- **What an action other than a stop leaves**: positive settings, and the latest grid time that was
resolved. -/
theorem act_last (hs : s.timing.Positive) (ha : a ≠ .stop) (h : s.act a = .ok next) :
    next.timing.Positive ∧
      next.last = ((s.resolutions a).map Resolution.time).getLast?.or s.last := by
  cases a with
  | tick now =>
      rcases htick : s.tickAt now with cause | tick
      · rw [act, htick] at h
        cases h
      rw [act, htick] at h
      cases h
      obtain ⟨output, memory, chance, beat, hstate⟩ := tickAt_state htick
      rw [times_resolutions_tick, tickAt_resolved htick, hstate]
      exact ⟨hs, rfl⟩
  | stop => exact absurd rfl ha
  | configure | setBpm | setSwing =>
      cases h
      exact ⟨hs.configure _ _ _ _, rfl⟩
  | setProgram | clearProgram | start | replace =>
      cases h
      exact ⟨hs, rfl⟩

/-- Whatever a host does, the settings stay positive. -/
theorem acts_positive {s' : Transport ℚ} (hs : s.timing.Positive) (h : s.acts actions = .ok s') :
    s'.timing.Positive := by
  induction actions generalizing s with
  | nil =>
      cases h
      exact hs
  | cons a actions ih =>
      simp only [acts] at h
      split at h
      · cases h
      next next hnext =>
      by_cases ha : a = .stop
      · subst ha
        cases hnext
        have hs' : s.stop.1.timing.Positive := hs
        exact ih hs' h
      · exact ih (act_last hs ha hnext).1 h

/-- The latest of some grid times, or the one before them, is the greatest. -/
theorem exists_last {times : List ℚ} (last : Option ℚ) (hsorted : times.Pairwise (· < ·)) {t : ℚ}
    (ht : t ∈ times) : ∃ u ∈ times.getLast?.or last, t ≤ u := by
  rcases times.eq_nil_or_concat with rfl | ⟨before, u, rfl⟩
  · cases ht
  · refine ⟨u, by simp, ?_⟩
    rw [List.concat_eq_append, List.mem_append, List.mem_singleton] at ht
    rcases ht with ht | rfl
    · rw [List.concat_eq_append, List.pairwise_append] at hsorted
      exact (hsorted.2.2 t ht u (by simp)).le
    · exact le_rfl

/-- While the transport is not stopped, grid times are resolved in order, each later than all
before. -/
theorem log_due (hs : s.timing.Positive) (hstop : .stop ∉ actions) :
    ((s.log actions).map Resolution.time).Pairwise (· < ·) ∧
      ∀ r ∈ s.log actions, (∀ t₀ ∈ s.last, t₀ < r.time) ∧ r.Due := by
  induction actions generalizing s with
  | nil => exact ⟨.nil, nofun⟩
  | cons a actions ih =>
      rw [List.mem_cons, not_or] at hstop
      obtain ⟨hsorted, hdue⟩ := resolutions_due hs a
      rw [log]
      split
      · rw [List.append_nil]
        exact ⟨hsorted, hdue⟩
      next next hnext =>
      obtain ⟨hpositive, hlast⟩ := act_last hs (Ne.symm hstop.1) hnext
      obtain ⟨hsorted', hdue'⟩ := ih hpositive hstop.2
      -- what is resolved later is later than the latest of what was resolved now
      have hlater : ∀ r' ∈ next.log actions, (∀ t ∈ (s.resolutions a).map Resolution.time,
          t < r'.time) ∧ ∀ t₀ ∈ s.last, t₀ < r'.time := by
        intro r' hr'
        have hafter : ∀ t ∈ (s.resolutions a).map Resolution.time, t < r'.time := by
          intro t ht
          obtain ⟨u, hu, htu⟩ := exists_last s.last hsorted ht
          exact htu.trans_lt ((hdue' r' hr').1 u (hlast ▸ hu))
        refine ⟨hafter, fun t₀ ht₀ => ?_⟩
        rcases hnone : s.resolutions a with _ | ⟨r, rs⟩
        · rw [hnone] at hlast
          exact (hdue' r' hr').1 t₀ (hlast ▸ ht₀)
        · have hr : r ∈ s.resolutions a := hnone ▸ List.mem_cons_self
          exact ((hdue r hr).1 t₀ ht₀).trans (hafter _ (List.mem_map_of_mem hr))
      refine ⟨?_, fun r hr => ?_⟩
      · rw [List.map_append, List.pairwise_append]
        refine ⟨hsorted, hsorted', fun t ht u hu => ?_⟩
        obtain ⟨r', hr', rfl⟩ := List.mem_map.1 hu
        exact (hlater r' hr').1 t ht
      · rcases List.mem_append.1 hr with hr | hr
        · exact hdue r hr
        · exact ⟨(hlater r hr).2, (hdue' r hr).2⟩

/-- **No grid time is resolved twice.**  Whatever a host does with a transport, and whatever it
changes between the ticks: between two stops the event query is resolved at ever later grid times,
and each of them is due at its tick. -/
theorem log_increasing [Generator] {output : Output ℚ} {builtins : BuiltinTable} {seed : ℕ}
    {earlier later : List (Action ℚ)}
    (hs : (Transport.new output builtins seed).acts earlier = .ok s) (hstop : .stop ∉ later) :
    ((s.log later).map Resolution.time).Pairwise (· < ·) ∧
      ∀ r ∈ s.log later, (∃ k : ℤ, r.time = k * r.timing.step) ∧
        r.now - r.timing.step < r.time ∧ r.time < r.now + r.timing.lookahead / 1000 := by
  have hpositive : s.timing.Positive := acts_positive Timing.positive_standard hs
  obtain ⟨hsorted, hdue⟩ := log_due hpositive hstop
  exact ⟨hsorted, fun r hr => (hdue r hr).2⟩

/-- The tempo falls and rises, and ticks are repeated and go back. -/
theorem log_increasing_tempo :
    let s := ((Transport.new (.silent (0 : ℚ)) .standard 0).setProgram .empty).1.start.1
    let later : List (Action ℚ) :=
      [.tick 0, .setBpm 90, .tick (1 / 10), .tick 0, .setBpm 130, .tick (1 / 10), .tick (1 / 5)]
    .stop ∉ later ∧ (s.log later).map Resolution.time = [0, 1 / 6, 3 / 13] ∧
      ((s.log later).map Resolution.time).Pairwise (· < ·) := by
  intro s later
  have hstop : .stop ∉ later := by simp [later]
  have hs : (Transport.new (.silent (0 : ℚ)) .standard 0).acts [.setProgram .empty, .start] =
      .ok s := rfl
  exact ⟨hstop, by decide +kernel, (log_increasing hs hstop).1⟩

/-! ### No grid time left out -/

/-- Ticks that do not go back, none of them later than the lookahead after the one before it. -/
def InTime (lookahead : ℚ) (ticks : List ℚ) : Prop :=
  ticks.IsChain fun now later => now ≤ later ∧ later - now ≤ lookahead

theorem InTime.le_getLast {lookahead : ℚ} {rest : List ℚ} (h : InTime lookahead (now :: rest)) :
    now ≤ (now :: rest).getLast (List.cons_ne_nil now rest) := by
  induction rest generalizing now with
  | nil => exact le_rfl
  | cons later rest ih =>
      obtain ⟨⟨hle, -⟩, hrest⟩ := List.isChain_cons_cons.1 h
      rw [List.getLast_cons_cons]
      exact hle.trans (ih hrest)

section Ticks

variable {p : Program} {later : ℚ} {rest : List ℚ} {cause : Halt} {tick : Step (Transport ℚ) ℕ}

/-- **What a tick of a transport that plays asks** is an interval of the grid. -/
theorem asks_between (hs : s.timing.Positive) (hruns : s.running = true)
    (hp : s.program = some p) (now : ℚ) : (s.asks now).map Asking.time =
      s.timing.between (s.timing.firstIndex s.last now) (s.timing.endIndex now) := by
  rw [asks_times hruns hp, Timing.gridTimes_eq hs, Option.getD_some]

/-- A tick changes neither the settings nor what plays, and the next one, if it is in time, starts
where this one ended. -/
theorem tick_later (hs : s.timing.Positive) (hruns : s.running = true) (hp : s.program = some p)
    (h : s.tickAt now = .ok tick) : tick.state.timing = s.timing ∧ tick.state.running = true ∧
      tick.state.program = some p ∧ ∀ later, later - now ≤ s.timing.lookahead / 1000 →
        s.timing.firstIndex tick.state.last later =
          max (s.timing.firstIndex s.last now) (s.timing.endIndex now) := by
  obtain ⟨output, memory, chance, beat, hstate⟩ := tickAt_state h
  rw [hstate]
  refine ⟨rfl, hruns, hp, fun later hgap => ?_⟩
  rw [asks_between hs hruns hp]
  exact Timing.firstIndex_later hs (Timing.gridTimes_eq hs s.last now) hgap

/-- **Ticks resolve these grid times**, or an initial part of them that ends with a query without a
result. -/
def Resolves (s : Transport ℚ) (p : Program) (ticks due : List ℚ) : Prop :=
  let times := (s.log (ticks.map .tick)).map Resolution.time
  times <+: due ∧
    match s.acts (ticks.map .tick) with
    | .ok _ => times = due
    | .error cause => ∃ before t s', times = before ++ [t] ∧ dispatch s' p t = .error cause

theorem resolves_nil (s : Transport ℚ) (p : Program) : s.Resolves p [] [] :=
  ⟨List.prefix_refl [], rfl⟩

/-- A tick without a result is the last one. -/
theorem resolves_of_error {due : List ℚ} (hs : s.timing.Positive) (hp : s.program = some p)
    (h : s.tickAt now = .error cause) (hdue : (s.asks now).map Asking.time <+: due) (rest : List ℚ) :
    s.Resolves p (now :: rest) due := by
  have hact : s.act (.tick now) = .error cause := by rw [act, h]; rfl
  have htimes : (s.log ((now :: rest).map .tick)).map Resolution.time = s.resolved now := by
    simp [log, hact]
  have hgrid : s.timing.gridTimes s.last now ≠ none := by
    rw [Timing.gridTimes_eq hs]
    exact nofun
  have hacts : s.acts ((now :: rest).map .tick) = .error cause := by
    rw [List.map_cons, acts, hact]
  rw [Resolves, htimes, hacts]
  exact ⟨(s.resolved_isPrefix now).trans hdue, tickAt_error h hp hgrid⟩

/-- A tick with a result resolves what it asks, and the others go on after it. -/
theorem resolves_of_ok {due : List ℚ} (h : s.tickAt now = .ok tick)
    (hrest : tick.state.Resolves p rest due) :
    s.Resolves p (now :: rest) ((s.asks now).map Asking.time ++ due) := by
  have hact : s.act (.tick now) = .ok tick.state := by rw [act, h]; rfl
  have htimes : (s.log ((now :: rest).map .tick)).map Resolution.time =
      (s.asks now).map Asking.time ++ (tick.state.log (rest.map .tick)).map Resolution.time := by
    rw [← tickAt_resolved h]
    simp [log, hact]
  have hacts : s.acts ((now :: rest).map .tick) = tick.state.acts (rest.map .tick) := by
    rw [List.map_cons, acts, hact]
  obtain ⟨hpre, hend⟩ := hrest
  rw [Resolves, htimes, hacts]
  refine ⟨(List.prefix_append_right_inj _).2 hpre, ?_⟩
  split at hend
  · rw [hend]
  · obtain ⟨before, t, s', hlast, herror⟩ := hend
    exact ⟨_ ++ before, t, s', by rw [hlast, List.append_assoc], herror⟩

/-- **Ticks in time resolve an interval of the grid**, from the index at which the first of them
starts to the end of the last one's window. -/
theorem resolves_ticks (hs : s.timing.Positive) (hruns : s.running = true)
    (hp : s.program = some p) (hticks : InTime (s.timing.lookahead / 1000) (now :: rest)) :
    s.Resolves p (now :: rest) (s.timing.between (s.timing.firstIndex s.last now)
      (s.timing.endIndex ((now :: rest).getLast (List.cons_ne_nil now rest)))) := by
  induction rest generalizing s now with
  | nil =>
      have hasks := asks_between hs hruns hp now
      rw [List.getLast_singleton, ← hasks]
      rcases htick : s.tickAt now with cause | tick
      · exact resolves_of_error hs hp htick (List.prefix_refl _) []
      · simpa using resolves_of_ok htick (resolves_nil tick.state p)
  | cons later rest ih =>
      have hasks := asks_between hs hruns hp now
      obtain ⟨⟨hle, hgap⟩, hrest⟩ := List.isChain_cons_cons.1 hticks
      have hend := Timing.endIndex_le_endIndex hs hticks.le_getLast
      rw [← Timing.between_append_max _ hend, ← hasks]
      rcases htick : s.tickAt now with cause | tick
      · exact resolves_of_error hs hp htick (List.prefix_append _ _) _
      · obtain ⟨htiming, hruns', hp', hnext⟩ := tick_later hs hruns hp htick
        have hs' : tick.state.timing.Positive := htiming ▸ hs
        have htail := ih hs' hruns' hp' (htiming ▸ hrest)
        rw [htiming, hnext later hgap] at htail
        exact resolves_of_ok htick htail

end Ticks

/-- **No grid time is left out.**  A transport that plays a program and has not asked for anything is
ticked at times that do not go back, with gaps that the lookahead covers.  Then the event query is
resolved, in order, at the grid times from the present of the first tick to the horizon of the last
one, each once, and at no other time.  Only a query without a result can end this early, and then all
grid times before it were resolved. -/
theorem log_complete [Generator] {output : Output ℚ} {builtins : BuiltinTable} {seed : ℕ}
    {earlier : List (Action ℚ)} {p : Program} {first : ℚ} {rest : List ℚ}
    (hs : (Transport.new output builtins seed).acts earlier = .ok s) (hruns : s.running = true)
    (hp : s.program = some p) (hlast : s.last = none)
    (hticks : InTime (s.timing.lookahead / 1000) (first :: rest)) :
    let ticks := (first :: rest).map Action.tick
    let times := (s.log ticks).map Resolution.time
    let horizon := (first :: rest).getLast (List.cons_ne_nil first rest) + s.timing.lookahead / 1000
    let due := fun t : ℚ => ∃ k : ℤ, t = k * s.timing.step ∧ ⌊first / s.timing.step⌋ ≤ k ∧ t < horizon
    times.Pairwise (· < ·) ∧ (∀ t ∈ times, due t) ∧
      match s.acts ticks with
      | .ok _ => ∀ t, due t → t ∈ times
      | .error cause => ∃ before t s', times = before ++ [t] ∧ dispatch s' p t = .error cause ∧
          ∀ u, due u → u ≤ t → u ∈ times := by
  intro ticks times horizon due
  have hpositive : s.timing.Positive := acts_positive Timing.positive_standard hs
  obtain ⟨hpre, hend⟩ := resolves_ticks hpositive hruns hp hticks
  rw [hlast, Timing.firstIndex_none] at hpre hend
  have hsorted := Timing.pairwise_between hpositive ⌊first / s.timing.step⌋
    (s.timing.endIndex ((first :: rest).getLast (List.cons_ne_nil first rest)))
  have hmem : ∀ t, t ∈ s.timing.between ⌊first / s.timing.step⌋
      (s.timing.endIndex ((first :: rest).getLast (List.cons_ne_nil first rest))) ↔ due t :=
    fun t => Timing.mem_between_endIndex hpositive
  refine ⟨hsorted.sublist hpre.sublist, fun t ht => (hmem t).1 (hpre.subset ht), ?_⟩
  rcases hacts : s.acts ticks with cause | s'
  · rw [hacts] at hend
    obtain ⟨before, t, s', htimes, herror⟩ := hend
    refine ⟨before, t, s', htimes, herror, fun u hu hut => ?_⟩
    obtain ⟨others, hothers⟩ := hpre
    have hu := (hmem u).2 hu
    rw [← hothers] at hsorted hu
    refine (List.mem_append.1 hu).resolve_right fun hu => absurd hut (not_le.2 ?_)
    exact (List.pairwise_append.1 hsorted).2.2 t (htimes ▸ List.mem_append_right _ (.head _)) u hu
  · rw [hacts] at hend
    intro t ht
    have htimes : times = _ := hend
    rw [htimes]
    exact (hmem t).2 ht

/-- Three ticks, the second of which asks for nothing new. -/
theorem log_complete_threeTicks :
    let s := ((Transport.new (.silent (0 : ℚ)) .standard 0).setProgram .empty).1.start.1
    let ticks : List (Action ℚ) := [.tick 0, .tick (1 / 25), .tick (1 / 10)]
    InTime (s.timing.lookahead / 1000) [0, 1 / 25, 1 / 10] ∧
      (s.log ticks).map Resolution.time = [0, 1 / 8] ∧
      ((s.log ticks).map Resolution.time).Pairwise (· < ·) := by
  intro s ticks
  have hs : (Transport.new (.silent (0 : ℚ)) .standard 0).acts [.setProgram .empty, .start] =
      .ok s := rfl
  have hticks : InTime (s.timing.lookahead / 1000) [0, 1 / 25, 1 / 10] := by
    unfold InTime
    decide +kernel
  exact ⟨hticks, by decide +kernel, (log_complete hs rfl rfl rfl hticks).1⟩

end Transport

end RhythmLogic
