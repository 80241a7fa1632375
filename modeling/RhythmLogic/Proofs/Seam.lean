/-
**The seam between two programs.**

An edit that is accepted while a program plays waits for a bar line, and the first tick that has
come to the bar line hands the new program over.  But a tick looks ahead: it has asked for all grid
times below its horizon, and none of them is asked for again.  So the new program does not start at
the bar line.  It starts where the last tick before the bar line had looked to, which may lie behind
the bar line, and what the old program answered for the grid times in between has been played.

The invariant of a run keeps two things apart: which program plays, and where the grid is swept up
to.  The first one goes by the time of the tick, the second one by its horizon, and the seam is
where they meet.

Main definitions:

* `Seamless` — **every grid time is asked of the old program before the bar line, and of the new one
  from it on**;
* `Changing` — a session in which a program waits, or has taken over;
* `Asking.Fits` — which program a tick asks, and for which grid times.

Main results:

* `Changing.tick`, `Changing.run_fits` — what a tick keeps and asks, and what a run asks;
* `handover_seam` — **a grid time is asked of the old program exactly if a tick before the bar line
  looks past it**;
* `handover_seamless` — where no tick before the bar line looks past it, the change is seamless;
* `handover_not_seamless` — a tick shortly before the bar line, and the change is not.
-/

import RhythmLogic.CommandLine.Mixer
import RhythmLogic.Proofs.Calls
import RhythmLogic.Proofs.Sessions

set_option autoImplicit false

namespace RhythmLogic

open Quantity

variable {read : FileReader} {τ : Timing ℚ} {p p' : Program} {boundary now : ℚ}
  {ticks : List ℚ} {s s' : Session ℚ} {moves : List (Move ℚ)} {asked : List (Asking ℚ)}

/-- **A change of programs is seamless at a bar line**: grid times before it are asked of the old
program, and those from it on of the new one. -/
def Seamless {α : Type} [Quantity α] (p p' : Program) (boundary : α) (asked : List (Asking α)) :
    Prop :=
  ∀ a ∈ asked, (lt a.time boundary → a.program = p) ∧ (le boundary a.time → a.program = p')

/-- The program that plays at a tick: the new one from the bar line on, up to the slack. -/
def PlaysAt (p p' : Program) (boundary now : ℚ) (q : Program) : Prop :=
  (now + slack < boundary ∧ q = p) ∨ (boundary ≤ now + slack ∧ q = p')

/-- **What a tick asks**, in a run in which `p'` takes over from `p`: the program that plays, for a
grid time from the present on and below the horizon, that lies below the horizon of no tick
before. -/
structure Asking.Fits (τ : Timing ℚ) (p p' : Program) (boundary : ℚ) (ticks : List ℚ)
    (a : Asking ℚ) : Prop where
  tick : a.now ∈ ticks
  program : PlaysAt p p' boundary a.now a.program
  grid : ∃ i : ℤ, ⌊a.now / τ.step⌋ ≤ i ∧ a.time = i * τ.step
  ahead : a.time < τ.horizon a.now
  unswept : ∀ now ∈ ticks, now < a.now → τ.horizon now ≤ a.time

/-- **A program waits for its bar line, or has taken over.**  After some ticks the grid is swept up
to the horizons of all of them. -/
structure Changing (τ : Timing ℚ) (p p' : Program) (boundary : ℚ) (ticks : List ℚ)
    (s : Session ℚ) : Prop where
  timing : s.transport.timing = τ
  runs : s.transport.running = true
  swept : ∀ now ∈ ticks, ∀ later, τ.endIndex now ≤ τ.firstIndex s.transport.last later
  programs : (s.transport.program = some p ∧ s.handover.waiting = some ⟨p', boundary⟩) ∨
    (s.transport.program = some p' ∧ s.handover.waiting = none ∧
      ∃ now ∈ ticks, boundary ≤ now + slack)

namespace Changing

/-! ### One move -/

/-- A move that is no tick changes nothing of it. -/
theorem move_quiet (h : Changing τ p p' boundary ticks s) {m : Move ℚ} (hm : m.Quiet read)
    (htick : m.tick? = none) (hmove : s.move read m = .ok s') :
    Changing τ p p' boundary ticks s' := by
  obtain ⟨hhandover, output, htransport⟩ := Session.move_quiet hm h.runs htick hmove
  constructor
  case timing => rw [htransport]; exact h.timing
  case runs => rw [htransport]; exact h.runs
  case swept => rw [htransport]; exact h.swept
  case programs => rw [htransport, hhandover]; exact h.programs

/-- **At a tick the waiting program takes over if its bar line has come.** -/
theorem process (h : Changing τ p p' boundary ticks s) (hle : ∀ n ∈ ticks, n ≤ now) :
    ∃ q, PlaysAt p p' boundary now q ∧
      (s.handover.process now s.transport).state.2 = { s.transport with program := some q } ∧
      ((now + slack < boundary ∧
          (s.handover.process now s.transport).state.1.waiting = some ⟨p', boundary⟩) ∨
        (boundary ≤ now + slack ∧
          (s.handover.process now s.transport).state.1.waiting = none)) := by
  rcases h.programs with ⟨hp, hwaiting⟩ | ⟨hp', hwaiting, n, hn, hdue⟩
  · simp only [Handover.process, hwaiting, Handover.isDue, le_eq_decide, decide_eq_true_eq]
    split
    · next hdue => exact ⟨p', .inr ⟨hdue, rfl⟩, rfl, .inr ⟨hdue, rfl⟩⟩
    · next hearly =>
        have hlt : now + slack < boundary := not_le.1 hearly
        exact ⟨p, .inl ⟨hlt, rfl⟩, by rw [← hp], .inl ⟨hlt, hwaiting⟩⟩
  · have hdue' : boundary ≤ now + slack := hdue.trans (add_le_add_left (hle n hn) _)
    simp only [Handover.process, hwaiting]
    exact ⟨p', .inr ⟨hdue', rfl⟩, by rw [← hp'], .inr ⟨hdue', trivial⟩⟩

/-- What a tick asks, and where the grid is swept up to after it. -/
theorem tick (hs : τ.Positive) (h : Changing τ p p' boundary ticks s)
    (hle : ∀ n ∈ ticks, n ≤ now) (hmove : s.move read (.tick now) = .ok s') :
    Changing τ p p' boundary (ticks ++ [now]) s' ∧
      ∀ a ∈ s.asks (.tick now), a.now = now ∧ PlaysAt p p' boundary now a.program ∧
        ∃ i : ℤ, τ.firstIndex s.transport.last now ≤ i ∧ i < τ.endIndex now ∧
          a.time = i * τ.step := by
  obtain ⟨tick, htick, htransport, hhandover, -⟩ := Session.move_tick hmove
  obtain ⟨q, hq, hprocess, hwaiting⟩ := h.process hle
  obtain ⟨times, htimes⟩ : ∃ times, τ.gridTimes s.transport.last now = some times :=
    ⟨_, Timing.gridTimes_eq hs _ _⟩
  obtain ⟨output, memory, chance, beat, hstate⟩ := Transport.tickAt_state htick
  have hasks : (s.handover.process now s.transport).state.2.asks now =
      times.map fun t => ⟨now, q, t⟩ := by
    rw [hprocess]
    refine Transport.asks_of_plays h.runs rfl ?_
    rw [← htimes, ← h.timing]
  have hlast : s'.transport.last = times.getLast?.or s.transport.last := by
    rw [htransport, hstate, hasks, hprocess, List.map_map]
    exact congrArg (fun ts : List ℚ => ts.getLast?.or _) (List.map_id times)
  constructor
  · constructor
    case timing => rw [htransport, hstate, hprocess]; exact h.timing
    case runs => rw [htransport, hstate, hprocess]; exact h.runs
    case swept =>
      intro n hn later
      have hn' : n ≤ now := by
        rcases List.mem_append.1 hn with hn | hn
        · exact hle n hn
        · exact (List.mem_singleton.1 hn).le
      rw [hlast]
      exact (τ.endIndex_le_endIndex hs hn').trans
        (Timing.endIndex_le_firstIndex hs htimes later)
    case programs =>
      have hprogram : s'.transport.program = some q := by rw [htransport, hstate, hprocess]
      rw [hprogram, hhandover]
      have hmem : now ∈ ticks ++ [now] := List.mem_append_right _ (List.mem_singleton_self now)
      rcases hwaiting with ⟨hearly, hwaits⟩ | ⟨hdue, hwaits⟩
      · obtain ⟨-, rfl⟩ | ⟨hdue, -⟩ := hq
        · exact .inl ⟨rfl, hwaits⟩
        · exact absurd hdue (not_le.2 hearly)
      · obtain ⟨hearly, -⟩ | ⟨-, rfl⟩ := hq
        · exact absurd hdue (not_le.2 hearly)
        · exact .inr ⟨rfl, hwaits, now, hmem, hdue⟩
  · intro a ha
    rw [Session.asks, hasks, List.mem_map] at ha
    obtain ⟨t, ht, rfl⟩ := ha
    exact ⟨rfl, hq, (Timing.mem_gridTimes hs htimes).1 ht⟩

/-! ### Runs -/

/-- What a tick asks fits into a run with further ticks after it. -/
theorem asks_fit (hs : τ.Positive) (h : Changing τ p p' boundary ticks s)
    (hmove : s.move read (.tick now) = .ok s') {later : List ℚ}
    (hsorted : (ticks ++ now :: later).Pairwise (· ≤ ·)) :
    ∀ a ∈ s.asks (.tick now), a.Fits τ p p' boundary (ticks ++ now :: later) := by
  obtain ⟨-, hlater, hle⟩ := List.pairwise_append.1 hsorted
  obtain ⟨hlater, -⟩ := List.pairwise_cons.1 hlater
  intro a ha
  obtain ⟨-, hasks⟩ := h.tick hs (fun n hn => hle n hn now List.mem_cons_self) hmove
  obtain ⟨rfl, hprogram, i, hfirst, hend, htime⟩ := hasks a ha
  constructor
  case tick => exact List.mem_append_right _ List.mem_cons_self
  case program => exact hprogram
  case grid => exact ⟨i, (Timing.floor_le_firstIndex _ _ _).trans hfirst, htime⟩
  case ahead => exact htime ▸ (Timing.lt_endIndex_iff hs).1 hend
  case unswept =>
    intro n hn hlt
    rcases List.mem_append.1 hn with hn | hn
    · exact htime ▸ (Timing.endIndex_le_iff hs).1 ((h.swept n hn a.now).trans hfirst)
    · -- a tick that is earlier does not come later
      rcases List.mem_cons.1 hn with rfl | hn
      · exact absurd hlt (lt_irrefl _)
      · exact absurd hlt (not_lt.2 (hlater n hn))

/-- **What is asked in a run**, by induction on its moves. -/
theorem run_fits (h : Changing τ p p' boundary ticks s) (hs : τ.Positive)
    (hquiet : ∀ m ∈ moves, m.Quiet read) (hsorted : (ticks ++ tickTimes moves).Pairwise (· ≤ ·))
    (hrun : s.run read moves = .ok (s', asked)) :
    ∀ a ∈ asked, a.Fits τ p p' boundary (ticks ++ tickTimes moves) := by
  induction moves generalizing ticks s asked with
  | nil =>
      cases hrun
      simp
  | cons m moves ih =>
      obtain ⟨next, more, hmove, hmore, rfl⟩ := Session.run_cons.1 hrun
      obtain ⟨hquiet, hrest⟩ := List.forall_mem_cons.1 hquiet
      rcases htick : m.tick? with _ | now
      · have htimes : tickTimes (m :: moves) = tickTimes moves := List.filterMap_cons_none htick
        have hasks : s.asks m = [] := by
          cases m <;> first | rfl | cases htick
        rw [htimes] at hsorted ⊢
        rw [hasks, List.nil_append]
        exact ih (h.move_quiet hquiet htick hmove) hrest hsorted hmore
      · obtain rfl : m = .tick now := by
          cases m <;> cases htick
          rfl
        have htimes : tickTimes (.tick now :: moves) = now :: tickTimes moves := rfl
        rw [htimes] at hsorted ⊢
        obtain ⟨-, -, hle⟩ := List.pairwise_append.1 hsorted
        obtain ⟨hnext, -⟩ := h.tick hs (fun n hn => hle n hn now List.mem_cons_self) hmove
        have hmore' := ih hnext hrest (by rwa [List.append_cons] at hsorted) hmore
        rw [← List.append_cons] at hmore'
        exact List.forall_mem_append.2 ⟨h.asks_fit hs hmove hsorted, hmore'⟩

end Changing

/-! ### The seam -/

section Handover

variable {text : String} (hs : s.transport.timing.Positive) (hp : s.transport.program = some p)
  (hedit : (s.editor.evaluate text).result = .ok p')
  (hwaits : (s.evaluate text).result = .ok (.atBoundary boundary))
  (hquiet : ∀ m ∈ moves, m.Quiet read) (hticks : (tickTimes moves).Pairwise (· ≤ ·))
  (hrun : (s.evaluate text).state.run read moves = .ok (s', asked))
include hs hp hedit hwaits hquiet hticks hrun

/-- After an edit that is to wait for a bar line, every tick fits into the change. -/
theorem fits_of_run :
    ∀ a ∈ asked, a.Fits s.transport.timing p p' boundary (tickTimes moves) := by
  obtain ⟨hruns, htransport, hwaiting⟩ := Session.evaluate_atBoundary hedit hwaits
  have hchanging : Changing s.transport.timing p p' boundary [] (s.evaluate text).state := by
    constructor
    case timing => rw [htransport]
    case runs => rw [htransport, hruns]
    case swept => simp
    case programs => exact .inl ⟨by rw [htransport, hp], hwaiting⟩
  exact hchanging.run_fits hs hquiet hticks hrun

/-- **The seam lies where the last tick before the bar line had looked to.**  Let an edit be
accepted while a program plays, and be told to take over at a bar line; let the host then tick at
times that do not go back, and do nothing else that changes what plays.  Then a grid time is asked
of the old program exactly if some tick from before the bar line looks past it, on whichever side of
the bar line it lies, and of the new program otherwise. -/
theorem handover_seam : ∀ a ∈ asked,
    (a.program = p ∧ ∃ now ∈ tickTimes moves, now + slack < boundary ∧
      a.time < s.transport.timing.horizon now) ∨
    (a.program = p' ∧ ∀ now ∈ tickTimes moves, now + slack < boundary →
      s.transport.timing.horizon now ≤ a.time) := by
  intro a ha
  have hfits := fits_of_run hs hp hedit hwaits hquiet hticks hrun a ha
  rcases hfits.program with ⟨hearly, hold⟩ | ⟨hdue, hnew⟩
  · exact .inl ⟨hold, a.now, hfits.tick, hearly, hfits.ahead⟩
  · refine .inr ⟨hnew, fun now hnow hearly => hfits.unswept now hnow ?_⟩
    linarith

/-- **Where no tick before the bar line looks past it, the change is seamless**, for a bar line on
the grid, and if no tick falls into the slack before it. -/
theorem handover_seamless (hgrid : ∃ j : ℤ, boundary = j * s.transport.timing.step)
    (hearly : ∀ now ∈ tickTimes moves, now < boundary →
      now + slack < boundary ∧ s.transport.timing.horizon now ≤ boundary) :
    Seamless p p' boundary asked := by
  intro a ha
  simp only [lt_eq_decide, le_eq_decide, decide_eq_true_eq]
  have hfits := fits_of_run hs hp hedit hwaits hquiet hticks hrun a ha
  rcases lt_or_ge a.now boundary with hlt | hge
  · -- a tick before the bar line asks the old program, and not past the bar line
    obtain ⟨hslack, hhorizon⟩ := hearly a.now hfits.tick hlt
    have hbefore : a.time < boundary := hfits.ahead.trans_le hhorizon
    rcases hfits.program with ⟨-, hold⟩ | ⟨hdue, -⟩
    · exact ⟨fun _ => hold, fun h => absurd hbefore (not_lt.2 h)⟩
    · exact absurd hslack (not_lt.2 hdue)
  · -- a tick from the bar line on asks the new one, from the bar line on
    obtain ⟨i, hi, htime⟩ := hfits.grid
    obtain ⟨j, rfl⟩ := hgrid
    have hstep := hs.step_pos
    have hji : j ≤ i := (Int.le_floor.2 ((le_div_iff₀ hstep).2 hge)).trans hi
    have hafter : (j : ℚ) * s.transport.timing.step ≤ a.time := by
      rw [htime]
      exact mul_le_mul_of_nonneg_right (Int.cast_le.2 hji) hstep.le
    have hslack : (0 : ℚ) < slack := by rw [slack_eq]; norm_num
    rcases hfits.program with ⟨hnever, -⟩ | ⟨-, hnew⟩
    · linarith
    · exact ⟨fun h => absurd hafter (not_le.2 h), fun _ => hnew⟩

end Handover

/-! ### A tick shortly before the bar line -/

section LateTicks

variable {α : Type} [Quantity α]

/-- A session that was not used yet, with the standard timing and bars of four beats. -/
def freshSession : Session α := .new (.new (.recorder (ofInt 0) 0) .standard 1) (.new (ofInt 4))

/-- A kick on every beat. -/
def kicks : String := "event(kick, 36, 1, T) :- every(T, 1)."

/-- A snare on every beat. -/
def snares : String := "event(snare, 38, 1, T) :- every(T, 1)."

/-- The kicks start to play, and the clock goes on into the first bar. -/
def kickMoves : List (Move α) := [.edit kicks, .tick (ofInt 0), .clock (ofDecimal 13 1)]

/-- Of two ticks the first one comes before the bar line, by less than the lookahead. -/
def lateTicks : List (Move α) := [.tick (ofDecimal 195 2), .tick (ofInt 2)]

/-- There are no files. -/
def noFiles : FileReader := fun _ => .error .notFound

/-- The bar line that a program is to wait for. -/
def Install.boundary? : Install α → Option α
  | .immediate => none
  | .atBoundary boundary => some boundary

/-- What can be seen of a change of programs: their texts, the bar line, and after some ticks that
no program waits, and which program they asked when. -/
structure Sight (α : Type) where
  old : Option String
  new : Option String
  /-- The bar line that the edit is told, if it is told one. -/
  boundary : Option (Option α)
  taken : Option Bool
  asked : Option (List (α × String))
deriving DecidableEq

/-- What is seen when the kicks are to become snares. -/
def sightOf (s : Session α) : Sight α :=
  let ticked := ((s.evaluate snares).state.run noFiles lateTicks).toOption
  { old := s.transport.program.map Program.text
    new := (s.editor.evaluate snares).result.toOption.map Program.text
    boundary := (s.evaluate snares).result.toOption.map Install.boundary?
    taken := ticked.map fun r => r.1.handover.waiting.isNone
    asked := ticked.map fun r => r.2.map fun a => (a.time, a.program.text) }

/-- What is seen has come to be. -/
theorem exists_of_sightOf {old new : String} {boundary : α} {times : List (α × String)}
    (h : (freshSession.run noFiles kickMoves).toOption.map (fun r => sightOf r.1) =
      some ⟨some old, some new, some (some boundary), some true, some times⟩) :
    ∃ (s : Session α) (earlier : List (Asking α)) (p p' : Program) (s' : Session α)
      (asked : List (Asking α)),
      freshSession.run noFiles kickMoves = .ok (s, earlier) ∧
      s.transport.program = some p ∧ (s.editor.evaluate snares).result = .ok p' ∧
      (s.evaluate snares).result = .ok (.atBoundary boundary) ∧
      (s.evaluate snares).state.run noFiles lateTicks = .ok (s', asked) ∧
      s'.handover.waiting = none ∧ p.text = old ∧ p'.text = new ∧
      asked.map (fun a => (a.time, a.program.text)) = times := by
  obtain ⟨⟨s, earlier⟩, hkicks, hsight⟩ := exists_ok h
  simp only [sightOf, Sight.mk.injEq] at hsight
  obtain ⟨hold, hnew, hboundary, htaken, hasked⟩ := hsight
  obtain ⟨p, hp, hold⟩ := Option.map_eq_some_iff.1 hold
  obtain ⟨p', hedit, hnew⟩ := exists_ok hnew
  obtain ⟨installed, hinstalled, hboundary⟩ := exists_ok hboundary
  obtain ⟨⟨s', asked⟩, hrun, hasked⟩ := exists_ok hasked
  have htold : installed = .atBoundary boundary := by
    cases installed <;> cases hboundary
    rfl
  rw [hrun] at htaken
  have hnone : s'.handover.waiting.isNone = true := Option.some.inj htaken
  exact ⟨s, earlier, p, p', s', asked, hkicks, hp, hedit, htold ▸ hinstalled, hrun,
    Option.isNone_iff_eq_none.1 hnone, hold, hnew, hasked⟩

end LateTicks

/-- The first tick looks past the bar line, so that the bar line itself is the old program's. -/
theorem handover_seam_lookahead : ∃ (s : Session ℚ) (p p' : Program) (s' : Session ℚ)
    (asked : List (Asking ℚ)),
    (s.evaluate snares).result = .ok (.atBoundary 2) ∧
    (s.evaluate snares).state.run noFiles lateTicks = .ok (s', asked) ∧
    s'.handover.waiting = none ∧ p.text = kicks ++ "\n" ∧ p'.text = snares ++ "\n" ∧
    asked.map (fun a => (a.time, a.program.text)) =
      [(15 / 8, kicks ++ "\n"), (2, kicks ++ "\n")] ∧
    ∀ a ∈ asked,
      (a.program = p ∧ ∃ now ∈ tickTimes lateTicks, now + slack < 2 ∧
        a.time < s.transport.timing.horizon now) ∨
      (a.program = p' ∧ ∀ now ∈ tickTimes lateTicks, now + slack < 2 →
        s.transport.timing.horizon now ≤ a.time) := by
  have hsight : ((freshSession.run noFiles kickMoves).toOption.map fun r => sightOf r.1) =
      some ⟨some (kicks ++ "\n"), some (snares ++ "\n"), some (some (2 : ℚ)), some true,
        some [(15 / 8, kicks ++ "\n"), (2, kicks ++ "\n")]⟩ := by
    decide +kernel
  obtain ⟨s, earlier, p, p', s', asked, hkicks, hp, hedit, hwaits, hrun, htaken, hold, hnew,
    hasked⟩ := exists_of_sightOf hsight
  have hs : s.transport.timing.Positive := Session.run_positive Timing.positive_standard hkicks
  have hquiet : ∀ m ∈ lateTicks (α := ℚ), m.Quiet noFiles := by
    simp [lateTicks, Move.Quiet]
  have hticks : (tickTimes (lateTicks (α := ℚ))).Pairwise (· ≤ ·) := by
    decide +kernel
  exact ⟨s, p, p', s', asked, hwaits, hrun, htaken, hold, hnew, hasked,
    handover_seam hs hp hedit hwaits hquiet hticks hrun⟩

/-- **A tick shortly before the bar line, and the change is not seamless**, in the arithmetic of the
program: after an edit that is to take over at two seconds, and has done so, the two seconds were
asked of the old program. -/
theorem handover_not_seamless : ∃ (s : Session Float) (earlier : List (Asking Float))
    (p p' : Program) (s' : Session Float) (asked : List (Asking Float)),
    freshSession.run noFiles kickMoves = .ok (s, earlier) ∧
    s.transport.program = some p ∧ (s.editor.evaluate snares).result = .ok p' ∧
    (s.evaluate snares).result = .ok (.atBoundary 2) ∧
    (s.evaluate snares).state.run noFiles lateTicks = .ok (s', asked) ∧
    s'.handover.waiting = none ∧ ¬ Seamless p p' 2 asked := by
  have hsight : ((freshSession.run noFiles kickMoves).toOption.map fun r => sightOf r.1) =
      some ⟨some (kicks ++ "\n"), some (snares ++ "\n"), some (some (2 : Float)), some true,
        some [(1.875, kicks ++ "\n"), (2, kicks ++ "\n")]⟩ := by
    decide +kernel
  obtain ⟨s, earlier, p, p', s', asked, hkicks, hp, hedit, hwaits, hrun, htaken, -, hnew,
    hasked⟩ := exists_of_sightOf hsight
  refine ⟨s, earlier, p, p', s', asked, hkicks, hp, hedit, hwaits, hrun, htaken, ?_⟩
  intro hseamless
  -- the bar line was asked of a program with the text of the kicks
  have hline : ((2 : Float), kicks ++ "\n") ∈ asked.map fun a => (a.time, a.program.text) :=
    hasked ▸ List.mem_cons_of_mem _ List.mem_cons_self
  obtain ⟨a, ha, hat⟩ := List.mem_map.1 hline
  obtain ⟨htime, htext⟩ := Prod.mk.inj hat
  have hprogram : a.program = p' := (hseamless a ha).2 (by rw [htime]; decide +kernel)
  rw [hprogram, hnew] at htext
  exact absurd htext (by decide)

end RhythmLogic
