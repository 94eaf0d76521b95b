import Labyrinth.Proofs.Games

/-!
# The passing of time

A game resumes its run whenever the delay has passed. Into how many portions the time is divided in
which it passes makes no difference: what counts is how much of it has passed since the run was
resumed last. The time that is left over is kept for the next step, until the run is over.

## Main results

* `Game.resume_eq_report`: what is noted of a resumption.
* `Game.steps_eq_elapse`: the steps that are made when time has passed.
* `Game.elapse_elapse`: time that passes in two portions.
* `Game.applyAll_tick_eq_elapse`: time that passes in any portions.
* `Game.exists_applyAll_tick`: time that passes in any game, also without a delay.
-/

namespace Labyrinth

/-! ### Events of reports -/

/-- The events of a report: the lines, then the progress. -/
def Report.events (report : Report) : Array Event :=
  report.lines.map Event.printed ++ Game.progressEvents report.progress

/-- The events of several reports. -/
def Report.allEvents : List Report → Array Event
  | [] => #[]
  | report :: reports => report.events ++ allEvents reports

theorem Report.allEvents_append (reports further : List Report) :
    allEvents (reports ++ further) = allEvents reports ++ allEvents further := by
  induction reports with
  | nil => simp [allEvents]
  | cons report reports ih => simp only [List.cons_append, allEvents, ih, Array.append_assoc]

/-- The result that was reported last, or the given one if there is none. -/
def Report.lastResult (reports : List Report) (default : Option RunResult) : Option RunResult :=
  (results reports).getLast?.or default

theorem Report.lastResult_append (reports further : List Report) (default : Option RunResult) :
    lastResult (reports ++ further) default = lastResult further (lastResult reports default) := by
  simp only [lastResult, results, List.filterMap_append, List.getLast?_append, Option.or_assoc]

namespace Game

/-! ### Resumptions of the run -/

/-- What is noted of a resumption: the events of the engine's report, and the result if there is
one. -/
theorem resume_eq_report (g : Game) :
    g.resume =
      ((g.engine.report g.world).1.events,
        { g with
          engine := (g.engine.report g.world).2.1
          world := (g.engine.report g.world).2.2
          waited := if (g.engine.report g.world).1.progress.result?.isSome then 0 else g.waited
          lastResult := (g.engine.report g.world).1.progress.result?.or g.lastResult }) := by
  obtain ⟨level, world, engine, source, saved, delay, waited, lastResult⟩ := g
  simp only [resume, record_eq]
  rfl

theorem engine_resume (g : Game) : g.resume.2.engine = (g.engine.report g.world).2.1 := by
  rw [resume_eq_report]

theorem world_resume (g : Game) : g.resume.2.world = (g.engine.report g.world).2.2 := by
  rw [resume_eq_report]

theorem delay_resume (g : Game) : g.resume.2.delay = g.delay := by
  rw [resume_eq_report]

/-- The game with other time that is kept. -/
def keep (time : Nat) (g : Game) : Game := { g with waited := time }

@[simp]
theorem waited_keep (time : Nat) (g : Game) : (g.keep time).waited = time := rfl

@[simp]
theorem delay_keep (time : Nat) (g : Game) : (g.keep time).delay = g.delay := rfl

@[simp]
theorem keep_keep (time further : Nat) (g : Game) :
    (g.keep time).keep further = g.keep further := rfl

@[simp]
theorem keep_waited (g : Game) : g.keep g.waited = g := rfl

/-- Whatever time is kept, the run is resumed alike. No time is kept when it is over. -/
theorem resume_keep (g : Game) (time : Nat) :
    (g.keep time).resume =
      (g.resume.1,
        g.resume.2.keep
          (if (g.engine.report g.world).1.progress.result?.isSome then 0 else time)) := by
  rw [resume_eq_report, resume_eq_report]
  rfl

/-- The events of the first `n` resumptions of the run, and the game then. No time has been taken
for them. -/
def resumeTimes (g : Game) (n : Nat) : Array Event × Game :=
  let run := g.engine.reports g.world n
  (Report.allEvents run.1,
    { g with
      engine := run.2.1
      world := run.2.2
      lastResult := Report.lastResult run.1 g.lastResult })

theorem resumeTimes_zero (g : Game) : g.resumeTimes 0 = (#[], g) := rfl

@[simp]
theorem delay_resumeTimes (g : Game) (n : Nat) : (g.resumeTimes n).2.delay = g.delay := rfl

theorem resumeTimes_keep (g : Game) (time n : Nat) :
    (g.keep time).resumeTimes n = ((g.resumeTimes n).1, (g.resumeTimes n).2.keep time) := rfl

theorem resumeTimes_add (g : Game) (m n : Nat) :
    g.resumeTimes (m + n) =
      ((g.resumeTimes m).1 ++ ((g.resumeTimes m).2.resumeTimes n).1,
        ((g.resumeTimes m).2.resumeTimes n).2) := by
  simp only [resumeTimes, Engine.reports_add, Report.allEvents_append, Report.lastResult_append]

/-- The first resumption may be told of apart from the others. -/
theorem resumeTimes_succ (g : Game) (n : Nat) :
    g.resumeTimes (n + 1) =
      (g.resume.1 ++ (g.resume.2.resumeTimes n).1,
        (g.resume.2.resumeTimes n).2.keep g.waited) := by
  rw [Nat.add_comm, resumeTimes_add, resume_eq_report]
  simp [resumeTimes, Engine.reports, Report.allEvents, Report.lastResult, Report.results, keep]

/-! ### Time that passes -/

/-- What happens in a game if the run is over after `r` resumptions and `time` has passed since the
last one: the run is resumed for each delay that has passed, until it is over. Whatever time is left
is kept for the next step of the run. -/
def elapse (g : Game) (r time : Nat) : Array Event × Game :=
  let n := min (time / g.delay) r
  ((g.resumeTimes n).1, (g.resumeTimes n).2.keep (if n < r then time - n * g.delay else 0))

theorem elapse_zero (g : Game) (time : Nat) : g.elapse 0 time = (#[], g.keep 0) := by
  simp [elapse, resumeTimes_zero]

/-- Before the delay has passed, nothing happens. -/
theorem elapse_of_lt {g : Game} {r time : Nat} (htime : time < g.delay) (hr : 0 < r) :
    g.elapse r time = (#[], g.keep time) := by
  simp [elapse, Nat.div_eq_of_lt htime, resumeTimes_zero, hr]

/-- When the delay has passed, the run is resumed. -/
theorem elapse_succ {g : Game} {time : Nat} (hpos : 0 < g.delay) (htime : g.delay ≤ time)
    (r : Nat) :
    g.elapse (r + 1) time =
      (g.resume.1 ++ (g.resume.2.elapse r (time - g.delay)).1,
        (g.resume.2.elapse r (time - g.delay)).2) := by
  have hquotient : min (time / g.delay) (r + 1) = min ((time - g.delay) / g.delay) r + 1 := by
    rw [Nat.div_eq_sub_div hpos htime, Nat.add_min_add_right]
  simp only [elapse, delay_resume, hquotient, resumeTimes_succ, Nat.add_lt_add_iff_right,
    Nat.succ_mul, Nat.sub_sub, Nat.add_comm g.delay, keep_keep]

theorem elapse_keep (g : Game) (kept r time : Nat) :
    (g.keep kept).elapse r time = g.elapse r time := rfl

/-- The steps that are made when time has passed. -/
theorem steps_eq_elapse {g : Game} {r : Nat} (hpos : 0 < g.delay)
    (hends : g.engine.EndsAfter g.world r) (hidle : g.engine.isRunning = false → g.waited = 0)
    (events : Array Event) :
    steps events g = (events ++ (g.elapse r g.waited).1, (g.elapse r g.waited).2) := by
  induction r generalizing g events with
  | zero =>
    have hover := hends.eq_zero_iff.1 rfl
    rw [steps_of_not_due events fun hdue => absurd (hover.symm.trans hdue.1) nofun, elapse_zero,
      ← hidle hover, keep_waited, Array.append_empty]
  | succ r ih =>
    have hrunning := hends.isRunning_of_pos r.succ_pos
    by_cases htime : g.delay ≤ g.waited
    · obtain ⟨k, hk, hends'⟩ := hends.report hrunning
      obtain rfl : r = k := Nat.succ.inj hk
      rw [← engine_resume, ← world_resume] at hends'
      have hcases := Engine.report_cases hrunning g.world
      rw [← engine_resume] at hcases
      have hrest (time : Nat) (hidle : g.resume.2.engine.isRunning = false → time = 0) :=
        ih (g := g.resume.2.keep time) (g.delay_resume.symm ▸ hpos) hends' hidle
          (events ++ g.resume.1)
      rw [steps_of_due events ⟨hrunning, hpos, htime⟩, elapse_succ hpos htime, spend, ← keep,
        resume_keep]
      rcases hcases with ⟨hnone, hgoes⟩ | ⟨result, hsome, hover⟩
      · have hlater := hrest (g.waited - g.delay) fun hover =>
          absurd (hgoes.symm.trans hover) nofun
        rw [hnone, Option.isSome_none, if_neg nofun, hlater, elapse_keep, Array.append_assoc]
        rfl
      · obtain rfl : r = 0 := hends'.eq_zero_iff.2 hover
        rw [hsome, Option.isSome_some, if_pos rfl, hrest 0 fun _ => rfl, elapse_keep, elapse_zero,
          elapse_zero, Array.append_assoc]
    · have hlt := Nat.lt_of_not_le htime
      rw [steps_of_not_due events fun hdue => htime hdue.2.2,
        elapse_of_lt hlt r.succ_pos, keep_waited, Array.append_empty]

/-- Time that passes is time that is kept, as long as it can be counted. -/
theorem tick_eq_elapse {g : Game} {r : Nat} (hpos : 0 < g.delay)
    (hends : g.engine.EndsAfter g.world r) (nanoseconds : Nat) :
    g.tick nanoseconds = g.elapse r (min (g.waited + nanoseconds) maxTime) := by
  unfold tick
  split
  · next hrunning =>
    have hsteps (time : Nat) := steps_eq_elapse (g := g.keep time) hpos hends
      (fun hover => absurd (hrunning.symm.trans hover) nofun) #[]
    rw [if_neg hpos.ne', ← keep, hsteps, elapse_keep, Array.empty_append]
    rfl
  · next hover =>
    obtain rfl : r = 0 := hends.eq_zero_iff.2 (Bool.eq_false_iff.2 hover)
    rw [elapse_zero]
    rfl

/-- Time that passes in two portions. -/
theorem elapse_elapse {g : Game} (hpos : 0 < g.delay) (r time further : Nat) :
    let first := g.elapse r time
    let rest := first.2.elapse (r - min (time / g.delay) r) (first.2.waited + further)
    g.elapse r (time + further) = (first.1 ++ rest.1, rest.2) := by
  by_cases hlt : time / g.delay < r
  · -- The run goes on, and what is left of the first portion is kept for the second one.
    have hmod : time - time / g.delay * g.delay = time % g.delay := Nat.mod_eq_sub_div_mul.symm
    have hquotient : (time + further) / g.delay =
        time / g.delay + (time % g.delay + further) / g.delay := by
      rw [← Nat.mul_add_div hpos, ← Nat.add_assoc, Nat.div_add_mod]
    have hleft (n : Nat) : time + further - (time / g.delay + n) * g.delay =
        time % g.delay + further - n * g.delay := by
      have htime := Nat.div_add_mod' time g.delay
      rw [Nat.add_mul]
      omega
    generalize hrest : (time % g.delay + further) / g.delay = rest at hquotient
    have hmin : min (time / g.delay + rest) r = time / g.delay + min rest (r - time / g.delay) := by
      omega
    have hiff : time / g.delay + min rest (r - time / g.delay) < r ↔
        min rest (r - time / g.delay) < r - time / g.delay := by omega
    simp only [elapse, Nat.min_eq_left hlt.le, if_pos hlt, hmod, hquotient, hmin, resumeTimes_add,
      hleft, hiff, waited_keep, delay_keep, delay_resumeTimes, hrest, resumeTimes_keep, keep_keep]
  · -- The run is over with the first portion.
    have hle := Nat.le_of_not_lt hlt
    have hle' : r ≤ (time + further) / g.delay :=
      hle.trans (Nat.div_le_div_right (Nat.le_add_right _ _))
    rw [Nat.min_eq_right hle, Nat.sub_self]
    simp only [elapse_zero]
    simp only [elapse, Nat.min_eq_right hle, Nat.min_eq_right hle', Nat.lt_irrefl, if_false,
      keep_keep, Array.append_empty]

theorem waited_elapse_le (g : Game) (r time : Nat) : (g.elapse r time).2.waited ≤ time := by
  simp only [elapse, waited_keep]
  split
  · exact Nat.sub_le _ _
  · exact Nat.zero_le _

/-- Time that passes in any portions. -/
theorem applyAll_tick_eq_elapse {g : Game} (h : g.InOrder) (hpos : 0 < g.delay) {r : Nat}
    (hends : g.engine.EndsAfter g.world r) (ticks : List Nat)
    (hsum : g.waited + ticks.sum ≤ maxTime) :
    g.applyAll (ticks.map .tick) = g.elapse r (g.waited + ticks.sum) := by
  induction ticks generalizing g r with
  | nil =>
    rw [List.sum_nil, Nat.add_zero]
    cases hrunning : g.engine.isRunning with
    | true =>
      rw [elapse_of_lt (h.patient hrunning hpos) (hends.pos hrunning), keep_waited]
      rfl
    | false =>
      obtain rfl : r = 0 := hends.eq_zero_iff.2 hrunning
      rw [elapse_zero, ← h.idle hrunning, keep_waited]
      rfl
  | cons t ticks ih =>
    rw [List.sum_cons, ← Nat.add_assoc] at hsum ⊢
    have hfirst : g.tick t = g.elapse r (g.waited + t) := by
      rw [tick_eq_elapse hpos hends, Nat.min_eq_left (Nat.le_of_add_right_le hsum)]
    have horder := inOrder_tick h t
    rw [hfirst] at horder
    have hends' := hends.reports (Nat.min_le_right ((g.waited + t) / g.delay) r)
    have hrest := ih horder hpos hends'
      ((Nat.add_le_add_right (waited_elapse_le g r _) _).trans hsum)
    rw [elapse_elapse hpos, ← hrest, List.map_cons, applyAll]
    simp only [apply, hfirst]

/-! ### Any passing of time -/

/-- However time passes, the run is resumed a number of times, and only the time that is kept is
left open. If the delay passes each time, the run is resumed each time. -/
theorem exists_tick_eq {g : Game} {r : Nat} (hends : g.engine.EndsAfter g.world r)
    (nanoseconds : Nat) :
    ∃ n ≤ r, ∃ time, g.tick nanoseconds = ((g.resumeTimes n).1, (g.resumeTimes n).2.keep time) ∧
      (g.delay ≤ maxTime → g.delay ≤ nanoseconds → min 1 r ≤ n) := by
  cases hrunning : g.engine.isRunning with
  | false =>
    obtain rfl : r = 0 := hends.eq_zero_iff.2 hrunning
    refine ⟨0, le_rfl, 0, ?_, fun _ _ => Nat.min_le_right _ _⟩
    rw [tick, hrunning]
    rfl
  | true =>
    by_cases hdelay : g.delay = 0
    · refine ⟨1, hends.pos hrunning, g.resume.2.waited, ?_, fun _ _ => Nat.min_le_left _ _⟩
      rw [tick, if_pos hrunning, if_pos hdelay, resumeTimes_succ]
      simp [resumeTimes_zero]
    · have hpos := Nat.pos_of_ne_zero hdelay
      refine ⟨_, Nat.min_le_right _ _, _, tick_eq_elapse hpos hends nanoseconds, fun hmax hle => ?_⟩
      have hquotient : 0 < min (g.waited + nanoseconds) maxTime / g.delay :=
        Nat.div_pos (Nat.le_min.2 ⟨Nat.le_add_left_of_le hle, hmax⟩) hpos
      exact min_le_min_right r hquotient

theorem exists_applyAll_tick {g : Game} {r : Nat} (hends : g.engine.EndsAfter g.world r)
    (ticks : List Nat) :
    ∃ n ≤ r, ∃ time,
      g.applyAll (ticks.map .tick) = ((g.resumeTimes n).1, (g.resumeTimes n).2.keep time) ∧
        (g.delay ≤ maxTime → (∀ t ∈ ticks, g.delay ≤ t) → min ticks.length r ≤ n) := by
  induction ticks generalizing g r with
  | nil => exact ⟨0, Nat.zero_le _, g.waited, rfl, fun _ _ => Nat.min_le_left _ _⟩
  | cons t ticks ih =>
    obtain ⟨m, hm, time, hfirst, hone⟩ := exists_tick_eq hends t
    obtain ⟨n, hn, time', hrest, hmany⟩ :=
      ih (g := (g.resumeTimes m).2.keep time) (hends.reports hm)
    refine ⟨m + n, by omega, time', ?_, fun hmax hall => ?_⟩
    · rw [List.map_cons, applyAll]
      simp only [apply, hfirst, hrest, resumeTimes_keep, keep_keep, resumeTimes_add]
    · have hone := hone hmax (hall t List.mem_cons_self)
      have hmany := hmany hmax fun t' ht' => hall t' (List.mem_cons_of_mem _ ht')
      rw [List.length_cons]
      omega

/-! ### Schedules -/

/-- It does not matter in what portions time passes. If some delays have passed since the last step
of the run, so many steps are made, unless the run is over before. -/
theorem elapse_applyAll_new (config : GameConfig) (saved : Option UInt32)
    (commands : List Command) (hpos : 0 < config.delay) :
    let g := ((new config saved).applyAll commands).2
    g.delay = config.delay ∧ ∃ r, g.engine.EndsAfter g.world r ∧
      ∀ ticks : List Nat, g.waited + ticks.sum ≤ maxTime →
        g.applyAll (ticks.map .tick) = g.elapse r (g.waited + ticks.sum) := by
  intro g
  have hdelay : g.delay = config.delay := (savesLevel_applyAll _ commands).delay
  obtain ⟨r, -, hends⟩ := g.engine.exists_endsAfter g.world
  have horder : g.InOrder := inOrder_applyAll (inOrder_new config saved) commands
  exact ⟨hdelay, r, hends, applyAll_tick_eq_elapse horder (hdelay.symm ▸ hpos) hends⟩

/-- A game in which a program of one step has been submitted, and ten nanoseconds are a delay. The
step is due after the second of three ticks, or in the middle of a longer one. -/
theorem elapse_applyAll_new_stepRight :
    let config : GameConfig := ⟨10, .default, 7⟩
    let g := ((new config none).applyAll [.submit .stepRight]).2
    0 < config.delay ∧ g.engine.isRunning = true ∧ g.waited + [4, 4, 7].sum ≤ maxTime ∧
      g.applyAll [.tick 4, .tick 4, .tick 7] = g.applyAll [.tick 15] := by
  intro config g
  have hg : g.engine.isRunning = true ∧ g.waited = 0 := by
    have hsubmit := apply_submit_of_code Program.code_stepRight (new config none)
    have happly : g = ((new config none).apply (.submit .stepRight)).2 := rfl
    rw [happly, hsubmit]
    exact ⟨rfl, rfl⟩
  obtain ⟨-, r, -, helapse⟩ := elapse_applyAll_new config none [.submit .stepRight] (by decide)
  have hsum : g.waited + [4, 4, 7].sum ≤ maxTime := by
    rw [hg.2]
    decide
  exact ⟨by decide, hg.1, hsum, (helapse [4, 4, 7] hsum).trans (helapse [15] hsum).symm⟩

end Game

end Labyrinth
