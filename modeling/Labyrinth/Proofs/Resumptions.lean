import Labyrinth.Proofs.Verdicts
import Mathlib.Order.Bounds.Basic

/-!
# Resumptions

An engine is resumed until its run is over. This takes at most one resumption more than there are
instructions in the budget, and it does not matter when the printed lines are taken. An engine may
be asked for them after every resumption, as a game does it, or only in the end, as it is done
after `Engine.drive`: the lines are the same, and so is everything else.

## Main results

* `Engine.tells_resume`: what an engine tells is what has become of the world.
* `Engine.exists_endsAfter`: every run ends, and how soon it does.
* `Engine.resumed_eq_reports`: it does not matter when the lines are taken.
* `Engine.drive_eq_resumed`, `Engine.drive_eq_reports`: to drive an engine is to resume it until its
  run is over.
-/

namespace Labyrinth

/-! ### What an engine tells -/

namespace Progress

/-- The result that is told by some progress. -/
def result? : Progress → Option RunResult
  | finished result => some result
  | _ => none

theorem result?_of_goesOn {progress : Progress} (h : progress.goesOn = true) :
    progress.result? = none := by
  cases progress with
  | finished result => cases h
  | _ => rfl

/-- Some progress **tells** what has become of a world: a cursor that has moved has made a step, one
that has been blocked has tried to, and all other progress leaves the world as it is. -/
def Tells (w w' : World) : Progress → Prop
  | moved origin target moves =>
    (∃ d, w.step d = (.moved origin target, w')) ∧ moves = w'.moves
  | blocked cell d => w.step d = (.blocked cell, w')
  | _ => w' = w

end Progress

namespace Engine

/-- What an engine tells is what has become of the world. -/
theorem tells_resume (e : Engine) (w : World) : (e.resume w).1.Tells w (e.resume w).2.2 := by
  obtain ⟨limits, _ | m, output⟩ := e
  · rfl
  have hcases := m.step_or_ended w
  simp only [resume]
  generalize m.resume w = r at hcases
  obtain ⟨step, m', w'⟩ := r
  rcases hcases with ⟨d, rfl, rfl⟩ | ⟨ending, rfl, rfl⟩
  · cases hstep : w.step d with
    | mk move w' =>
      cases move with
      | moved origin target => exact ⟨⟨d, hstep⟩, rfl⟩
      | blocked cell => exact hstep
  · rfl

/-- A run that is resumed goes on, or it is over and has been judged. -/
theorem resume_cases (limits : Limits) (m : Machine) (output : Array String) (w : World) :
    ∃ progress engine world,
      (Engine.mk limits (some m) output).resume w = (progress, engine, world) ∧
        world.grid = w.grid ∧
          (progress.goesOn = true ∧ engine.isRunning = true ∨
            ∃ result, progress = .finished result ∧ engine.isRunning = false ∧
              (result = .win → world.atExit = true)) := by
  have hgrid := m.grid_resume w
  cases hresume : m.resume w with
  | mk step rest =>
    obtain ⟨m', w'⟩ := rest
    rw [hresume] at hgrid
    cases hstep : step.isEnding with
    | true =>
      obtain ⟨ending, rfl⟩ := Step.exists_ending hstep
      exact ⟨_, _, w', resume_of_ended limits output hresume, hgrid,
        .inr ⟨_, rfl, rfl, Ending.atExit_of_win⟩⟩
    | false =>
      obtain ⟨progress, hgoes, heq⟩ := resume_of_step limits output hstep hresume
      exact ⟨progress, _, w', heq, hgrid, .inl ⟨hgoes, rfl⟩⟩

/-- A run in progress goes on when it is resumed, or its result is told. -/
theorem goesOn_or_finished {e : Engine} (h : e.isRunning = true) (w : World) :
    (e.resume w).1.goesOn = true ∧ (e.resume w).2.1.isRunning = true ∨
      ∃ result, (e.resume w).1 = .finished result ∧ (e.resume w).2.1.isRunning = false := by
  obtain ⟨limits, _ | m, output⟩ := e
  · cases h
  obtain ⟨progress, engine, world, heq, -, hcases⟩ := resume_cases limits m output w
  rw [heq]
  rcases hcases with hgoes | ⟨result, hfinished, hidle, -⟩
  · exact .inl hgoes
  · exact .inr ⟨result, hfinished, hidle⟩

/-! ### Resumptions in a row -/

/-- The progress of an engine that is resumed `n` times, and the engine and the world then. -/
def resumed (e : Engine) (w : World) : (n : Nat) → List Progress × Engine × World
  | 0 => ([], e, w)
  | n + 1 =>
    let rest := (e.resume w).2.1.resumed (e.resume w).2.2 n
    ((e.resume w).1 :: rest.1, rest.2)

/-- The run of an engine **ends after** `r` resumptions if it does not go on any longer then, but
has gone on until then. -/
def EndsAfter (e : Engine) (w : World) (r : Nat) : Prop :=
  IsLeast {n | (e.resumed w n).2.1.isRunning = false} r

variable {e : Engine} {w : World} {r : Nat}

theorem endsAfter_zero (h : e.isRunning = false) (w : World) : e.EndsAfter w 0 :=
  ⟨h, fun _ _ => Nat.zero_le _⟩

theorem endsAfter_succ_iff (h : e.isRunning = true) :
    e.EndsAfter w (r + 1) ↔ (e.resume w).2.1.EndsAfter (e.resume w).2.2 r := by
  constructor
  · rintro ⟨hends, hleast⟩
    exact ⟨hends, fun n hn => Nat.le_of_succ_le_succ (hleast (a := n + 1) hn)⟩
  · rintro ⟨hends, hleast⟩
    refine ⟨hends, fun n hn => ?_⟩
    cases n with
    | zero => exact absurd (h.symm.trans hn) nofun
    | succ n => exact Nat.succ_le_succ (hleast hn)

theorem EndsAfter.eq_zero_iff (h : e.EndsAfter w r) : r = 0 ↔ e.isRunning = false := by
  constructor
  · rintro rfl
    exact h.1
  · intro hidle
    exact h.unique (endsAfter_zero hidle w)

theorem EndsAfter.pos (h : e.EndsAfter w r) (hrunning : e.isRunning = true) : 0 < r :=
  Nat.pos_of_ne_zero fun hzero => absurd (hrunning.symm.trans (h.eq_zero_iff.1 hzero)) nofun

theorem EndsAfter.isRunning_of_pos (h : e.EndsAfter w r) (hr : 0 < r) : e.isRunning = true := by
  rw [← Bool.not_eq_false, ← h.eq_zero_iff]
  exact hr.ne'

/-- The end of a run in progress comes one resumption nearer with every resumption. -/
theorem EndsAfter.exists_succ (h : e.EndsAfter w r) (hrunning : e.isRunning = true) :
    ∃ k, r = k + 1 ∧ (e.resume w).2.1.EndsAfter (e.resume w).2.2 k := by
  cases r with
  | zero => exact absurd (hrunning.symm.trans h.1) nofun
  | succ k => exact ⟨k, rfl, (endsAfter_succ_iff hrunning).1 h⟩

/-- Every run ends, at the latest with one resumption more than its budget has instructions left. -/
theorem exists_endsAfter (e : Engine) (w : World) : ∃ r ≤ e.left + 1, e.EndsAfter w r := by
  induction hleft : e.left using Nat.strong_induction_on generalizing e w with
  | _ left ih =>
    cases hrunning : e.isRunning with
    | false => exact ⟨0, Nat.zero_le _, endsAfter_zero hrunning w⟩
    | true =>
      rcases goesOn_or_finished hrunning w with ⟨hgoes, -⟩ | ⟨-, -, hidle⟩
      · have hlt := hleft ▸ e.left_resume_lt w hgoes
        obtain ⟨r, hle, hends⟩ := ih _ hlt _ _ rfl
        exact ⟨r + 1, by omega, (endsAfter_succ_iff hrunning).2 hends⟩
      · exact ⟨1, by omega, (endsAfter_succ_iff hrunning).2 (endsAfter_zero hidle _)⟩

/-! ### Driving an engine -/

/-- To drive an engine is to resume it until its run is over. The result is told in the end. -/
theorem drive_eq_resumed (h : e.isRunning = true) (hends : e.EndsAfter w r) :
    (e.drive w).2 = (e.resumed w r).2 ∧
      (e.resumed w r).1.filterMap Progress.result? = [(e.drive w).1] := by
  induction r generalizing e w with
  | zero => exact absurd (h.symm.trans hends.1) nofun
  | succ r ih =>
    replace hends := (endsAfter_succ_iff h).1 hends
    rcases goesOn_or_finished h w with ⟨hgoes, hrunning⟩ | ⟨result, hfinished, hidle⟩
    · obtain ⟨hdrive, hresult⟩ := ih hrunning hends
      rw [drive_of_goesOn hgoes]
      refine ⟨hdrive, ?_⟩
      rw [resumed, List.filterMap_cons_none (Progress.result?_of_goesOn hgoes), hresult]
    · obtain rfl : r = 0 := hends.eq_zero_iff.2 hidle
      rw [drive_of_finished hfinished]
      refine ⟨rfl, ?_⟩
      rw [resumed, hfinished]
      rfl

/-! ### Reports -/

end Engine

/-- What an engine **reports** when it is resumed: the lines that have been printed since the last
report, and its progress. -/
structure Report where
  lines : Array String
  progress : Progress
  deriving DecidableEq, Repr

/-- The lines of several reports. -/
def Report.allLines : List Report → Array String
  | [] => #[]
  | report :: reports => report.lines ++ allLines reports

/-- The results that are reported. -/
def Report.results (reports : List Report) : List RunResult :=
  reports.filterMap fun report => report.progress.result?

namespace Engine

/-- Resumes an engine and takes the printed lines. -/
def report (e : Engine) (w : World) : Report × Engine × World :=
  (⟨(e.resume w).2.1.takeOutput.1, (e.resume w).1⟩, (e.resume w).2.1.takeOutput.2, (e.resume w).2.2)

/-- The reports of an engine that is resumed `n` times, and the engine and the world then. -/
def reports (e : Engine) (w : World) : (n : Nat) → List Report × Engine × World
  | 0 => ([], e, w)
  | n + 1 =>
    let rest := (e.report w).2.1.reports (e.report w).2.2 n
    ((e.report w).1 :: rest.1, rest.2)

/-- The engine with further lines that have been printed before and not been taken yet. -/
def prepend (lines : Array String) (e : Engine) : Engine := { e with output := lines ++ e.output }

variable {e : Engine} {w : World}

@[simp]
theorem isRunning_prepend (lines : Array String) (e : Engine) :
    (e.prepend lines).isRunning = e.isRunning := rfl

theorem prepend_prepend (lines further : Array String) (e : Engine) :
    (e.prepend further).prepend lines = e.prepend (lines ++ further) := by
  simp only [prepend, Array.append_assoc]

/-- The lines that are taken with a report are the ones that a resumption leaves to be taken. -/
theorem resume_eq_report (e : Engine) (w : World) :
    e.resume w = ((e.report w).1.progress, (e.report w).2.1.prepend (e.report w).1.lines,
      (e.report w).2.2) := by
  simp [report, takeOutput, prepend]

theorem resume_prepend (lines : Array String) (e : Engine) (w : World) :
    (e.prepend lines).resume w =
      ((e.resume w).1, (e.resume w).2.1.prepend lines, (e.resume w).2.2) := by
  obtain ⟨limits, _ | m, output⟩ := e
  · rfl
  simp only [prepend, resume]
  generalize m.resume w = r
  obtain ⟨step, m', w'⟩ := r
  cases step with
  | moved | blocked | ended => simp only [Array.append_assoc]

theorem resumed_prepend (lines : Array String) (e : Engine) (w : World) (n : Nat) :
    (e.prepend lines).resumed w n =
      ((e.resumed w n).1, (e.resumed w n).2.1.prepend lines, (e.resumed w n).2.2) := by
  induction n generalizing e w with
  | zero => rfl
  | succ n ih =>
    simp only [resumed]
    rw [resume_prepend, ih]

/-- It does not matter when the lines are taken. -/
theorem resumed_eq_reports (e : Engine) (w : World) (n : Nat) :
    e.resumed w n =
      ((e.reports w n).1.map Report.progress,
        (e.reports w n).2.1.prepend (Report.allLines (e.reports w n).1),
        (e.reports w n).2.2) := by
  induction n generalizing e w with
  | zero => simp [resumed, reports, Report.allLines, prepend]
  | succ n ih =>
    simp only [resumed, reports, Report.allLines, List.map_cons]
    rw [resume_eq_report, resumed_prepend, ih]
    simp only [prepend_prepend]

/-- A run in progress goes on when a report is asked for, or its result is reported. -/
theorem report_cases (h : e.isRunning = true) (w : World) :
    (e.report w).1.progress.result? = none ∧ (e.report w).2.1.isRunning = true ∨
      ∃ result, (e.report w).1.progress.result? = some result ∧
        (e.report w).2.1.isRunning = false := by
  rcases goesOn_or_finished h w with ⟨hgoes, hrunning⟩ | ⟨result, hfinished, hidle⟩
  · exact .inl ⟨Progress.result?_of_goesOn hgoes, hrunning⟩
  · exact .inr ⟨result, congrArg Progress.result? hfinished, hidle⟩

/-- The end of a run comes no sooner or later if the lines are taken. -/
theorem EndsAfter.report {r : Nat} (h : e.EndsAfter w r) (hrunning : e.isRunning = true) :
    ∃ k, r = k + 1 ∧ (e.report w).2.1.EndsAfter (e.report w).2.2 k := by
  obtain ⟨k, rfl, hends⟩ := h.exists_succ hrunning
  rw [resume_eq_report] at hends
  exact ⟨k, rfl, by simpa only [EndsAfter, resumed_prepend, isRunning_prepend] using hends⟩

theorem limits_resume (e : Engine) (w : World) : (e.resume w).2.1.limits = e.limits := by
  obtain ⟨limits, _ | m, output⟩ := e
  · rfl
  simp only [resume]
  generalize m.resume w = r
  obtain ⟨step, m', w'⟩ := r
  cases step with
  | moved | blocked | ended => rfl

theorem limits_reports (e : Engine) (w : World) (n : Nat) :
    (e.reports w n).2.1.limits = e.limits := by
  induction n generalizing e w with
  | zero => rfl
  | succ n ih => exact (ih _ _).trans (limits_resume e w)

/-- No lines are left to be taken after a report. -/
theorem output_reports {e : Engine} (h : e.output = #[]) (w : World) (n : Nat) :
    (e.reports w n).2.1.output = #[] := by
  induction n generalizing e w with
  | zero => exact h
  | succ n ih => exact ih rfl _

theorem EndsAfter.reports {r n : Nat} (h : e.EndsAfter w r) (hle : n ≤ r) :
    (e.reports w n).2.1.EndsAfter (e.reports w n).2.2 (r - n) := by
  induction n generalizing e w r with
  | zero => exact h
  | succ n ih =>
    obtain ⟨k, rfl, hends⟩ := h.report (h.isRunning_of_pos (Nat.zero_lt_of_lt hle))
    rw [Nat.succ_sub_succ]
    exact ih hends (Nat.le_of_succ_le_succ hle)

theorem reports_add (e : Engine) (w : World) (m n : Nat) :
    e.reports w (m + n) =
      let first := e.reports w m
      let rest := first.2.1.reports first.2.2 n
      (first.1 ++ rest.1, rest.2) := by
  induction m generalizing e w with
  | zero => simp [reports]
  | succ m ih =>
    rw [Nat.succ_add]
    simp only [reports, ih, List.cons_append]

/-- An engine that is driven prints what its reports tell, and it comes to the result that is
reported. -/
theorem drive_eq_reports (h : e.isRunning = true) (houtput : e.output = #[]) {r : Nat}
    (hends : e.EndsAfter w r) :
    Report.results (e.reports w r).1 = [(e.drive w).1] ∧
      (e.drive w).2.1.output = Report.allLines (e.reports w r).1 ∧
        (e.drive w).2.2 = (e.reports w r).2.2 := by
  obtain ⟨hdrive, hresult⟩ := drive_eq_resumed h hends
  rw [resumed_eq_reports] at hdrive hresult
  rw [List.filterMap_map] at hresult
  refine ⟨hresult, ?_, ?_⟩
  · rw [hdrive, prepend, output_reports houtput, Array.append_empty]
  · rw [hdrive]

end Engine

end Labyrinth
