import Labyrinth.Proofs.Games.Submissions
import Labyrinth.Proofs.Machine.Correctness

/-!
# Runs in the events of a game

The events of a run stand between brackets. A run **opens** when it is told that it has started,
and it closes with its result, or when it is dropped: by a reset, by another maze, or by another
run. Only while a run is open does a game tell of printed lines, of moves, of walls that have been
hit, and of a result.

What a game tells of a run is an account of what its program does, from its beginning on and in the
order in which it is done; a run that is dropped is only told of in part. Nothing is left of it
that could be told later.

## Main results

* `Game.brackets_apply`: the brackets of the events of every command.
* `Game.prefix_of_noSubmit`: what is told of the run in progress until another one is submitted.
* `Engine.allEvents_reports`: what an engine tells is the account of its machine.
* `Game.bracketed_applyAll_new`: the runs of a game that is played.
-/

namespace Labyrinth

/-! ### Brackets -/

namespace Event

/-- Whether the event tells what a program has done or how its run has ended. -/
def isOfRun : Event → Bool
  | printed _ | cursorMoved .. | moveBlocked .. | runFinished _ => true
  | _ => false

/-- Whether a run is open after an event. -/
def opens (isOpen : Bool) : Event → Bool
  | runStarted _ => true
  | runFinished _ | runReset | mazeGenerated .. => false
  | _ => isOpen

end Event

/-- Events are **bracketed** if those of a run occur only while one is open. -/
def Bracketed (isOpen : Bool) : List Event → Prop
  | [] => True
  | e :: events => (e.isOfRun = true → isOpen = true) ∧ Bracketed (e.opens isOpen) events

theorem bracketed_append (isOpen : Bool) (events further : List Event) :
    Bracketed isOpen (events ++ further) ↔
      Bracketed isOpen events ∧ Bracketed (events.foldl Event.opens isOpen) further := by
  induction events generalizing isOpen with
  | nil => exact (iff_of_eq (true_and _)).symm
  | cons e events ih =>
    rw [List.cons_append, Bracketed, Bracketed, ih, and_assoc]
    rfl

/-- A run is only opened by its start. -/
theorem exists_runStarted_of_opens {events : List Event}
    (h : events.foldl Event.opens false = true) : ∃ d, .runStarted d ∈ events := by
  induction events using List.reverseRecOn with
  | nil => cases h
  | append_singleton events e ih =>
    rw [List.foldl_append, List.foldl_cons, List.foldl_nil] at h
    cases e with
    | runStarted d => exact ⟨d, by simp⟩
    | mazeGenerated | runFinished | runReset => cases h
    | cursorMoved | moveBlocked | printed | levelAdvanced | advanceRejected =>
      obtain ⟨d, hd⟩ := ih h
      exact ⟨d, List.mem_append_left _ hd⟩

/-- A run has at most one result: between two of them, another run is started. -/
theorem Bracketed.exists_runStarted {isOpen : Bool} {earlier between later : List Event}
    {result result' : RunResult}
    (h : Bracketed isOpen
      (earlier ++ .runFinished result :: between ++ .runFinished result' :: later)) :
    ∃ d, .runStarted d ∈ between := by
  rw [List.append_assoc, bracketed_append, List.cons_append, Bracketed, bracketed_append,
    Bracketed] at h
  obtain ⟨-, -, -, hopen, -⟩ := h
  exact exists_runStarted_of_opens (hopen rfl)

/-- Events that are bracketed when a run is open at first or not, and whether one is open then. -/
structure Brackets (isOpen : Bool) (events : Array Event) (isOpen' : Bool) : Prop where
  bracketed : Bracketed isOpen events.toList
  final : events.toList.foldl Event.opens isOpen = isOpen'

namespace Brackets

variable {isOpen isOpen' isOpen'' : Bool} {events further : Array Event}

theorem refl (isOpen : Bool) : Brackets isOpen #[] isOpen := ⟨trivial, rfl⟩

theorem single {e : Event} (h : e.isOfRun = true → isOpen = true) :
    Brackets isOpen #[e] (e.opens isOpen) := ⟨⟨h, trivial⟩, rfl⟩

theorem trans (h : Brackets isOpen events isOpen') (h' : Brackets isOpen' further isOpen'') :
    Brackets isOpen (events ++ further) isOpen'' := by
  constructor
  · rw [Array.toList_append, bracketed_append, h.final]
    exact ⟨h.bracketed, h'.bracketed⟩
  · rw [Array.toList_append, List.foldl_append, h.final, h'.final]

/-- Lines are printed while a run is open, and leave it open. -/
theorem printed (lines : Array String) : Brackets true (lines.map Event.printed) true := by
  have hlist (lines : List String) : Bracketed true (lines.map Event.printed) ∧
      (lines.map Event.printed).foldl Event.opens true = true := by
    induction lines with
    | nil => exact ⟨trivial, rfl⟩
    | cons line lines ih => exact ⟨⟨fun _ => rfl, ih.1⟩, ih.2⟩
  obtain ⟨hbracketed, hfinal⟩ := hlist lines.toList
  rw [← Array.toList_map] at hbracketed hfinal
  exact ⟨hbracketed, hfinal⟩

end Brackets

namespace Game

/-- The events of a game from `g` to `g'` are bracketed, where a run is open as long as it is in
progress. -/
def IsBracketed (g : Game) (events : Array Event) (g' : Game) : Prop :=
  Brackets g.engine.isRunning events g'.engine.isRunning

theorem brackets_resume {g : Game} (h : g.engine.isRunning = true) :
    g.IsBracketed g.resume.1 g.resume.2 := by
  obtain ⟨lines, engine, world, -, hcases⟩ := resume_cases h
  unfold IsBracketed
  rcases hcases with ⟨progress, hgoes, hrunning, heq⟩ | ⟨result, hover, -, heq⟩
  · rw [heq, h, hrunning]
    refine (Brackets.printed lines).trans ?_
    cases progress with
    | moved | blocked => exact .single fun _ => rfl
    | idle | started | finished => cases hgoes
  · rw [heq, h, hover]
    exact (Brackets.printed lines).trans (.single fun _ => rfl)

theorem brackets_tick (g : Game) (nanoseconds : Nat) :
    g.IsBracketed (g.tick nanoseconds).1 (g.tick nanoseconds).2 := by
  unfold tick
  split
  · next hrunning =>
    split
    · exact brackets_resume hrunning
    · refine (steps_induction (P := g.IsBracketed) (fun events g' hg hdue => ?_) #[] _ ?_).1
      · exact hg.trans (brackets_resume (g := g'.spend) hdue.1)
      · exact .refl _
  · exact .refl _

/-- The events of every command are bracketed, if no lines of a run that has been dropped are
left. -/
theorem brackets_apply {g : Game} (h : g.engine.output = #[]) (c : Command) :
    g.IsBracketed (g.apply c).1 (g.apply c).2 := by
  cases c with
  | regenerate => exact .single nofun
  | reset => exact .single nofun
  | advance =>
    by_cases hwon : g.lastResult = some .win
    · rw [apply_advance_of_won hwon]
      exact .trans (.single nofun) (.single nofun)
    · rw [apply_advance_of_not_won hwon]
      exact .single nofun
  | submit p =>
    have hstart : Brackets g.engine.isRunning #[.runStarted p.dialect] true := .single nofun
    cases hcode : p.code with
    | ok code =>
      rw [apply_submit_of_code hcode, h]
      exact hstart.trans ((Brackets.printed #[]).trans (.refl true))
    | error err =>
      rw [apply_submit_of_error hcode, h]
      have hresult : Brackets true #[.runFinished (.errored err.message)] false :=
        .single fun _ => rfl
      exact hstart.trans ((Brackets.printed #[]).trans hresult)
  | tick nanoseconds => exact g.brackets_tick nanoseconds

theorem brackets_applyAll {limits : Limits} {g : Game} (h : g.Told limits)
    (commands : List Command) :
    g.IsBracketed (g.applyAll commands).1 (g.applyAll commands).2 := by
  refine (applyAll_induction (P := fun events g' => g'.Told limits ∧ g.IsBracketed events g')
    (fun events g' c hg => ?_) ⟨h, .refl _⟩ commands).2
  obtain ⟨htold, hevents⟩ := hg
  exact ⟨told_apply htold c, hevents.trans (brackets_apply htold.output_eq c)⟩

end Game

/-! ### Accounts -/

/-- How a game tells what a program does when the cursor has moved so often before. -/
def Deed.events (moves : UInt32) : List Deed → List Event
  | [] => []
  | .printed line :: deeds => .printed line :: events moves deeds
  | .tried (.moved origin target _) :: deeds =>
    .cursorMoved origin target (saturatingSucc moves) :: events (saturatingSucc moves) deeds
  | .tried (.blocked cell d) :: deeds => .moveBlocked cell d :: events moves deeds
  | .tried (.ended _) :: deeds => events moves deeds

/-- The **account** of a run: all that the program does when it is run on its own, in that order,
and then the result. A program that cannot be read does nothing. -/
def Program.account (p : Program) (limits : Limits) (w : World) : List Event :=
  let deeds := match p.code with
    | .ok code => ((Machine.start code limits).play ⟨w.reset, []⟩).deeds
    | .error _ => []
  Deed.events 0 deeds ++ [.runFinished (p.run limits w).1.result]

theorem Deed.events_printedAll (moves : UInt32) (lines : Array String) (deeds : List Deed) :
    events moves (printedAll lines ++ deeds) =
      (lines.map Event.printed).toList ++ events moves deeds := by
  have hlist (lines : List String) : events moves (lines.map .printed ++ deeds) =
      lines.map Event.printed ++ events moves deeds := by
    induction lines with
    | nil => rfl
    | cons line lines ih => exact congrArg _ ih
  rw [Array.toList_map]
  exact hlist lines.toList

namespace Engine

variable {m m' : Machine} {w w' : World} (limits : Limits)

/-- What an engine reports of a step is what there is to be told of it. -/
theorem exists_report_of_step {step : Step} (hstep : step.isEnding = false)
    (h : m.resume w = (step, m', w')) :
    ∃ progress : Progress, progress.goesOn = true ∧
      (Engine.mk limits (some m) #[]).report w =
        (⟨m'.output, progress⟩, ⟨limits, some m'.takeOutput.2, #[]⟩, w') ∧
      ∀ deeds, Deed.events w.moves (.tried step :: deeds) =
        (Game.progressEvents progress).toList ++ Deed.events w'.moves deeds := by
  have hworld := m.step_or_ended w
  rw [h] at hworld
  cases step with
  | ended ending => cases hstep
  | moved origin target d =>
    refine ⟨.moved origin target w'.moves, rfl, ?_, fun deeds => ?_⟩
    · simp only [report, resume, h, takeOutput, Machine.takeOutput, Array.empty_append]
    · obtain ⟨d', hmove, rfl⟩ | ⟨ending, hended, -⟩ := hworld
      · cases hw : w.step d' with
        | mk move w' =>
          rw [hw] at hmove
          cases move with
          | blocked => cases hmove
          | moved =>
            cases hmove
            obtain ⟨-, -, -, rfl⟩ := World.step_moved hw
            rfl
      · cases hended
  | blocked cell d =>
    refine ⟨.blocked cell d, rfl, ?_, fun deeds => ?_⟩
    · simp only [report, resume, h, takeOutput, Machine.takeOutput, Array.empty_append]
    · obtain ⟨d', hmove, rfl⟩ | ⟨ending, hended, -⟩ := hworld
      · cases hw : w.step d' with
        | mk move w' =>
          rw [hw] at hmove
          cases move with
          | moved => cases hmove
          | blocked =>
            obtain ⟨-, rfl⟩ := World.step_blocked hw
            rfl
      · cases hended

/-- What an engine tells until the end of its run is the account of what its machine does. -/
theorem allEvents_reports {r : Nat} (hends : (Engine.mk limits (some m) #[]).EndsAfter w r)
    (deeds : List Deed) :
    ∃ further, (m.play ⟨w, deeds⟩).deeds = deeds ++ further ∧
      (Report.allEvents ((Engine.mk limits (some m) #[]).reports w r).1).toList =
        Deed.events w.moves further ++
          (Report.results ((Engine.mk limits (some m) #[]).reports w r).1).map .runFinished := by
  induction r generalizing m w deeds with
  | zero => cases hends.1
  | succ r ih =>
    obtain ⟨k, hk, hends'⟩ := hends.report rfl
    obtain rfl : r = k := Nat.succ.inj hk
    generalize hresume : m.resume w = resumed
    obtain ⟨step, m', w'⟩ := resumed
    cases hstep : step.isEnding with
    | true =>
      obtain ⟨ending, rfl⟩ := Step.exists_ending hstep
      have hreport : (Engine.mk limits (some m) #[]).report w =
          (⟨m'.output, .finished (ending.result m'.executed w')⟩, ⟨limits, none, #[]⟩, w') := by
        simp only [report, Engine.resume_of_ended limits #[] hresume, takeOutput,
          Array.empty_append]
      rw [hreport] at hends'
      obtain rfl : r = 0 := hends'.eq_zero_iff.2 rfl
      refine ⟨printedAll m'.output, ?_, ?_⟩
      · rw [Machine.play_of_ended (g := ⟨w, deeds⟩) hresume]
      · rw [← List.append_nil (printedAll m'.output), Deed.events_printedAll, reports, hreport]
        simp [reports, Report.allEvents, Report.events, Report.results, Progress.result?,
          Game.progressEvents, Deed.events]
    | false =>
      obtain ⟨progress, hgoes, hreport, htold⟩ := exists_report_of_step limits hstep hresume
      rw [hreport] at hends'
      obtain ⟨further, hdeeds, hevents⟩ :=
        ih hends' (deeds ++ printedAll m'.output ++ [.tried step])
      refine ⟨printedAll m'.output ++ .tried step :: further, ?_, ?_⟩
      · rw [Machine.play_of_step (g := ⟨w, deeds⟩) hstep hresume, hdeeds]
        simp
      · have hresults (reports : List Report) :
            Report.results (⟨m'.output, progress⟩ :: reports) = Report.results reports :=
          List.filterMap_cons_none (Progress.result?_of_goesOn hgoes)
        rw [Deed.events_printedAll, htold, reports, hreport]
        simp only [Report.allEvents, Report.events, Array.toList_append, hevents, hresults,
          List.append_assoc]

end Engine

namespace Game

/-! ### What is told of a run -/

/-- All that is reported is of the run. -/
theorem filter_isOfRun_allEvents (reports : List Report) :
    (Report.allEvents reports).toList.filter Event.isOfRun = (Report.allEvents reports).toList := by
  have hevents (report : Report) (e : Event) (he : e ∈ report.events) : e.isOfRun = true := by
    rcases Array.mem_append.1 he with hline | hprogress
    · obtain ⟨line, -, rfl⟩ := Array.mem_map.1 hline
      rfl
    · obtain ⟨lines, progress⟩ := report
      cases progress with
      | idle | started => simp [progressEvents] at hprogress
      | moved | blocked | finished =>
        obtain rfl := Array.mem_singleton.1 hprogress
        rfl
  induction reports with
  | nil => rfl
  | cons report reports ih =>
    have hreport := List.filter_eq_self.2 fun e he => hevents report e (Array.mem_toList_iff.1 he)
    rw [Report.allEvents, Array.toList_append, List.filter_append, hreport, ih]

theorem toList_applyAll_cons (g : Game) (c : Command) (commands : List Command) :
    (g.applyAll (c :: commands)).1.toList =
      (g.apply c).1.toList ++ ((g.apply c).2.applyAll commands).1.toList :=
  Array.toList_append

/-- Whatever else is asked for until another program is submitted, no more is told of runs than what
is still to be reported of the one in progress, from its beginning on. -/
theorem prefix_of_noSubmit {g : Game} {r : Nat} (hends : g.engine.EndsAfter g.world r)
    {commands : List Command} (hno : ∀ q, .submit q ∉ commands) :
    (g.applyAll commands).1.toList.filter Event.isOfRun <+:
      (Report.allEvents (g.engine.reports g.world r).1).toList := by
  induction commands generalizing g r with
  | nil => exact List.nil_prefix
  | cons c commands ih =>
    have hlater : ∀ q, .submit q ∉ commands := fun q hq => hno q (List.mem_cons_of_mem _ hq)
    rw [toList_applyAll_cons, List.filter_append]
    -- A run that has been dropped is not told of any more.
    have hdropped (hevents : (g.apply c).1.toList.filter Event.isOfRun = [])
        (hidle : (g.apply c).2.engine.isRunning = false) :
        (g.apply c).1.toList.filter Event.isOfRun ++
            ((g.apply c).2.applyAll commands).1.toList.filter Event.isOfRun <+:
          (Report.allEvents (g.engine.reports g.world r).1).toList := by
      have hrest := ih (Engine.endsAfter_zero hidle (g.apply c).2.world) hlater
      rw [hevents, List.prefix_nil.1 hrest]
      exact List.nil_prefix
    cases c with
    | submit q => exact absurd List.mem_cons_self (hno q)
    | regenerate => exact hdropped rfl rfl
    | reset => exact hdropped rfl rfl
    | advance =>
      by_cases hwon : g.lastResult = some .win
      · rw [apply_advance_of_won hwon] at hdropped ⊢
        exact hdropped rfl rfl
      · rw [apply_advance_of_not_won hwon]
        exact ih hends hlater
    | tick nanoseconds =>
      obtain ⟨n, hn, time, htick, -⟩ := exists_tick_eq hends nanoseconds
      obtain ⟨rest, rfl⟩ := Nat.exists_eq_add_of_le hn
      have hends' := hends.reports hn
      rw [Nat.add_sub_cancel_left] at hends'
      rw [apply, htick, resumeTimes, Engine.reports_add, Report.allEvents_append,
        Array.toList_append, filter_isOfRun_allEvents]
      exact (List.prefix_append_right_inj _).2 (ih hends' hlater)

/-- What is told of a program that is submitted, until another one is, is its account from its
beginning on. -/
theorem prefix_account {limits : Limits} {g : Game} (h : g.Told limits) (p : Program)
    {later : List Command} (hno : ∀ q, .submit q ∉ later) :
    (g.applyAll (.submit p :: later)).1.toList.filter Event.isOfRun <+:
      p.account limits g.world := by
  obtain ⟨r, -, hends⟩ :=
    (g.apply (.submit p)).2.engine.exists_endsAfter (g.apply (.submit p)).2.world
  have hprefix := prefix_of_noSubmit hends hno
  rw [toList_applyAll_cons, List.filter_append, Program.account]
  cases hcode : p.code with
  | error err =>
    rw [apply_submit_of_error hcode] at hends hprefix ⊢
    obtain rfl : r = 0 := hends.eq_zero_iff.2 rfl
    rw [List.prefix_nil.1 hprefix, Program.run_of_error hcode, h.output_eq]
    simp [progressEvents, Event.isOfRun, Deed.events, List.filter_cons]
  | ok code =>
    rw [apply_submit_of_code hcode, h.limits_eq] at hends hprefix ⊢
    obtain ⟨deeds, hdeeds, hevents⟩ := Engine.allEvents_reports limits hends []
    obtain ⟨hresults, -⟩ := Engine.drive_eq_reports rfl rfl hends
    have hnothing : (#[Event.runStarted p.dialect] ++ ((#[] : Array String).map Event.printed ++
        progressEvents .started)).toList.filter Event.isOfRun = [] := by
      simp [progressEvents, Event.isOfRun]
    rw [h.output_eq, hnothing, List.nil_append, Program.run_eq_drive hcode]
    rw [hevents, hresults] at hprefix
    simp only [hdeeds]
    exact hprefix

/-- The events of a game that is played are bracketed: lines, moves, walls that have been hit and
results are only told of while a run is open, and every run has at most one result. Once a program
has been submitted, nothing but its own account is told of until the next one is submitted, in the
order in which the program does it, and nothing of any run before. -/
theorem bracketed_applyAll_new (config : GameConfig) (saved : Option UInt32)
    (earlier : List Command) (p : Program) (later : List Command)
    (hno : ∀ q, .submit q ∉ later) :
    let g := ((new config saved).applyAll earlier).2
    let events := ((new config saved).applyAll (earlier ++ .submit p :: later)).1.toList
    Bracketed false events ∧
      (∀ before between after result result',
        events = before ++ .runFinished result :: between ++ .runFinished result' :: after →
          ∃ d, .runStarted d ∈ between) ∧
      (g.applyAll (.submit p :: later)).1.toList.filter Event.isOfRun <+:
        p.account config.limits g.world := by
  intro g events
  have hbrackets := brackets_applyAll (told_new config saved) (earlier ++ .submit p :: later)
  have htold : g.Told config.limits := told_applyAll (told_new config saved) earlier
  refine ⟨hbrackets.bracketed, fun before between after result result' hsplit => ?_,
    prefix_account htold p hno⟩
  have hbracketed : Bracketed false events := hbrackets.bracketed
  rw [hsplit] at hbracketed
  exact hbracketed.exists_runStarted

/-- A run is dropped after its first step, another one is dropped by a reset. -/
theorem bracketed_applyAll_new_stepRight :
    let config : GameConfig := ⟨10, ⟨9, 5⟩, 7⟩
    let earlier : List Command := [.submit .stepRight, .tick 13]
    let later : List Command := [.tick 10, .reset, .tick 10]
    let g := ((new config none).applyAll earlier).2
    let events := ((new config none).applyAll (earlier ++ .submit .stepRight :: later)).1.toList
    (∀ q, .submit q ∉ later) ∧ Bracketed false events ∧
      (g.applyAll (.submit .stepRight :: later)).1.toList.filter Event.isOfRun <+:
        Program.account .stepRight config.limits g.world := by
  intro config earlier later g events
  have hno : ∀ q, .submit q ∉ later := by simp [later]
  exact ⟨hno, (bracketed_applyAll_new config none earlier .stepRight later hno).imp_right And.right⟩

end Game

end Labyrinth
