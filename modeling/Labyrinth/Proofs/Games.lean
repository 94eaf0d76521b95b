import Labyrinth.Game
import Labyrinth.Proofs.Maze.Generated
import Labyrinth.Proofs.Resumptions
import Mathlib.Data.List.Induction

/-!
# Games in use

Whatever the player of a game asks for, and in whatever order, the parts of the game fit each
other: the maze has the size of the level, a run in progress has no result yet, time is only kept
for a run in progress, and a win is only remembered while the cursor stands on the exit.

The passing of time is the only command that takes several steps. What each of its steps preserves
is preserved by all of them. In the middle of it, though, more time may be kept than is needed for
a step; all else holds there as well.

## Main results

* `Game.resume_cases`: what a step of a run does to a game.
* `Game.steps_induction`: what every step of a run preserves while time passes.
* `Game.inOrder_apply`, `Game.savesLevel_apply`: what every command preserves.
* `Game.stays_or_advances`: only whoever has won gets to the next level.
* `Game.applyAll_induction`: what every command preserves while a game is played.
* `Game.inOrder_applyAll_new`: a game that is played is in order, and what it has saved is the
  level that the player has advanced to.
-/

namespace Labyrinth

/-! ### Mazes of the levels -/

/-- The maze of a level has the size that is asked for. -/
theorem MazeSource.size_maze_level (s : MazeSource) (l : Level) :
    (s.maze l.number l.size).size = sizeForLevel l.number := by
  have hside := side_carveMaze Keystream.draw l.size
    (Keystream.ofSeed (layoutSeed s.seed l.number s.generation))
  have hsize := toNat_sizeForLevel l.number
  refine UInt32.toNat_inj.1 (hside.trans ?_)
  rw [Level.size]
  omega

/-! ### Advances -/

/-- Whether the event tells that the player has advanced to another level. -/
def Event.isAdvance : Event → Bool
  | levelAdvanced .. => true
  | _ => false

/-- What a run prints and does is no advance. -/
theorem Game.any_isAdvance_progress (lines : Array String) (progress : Progress) :
    (lines.map Event.printed ++ progressEvents progress).any Event.isAdvance = false := by
  have hlines : (lines.map Event.printed).any Event.isAdvance = false := by
    rw [Array.any_map]
    exact Array.any_eq_false.2 fun _ _ => nofun
  rw [Array.any_append, hlines, Bool.false_or]
  cases progress <;> simp [progressEvents, Event.isAdvance]

namespace Game

/-! ### Notes of what an engine has done -/

/-- What is noted of some progress. -/
theorem record_eq (progress : Progress) (g : Game) :
    g.record progress =
      (g.engine.output.map Event.printed ++ progressEvents progress,
        { g with
          engine := g.engine.takeOutput.2
          waited := if progress.result?.isSome then 0 else g.waited
          lastResult := progress.result?.or g.lastResult }) := by
  cases progress with
  | idle | started | moved | blocked | finished => rfl

/-- What a step of a run does to a game: the run goes on, or it is over and its result is noted. -/
theorem resume_cases {g : Game} (h : g.engine.isRunning = true) :
    ∃ (lines : Array String) (engine : Engine) (world : World), world.grid = g.world.grid ∧
      ((∃ progress : Progress, progress.goesOn = true ∧ engine.isRunning = true ∧
          g.resume = (lines.map Event.printed ++ progressEvents progress,
            { g with engine, world })) ∨
        ∃ result, engine.isRunning = false ∧ (result = .win → world.atExit = true) ∧
          g.resume = (lines.map Event.printed ++ #[.runFinished result],
            { g with engine, world, waited := 0, lastResult := some result })) := by
  obtain ⟨level, world, ⟨limits, machine, output⟩, source, saved, delay, waited, lastResult⟩ := g
  cases machine with
  | none => cases h
  | some m =>
    obtain ⟨progress, engine, world', hresume, hgrid, hcases⟩ :=
      Engine.resume_cases limits m output world
    refine ⟨engine.output, engine.takeOutput.2, world', hgrid, ?_⟩
    rw [resume, hresume]
    dsimp only
    rcases hcases with ⟨hgoes, hrunning⟩ | ⟨result, rfl, hrunning, hwin⟩
    · refine .inl ⟨progress, hgoes, hrunning, ?_⟩
      rw [record_eq, Progress.result?_of_goesOn hgoes]
      rfl
    · exact .inr ⟨result, hrunning, hwin, record_eq _ _⟩

/-! ### What holds at all times -/

/-- What holds of a game at all times, also while time passes. -/
structure Sound (g : Game) : Prop where
  /-- The maze has the size of the level. -/
  size : g.world.grid.size = sizeForLevel g.level.number
  /-- A run in progress has no result yet. -/
  pending : g.engine.isRunning = true → g.lastResult = none
  /-- Time is only kept for a run in progress. -/
  idle : g.engine.isRunning = false → g.waited = 0
  /-- A win is only remembered while the cursor stands on the exit. -/
  won : g.lastResult = some .win → g.world.cursor = g.world.grid.exit

/-- A game is **in order** between two commands if it is sound, and if no step of the run in
progress is due. -/
structure InOrder (g : Game) : Prop extends Sound g where
  /-- The time of the next step has not come. -/
  patient : g.engine.isRunning = true → 0 < g.delay → g.waited < g.delay

/-- From the game `g` to the game `g'`, with some events in between, the player has **stayed** on a
level, and nothing has been saved. -/
structure Stays (g : Game) (events : Array Event) (g' : Game) : Prop where
  noAdvance : events.any Event.isAdvance = false
  level : g'.level = g.level
  saved : g'.saved = g.saved
  /-- The game is set up as before. -/
  delay : g'.delay = g.delay

theorem Stays.trans {g g' g'' : Game} {events further : Array Event} (h : g.Stays events g')
    (h' : g'.Stays further g'') : g.Stays (events ++ further) g'' where
  noAdvance := by rw [Array.any_append, h.noAdvance, h'.noAdvance, Bool.or_false]
  level := h'.level.trans h.level
  saved := h'.saved.trans h.saved
  delay := h'.delay.trans h.delay

/-- From the game `g` to the game `g'`, with some events in between, the level has been saved if
the player has advanced, and otherwise the level and what has been saved are those of before. -/
structure SavesLevel (g : Game) (events : Array Event) (g' : Game) : Prop where
  /-- The game is set up as before. -/
  delay : g'.delay = g.delay
  advanced : events.any Event.isAdvance = true → g'.saved = some g'.level.number
  kept : events.any Event.isAdvance = false → g'.level = g.level ∧ g'.saved = g.saved

namespace SavesLevel

variable {g g' g'' : Game} {events further : Array Event}

theorem of_stays (h : g.Stays events g') : g.SavesLevel events g' :=
  ⟨h.delay, fun hany => absurd (h.noAdvance.symm.trans hany) nofun, fun _ => ⟨h.level, h.saved⟩⟩

theorem trans (h : g.SavesLevel events g') (h' : g'.SavesLevel further g'') :
    g.SavesLevel (events ++ further) g'' := by
  refine ⟨h'.delay.trans h.delay, fun hany => ?_, fun hany => ?_⟩
  · rw [Array.any_append, Bool.or_eq_true] at hany
    cases hfurther : further.any Event.isAdvance with
    | true => exact h'.advanced hfurther
    | false =>
      obtain ⟨hlevel, hsaved⟩ := h'.kept hfurther
      rw [hsaved, hlevel]
      exact h.advanced (hany.resolve_right fun h => absurd (hfurther.symm.trans h) nofun)
  · rw [Array.any_append, Bool.or_eq_false_iff] at hany
    obtain ⟨hlevel, hsaved⟩ := h.kept hany.1
    obtain ⟨hlevel', hsaved'⟩ := h'.kept hany.2
    exact ⟨hlevel'.trans hlevel, hsaved'.trans hsaved⟩

end SavesLevel

/-- A game without a run is in order as soon as no time is kept and nothing has been won. -/
theorem inOrder_of_idle {g : Game} (hsize : g.world.grid.size = sizeForLevel g.level.number)
    (hrunning : g.engine.isRunning = false) (hwaited : g.waited = 0)
    (hresult : g.lastResult ≠ some .win) : g.InOrder where
  size := hsize
  pending h := absurd (hrunning.symm.trans h) nofun
  idle _ := hwaited
  won h := absurd h hresult
  patient h := absurd (hrunning.symm.trans h) nofun

/-! ### The passing of time -/

theorem sound_resume {g : Game} (h : g.Sound) (hrunning : g.engine.isRunning = true) :
    g.resume.2.Sound := by
  obtain ⟨lines, engine, world, hgrid, hcases⟩ := resume_cases hrunning
  have hsize : world.grid.size = sizeForLevel g.level.number := by rw [hgrid, h.size]
  rcases hcases with ⟨progress, -, hgoes, heq⟩ | ⟨result, hover, hwin, heq⟩
  · rw [heq]
    have hresult := h.pending hrunning
    refine ⟨hsize, fun _ => hresult, fun hidle => ?_, fun hwon => ?_⟩
    · exact absurd (hgoes.symm.trans hidle) nofun
    · exact absurd (hresult.symm.trans hwon) nofun
  · rw [heq]
    refine ⟨hsize, fun hgoes => ?_, fun _ => rfl, fun hwon => ?_⟩
    · exact absurd (hover.symm.trans hgoes) nofun
    · exact eq_of_beq (hwin (Option.some.inj hwon))

theorem stays_resume {g : Game} (hrunning : g.engine.isRunning = true) :
    g.Stays g.resume.1 g.resume.2 := by
  obtain ⟨lines, engine, world, -, hcases⟩ := resume_cases hrunning
  rcases hcases with ⟨progress, -, -, heq⟩ | ⟨result, -, -, heq⟩
  · rw [heq]
    exact ⟨any_isAdvance_progress lines progress, rfl, rfl, rfl⟩
  · rw [heq]
    exact ⟨any_isAdvance_progress lines (.finished result), rfl, rfl, rfl⟩

/-- A run in progress may be given any time. -/
theorem Sound.wait {g : Game} (h : g.Sound) (hrunning : g.engine.isRunning = true) (time : Nat) :
    Sound { g with waited := time } :=
  ⟨h.size, h.pending, fun hidle => absurd (hrunning.symm.trans hidle) nofun, h.won⟩

/-- A step of the run in progress is due. -/
def Due (g : Game) : Prop := g.engine.isRunning = true ∧ 0 < g.delay ∧ g.delay ≤ g.waited

theorem steps_of_due (events : Array Event) {g : Game} (h : g.Due) :
    steps events g = steps (events ++ g.spend.resume.1) g.spend.resume.2 := by
  unfold Due at h
  rw [steps, dif_pos h]

theorem steps_of_not_due (events : Array Event) {g : Game} (h : ¬g.Due) :
    steps events g = (events, g) := by
  unfold Due at h
  rw [steps, dif_neg h]

/-- What every step that is due preserves is preserved while time passes, and no step is due when it
has passed. -/
theorem steps_induction {P : Array Event → Game → Prop}
    (hstep : ∀ events g, P events g → g.Due →
      P (events ++ g.spend.resume.1) g.spend.resume.2)
    (events : Array Event) (g : Game) (h : P events g) :
    P (steps events g).1 (steps events g).2 ∧ ¬(steps events g).2.Due := by
  induction hwaited : g.waited using Nat.strong_induction_on generalizing events g with
  | _ waited ih =>
    by_cases hdue : g.Due
    · rw [steps_of_due events hdue]
      refine ih _ ?_ _ _ (hstep events g h hdue) rfl
      have hle := g.waited_resume_spend_le
      obtain ⟨-, hpos, hle'⟩ := hdue
      omega
    · rw [steps_of_not_due events hdue]
      exact ⟨h, hdue⟩

theorem inOrder_tick {g : Game} (h : g.InOrder) (nanoseconds : Nat) :
    (g.tick nanoseconds).2.InOrder := by
  unfold tick
  split
  · next hrunning =>
    split
    · next hdelay =>
      have hdelay' := (stays_resume hrunning).delay
      exact ⟨sound_resume h.toSound hrunning, fun _ hpos => absurd hpos (by omega)⟩
    · next hdelay =>
      obtain ⟨hsound, hdone⟩ := steps_induction (P := fun _ g => g.Sound)
        (fun _ g hg hdue => sound_resume (hg.wait hdue.1 _) hdue.1) #[] _
        (h.toSound.wait hrunning (min (g.waited + nanoseconds) maxTime))
      exact ⟨hsound, fun hgoes hpos => Nat.lt_of_not_le fun hle => hdone ⟨hgoes, hpos, hle⟩⟩
  · next hidle =>
    exact ⟨⟨h.size, h.pending, fun _ => rfl, h.won⟩, fun hrunning => absurd hrunning hidle⟩

theorem stays_tick (g : Game) (nanoseconds : Nat) :
    g.Stays (g.tick nanoseconds).1 (g.tick nanoseconds).2 := by
  unfold tick
  split
  · next hrunning =>
    split
    · exact stays_resume hrunning
    · refine (steps_induction (P := g.Stays) (fun events g' hg hdue => ?_) #[] _ ?_).1
      · have hresume := stays_resume (g := g'.spend) hdue.1
        exact hg.trans ⟨hresume.noAdvance, hresume.level, hresume.saved, hresume.delay⟩
      · exact ⟨by simp, rfl, rfl, rfl⟩
  · exact ⟨by simp, rfl, rfl, rfl⟩

/-! ### Commands -/

/-- Whatever the game has been, it is in order with another maze. -/
theorem inOrder_regenerate (g : Game) : g.regenerate.2.InOrder :=
  inOrder_of_idle (g.source.size_maze_level g.level) rfl rfl nofun

theorem stays_regenerate (g : Game) : g.Stays g.regenerate.1 g.regenerate.2 :=
  ⟨by simp [regenerate, Event.isAdvance], rfl, rfl, rfl⟩

/-- The run of a program that can be read begins with the next step. -/
theorem apply_submit_of_code {p : Program} {code : Code} (h : p.code = .ok code) (g : Game) :
    g.apply (.submit p) =
      (#[.runStarted p.dialect] ++ (g.engine.output.map Event.printed ++ progressEvents .started),
        { g with
          world := g.world.reset
          engine := ⟨g.engine.limits, some (.start code g.engine.limits), #[]⟩
          waited := 0
          lastResult := none }) := by
  simp only [apply, Engine.start, h]
  rfl

/-- A program that cannot be read is an error at once. -/
theorem apply_submit_of_error {p : Program} {err : SyntaxError} (h : p.code = .error err)
    (g : Game) :
    g.apply (.submit p) =
      (#[.runStarted p.dialect] ++ (g.engine.output.map Event.printed ++
          progressEvents (.finished (.errored err.message))),
        { g with
          world := g.world.reset
          engine := ⟨g.engine.limits, none, #[]⟩
          waited := 0
          lastResult := some (.errored err.message) }) := by
  simp only [apply, Engine.start, h]
  rfl

theorem inOrder_apply {g : Game} (h : g.InOrder) (c : Command) : (g.apply c).2.InOrder := by
  cases c with
  | regenerate => exact g.inOrder_regenerate
  | advance =>
    unfold apply
    dsimp only
    split
    · exact inOrder_regenerate _
    · exact h
  | reset => exact inOrder_of_idle h.size rfl rfl nofun
  | submit p =>
    cases hcode : p.code with
    | ok code =>
      rw [apply_submit_of_code hcode]
      exact ⟨⟨h.size, fun _ => rfl, fun _ => rfl, nofun⟩, fun _ hpos => hpos⟩
    | error err =>
      rw [apply_submit_of_error hcode]
      exact inOrder_of_idle h.size rfl rfl nofun
  | tick nanoseconds => exact inOrder_tick h nanoseconds

/-- Whoever has won advances. -/
theorem apply_advance_of_won {g : Game} (h : g.lastResult = some .win) :
    g.apply .advance =
      (#[.levelAdvanced g.level.next.number g.level.next.size] ++
        (regenerate { g with level := g.level.next, saved := some g.level.next.number }).1,
        (regenerate { g with level := g.level.next, saved := some g.level.next.number }).2) := by
  rw [apply, h]
  rfl

/-- The player stays on a level, or has won and asks for the next one. -/
theorem stays_or_advances (g : Game) (c : Command) :
    g.Stays (g.apply c).1 (g.apply c).2 ∨ c = .advance ∧ g.lastResult = some .win := by
  cases c with
  | advance =>
    by_cases hwon : g.lastResult = some .win
    · exact .inr ⟨rfl, hwon⟩
    · rw [apply_advance_of_not_won hwon]
      exact .inl ⟨by simp [Event.isAdvance], rfl, rfl, rfl⟩
  | regenerate => exact .inl g.stays_regenerate
  | reset => exact .inl ⟨by simp [apply, Event.isAdvance], rfl, rfl, rfl⟩
  | submit p =>
    have hevents (lines : Array String) (progress : Progress) :
        (#[Event.runStarted p.dialect] ++
          (lines.map Event.printed ++ progressEvents progress)).any Event.isAdvance = false := by
      rw [Array.any_append, any_isAdvance_progress, Bool.or_false]
      simp [Event.isAdvance]
    cases hcode : p.code with
    | ok code =>
      rw [apply_submit_of_code hcode]
      exact .inl ⟨hevents _ _, rfl, rfl, rfl⟩
    | error err =>
      rw [apply_submit_of_error hcode]
      exact .inl ⟨hevents _ _, rfl, rfl, rfl⟩
  | tick nanoseconds => exact .inl (g.stays_tick nanoseconds)

theorem savesLevel_apply (g : Game) (c : Command) : g.SavesLevel (g.apply c).1 (g.apply c).2 := by
  rcases g.stays_or_advances c with hstays | ⟨rfl, hwon⟩
  · exact .of_stays hstays
  · rw [apply_advance_of_won hwon]
    exact ⟨rfl, fun _ => rfl, by simp [Event.isAdvance]⟩

/-- The game stays set up as it is. -/
theorem delay_apply (g : Game) (c : Command) : (g.apply c).2.delay = g.delay :=
  (g.savesLevel_apply c).delay

/-- Carries out commands one after the other, and tells of all that happens. -/
def applyAll (g : Game) : List Command → Array Event × Game
  | [] => (#[], g)
  | c :: commands =>
    let (events, g) := g.apply c
    let (further, g) := g.applyAll commands
    (events ++ further, g)

theorem applyAll_append (g : Game) (commands further : List Command) :
    g.applyAll (commands ++ further) =
      ((g.applyAll commands).1 ++ ((g.applyAll commands).2.applyAll further).1,
        ((g.applyAll commands).2.applyAll further).2) := by
  induction commands generalizing g with
  | nil => simp [applyAll]
  | cons c commands ih => simp only [List.cons_append, applyAll, ih, Array.append_assoc]

theorem applyAll_concat (g : Game) (commands : List Command) (c : Command) :
    g.applyAll (commands ++ [c]) =
      ((g.applyAll commands).1 ++ ((g.applyAll commands).2.apply c).1,
        ((g.applyAll commands).2.apply c).2) := by
  rw [applyAll_append]
  simp [applyAll]

/-- What every command preserves is preserved by several commands. -/
theorem applyAll_induction {P : Array Event → Game → Prop}
    (hstep : ∀ events g c, P events g → P (events ++ (g.apply c).1) (g.apply c).2)
    {g : Game} (h : P #[] g) (commands : List Command) :
    P (g.applyAll commands).1 (g.applyAll commands).2 := by
  induction commands using List.reverseRecOn with
  | nil => exact h
  | append_singleton commands c ih =>
    rw [applyAll_concat]
    exact hstep _ _ c ih

theorem inOrder_applyAll {g : Game} (h : g.InOrder) (commands : List Command) :
    (g.applyAll commands).2.InOrder :=
  applyAll_induction (P := fun _ g => g.InOrder) (fun _ _ c hg => inOrder_apply hg c) h commands

theorem savesLevel_applyAll (g : Game) (commands : List Command) :
    g.SavesLevel (g.applyAll commands).1 (g.applyAll commands).2 := by
  refine applyAll_induction (P := g.SavesLevel) (fun events g' c h => ?_) ?_ commands
  · exact h.trans (g'.savesLevel_apply c)
  · exact .of_stays ⟨by simp, rfl, rfl, rfl⟩

theorem inOrder_new (config : GameConfig) (saved : Option UInt32) : (new config saved).InOrder :=
  inOrder_of_idle ((MazeSource.ofSeed config.seed).size_maze_level _) rfl rfl nofun

/-- A game that is played is in order. What it has saved is the level of the player if the player
has ever advanced, and otherwise what has been saved before the game. -/
theorem inOrder_applyAll_new (config : GameConfig) (saved : Option UInt32)
    (commands : List Command) :
    let events := ((new config saved).applyAll commands).1
    let g := ((new config saved).applyAll commands).2
    1 ≤ g.level.number.toNat ∧ g.InOrder ∧ g.delay = config.delay ∧
      g.saved = if events.any Event.isAdvance then some g.level.number else saved := by
  intro events g
  have hsaves : (new config saved).SavesLevel events g := savesLevel_applyAll _ commands
  refine ⟨g.level.one_le, inOrder_applyAll (inOrder_new config saved) commands, hsaves.delay, ?_⟩
  split
  · next hadvanced => exact hsaves.advanced hadvanced
  · next hkept => exact (hsaves.kept (Bool.eq_false_iff.2 hkept)).2

end Game

end Labyrinth
