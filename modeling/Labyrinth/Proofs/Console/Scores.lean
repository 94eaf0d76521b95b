import Labyrinth.Proofs.Console.Sittings
import Labyrinth.Proofs.Games.Advances
import Labyrinth.Proofs.Games.Mazes
import Labyrinth.Proofs.Games.Submissions

/-!
# Scores

What comes of a sitting depends on nothing but the runs of the program in the mazes of the levels,
each of which can be made at once and by itself. The levels that are won before the first run that
is not are the **score**: so often the player advances, and so many levels are saved.

## Main results

* `Ready.result_of_plays`: what a game tells of a level that is played.
* `Ready.of_plays`, `Ready.of_advance`: another level can be played.
* `Sitting.exists_score`: the score of a sitting.
-/

namespace Labyrinth

/-- The level that is reached with several advances. -/
theorem Level.number_iterate_next (l : Level) (n : Nat) :
    (Level.next^[n] l).number = UInt32.ofNat (min (l.number.toNat + n) 4294967295) := by
  have htoNat : (Level.next^[n] l).number.toNat = min (l.number.toNat + n) 4294967295 := by
    induction n with
    | zero =>
      have hlt := l.number.toNat_lt
      rw [Function.iterate_zero_apply]
      omega
    | succ n ih =>
      rw [Function.iterate_succ_apply', toNat_next, ih]
      omega
  rw [← htoNat, UInt32.ofNat_toNat]

namespace Game

theorem Stays.filter_eq_empty {g g' : Game} {events : Array Event} (h : g.Stays events g') :
    events.filter Event.isAdvance = #[] :=
  Array.filter_eq_empty_iff.2 fun e he hadvance =>
    absurd (Array.any_eq_false'.1 h.noAdvance e he) (not_not_intro hadvance)

/-- While the run of a program goes on, the player stays on the level, and the maze is kept. -/
theorem stays_keeps_submit (g : Game) (p : Program) (times : List Nat) :
    let played := g.applyAll (.submit p :: times.map .tick)
    g.Stays played.1 played.2 ∧ g.Keeps played.1 played.2 := by
  have hticks (g : Game) :
      let ticked := g.applyAll (times.map .tick)
      g.Stays ticked.1 ticked.2 ∧ g.Keeps ticked.1 ticked.2 := by
    induction times generalizing g with
    | nil => exact ⟨⟨Array.any_empty, rfl, rfl, rfl⟩, ⟨nofun, rfl, rfl⟩⟩
    | cons time times ih =>
      obtain ⟨hstays, hkeeps⟩ := ih (g.tick time).2
      exact ⟨(g.stays_tick time).trans hstays, (g.keeps_tick time).trans hkeeps⟩
  obtain ⟨hstays, hkeeps⟩ := hticks (g.apply (.submit p)).2
  have hsubmit := (g.stays_or_advances (.submit p)).resolve_right nofun
  exact ⟨hsubmit.trans hstays, (g.keeps_submit p).trans hkeeps⟩

end Game

namespace Console

/-- The result of the run of a program in the maze of a level, when `n` mazes have been shown
before. -/
def resultIn (config : GameConfig) (p : Program) (level : UInt32) (n : Nat) : RunResult :=
  (p.run config.limits (.new (mazeOf config.seed level n))).1.result

/-- What is written, and where. -/
def Act.write? : Act → Option (String × String)
  | write path text => some (path, text)
  | _ => none

theorem Awaits.filterMap_write? {realtime : Bool} {events : Array Event} {g : Game}
    {ticks : List Command} {acts : List Act} {final : RunResult × Game}
    (h : Awaits realtime events g ticks acts final) : acts.filterMap Act.write? = [] := by
  induction h with
  | finished hresult => rfl
  | @tick events g ticks acts final hnone hrest ih =>
    have hpause : (pause realtime g).filterMap Act.write? = [] := by
      cases realtime with
      | true => rfl
      | false => rfl
    rw [List.cons_append, List.filterMap_cons, List.filterMap_append, hpause, ih]
    rfl

/-! ### Games at a sitting -/

/-- A game in which another level can be played, when `n` mazes have been shown before the one that
is in place. -/
structure Ready (config : GameConfig) (n : Nat) (g : Game) : Prop where
  told : g.Told config.limits
  source : g.source = ⟨config.seed, UInt64.ofNat (n + 1)⟩
  grid : g.world.grid = mazeOf config.seed g.level.number n

namespace Ready

variable {config : GameConfig} {n : Nat} {g : Game}

theorem new (config : GameConfig) (saved : Option UInt32) : Ready config 0 (.new config saved) :=
  ⟨Game.told_new config saved, rfl, rfl⟩

variable {p : Program} {realtime : Bool} {ticks : List Command} {heard : List Act}
  {result : RunResult} {last : Game}

/-- When a level is played, the game tells of one result, which is the one of a run by itself. -/
theorem result_of_plays (h : Ready config n g)
    (hplays : Plays p realtime g ticks heard (result, last)) :
    result = resultIn config p g.level.number n ∧
      (g.applyAll (.submit p :: ticks)).1.filterMap Event.result? = #[result] := by
  have hgame : last = (g.applyAll (.submit p :: ticks)).2 := hplays.game_eq
  obtain ⟨-, hover⟩ := hplays.lastResult_eq
  have hmem : .runFinished result ∈ (g.applyAll (.submit p :: ticks)).1 := Awaits.result_mem hplays
  have hmem' : result ∈ (g.applyAll (.submit p :: ticks)).1.filterMap Event.result? :=
    Array.mem_filterMap.2 ⟨_, hmem, rfl⟩
  have hresults : (g.applyAll (.submit p :: ticks)).1.filterMap Event.result? =
      #[resultIn config p g.level.number n] := by
    obtain ⟨times, rfl⟩ := Awaits.exists_ticks hplays
    have hgrid : (World.new (mazeOf config.seed g.level.number n)).grid = g.world.grid :=
      h.grid.symm
    exact (Game.applyAll_submit_eq_run h.told p times hgrid (hgame ▸ hover)).2.1
  rw [hresults] at hmem' ⊢
  have hresult := Array.mem_singleton.1 hmem'
  exact ⟨hresult, by rw [hresult]⟩

/-- When a level has been played, it can be played again. -/
theorem of_plays (h : Ready config n g) (hplays : Plays p realtime g ticks heard (result, last)) :
    g.Stays (g.applyAll (.submit p :: ticks)).1 last ∧ Ready config n last := by
  obtain ⟨times, rfl⟩ := Awaits.exists_ticks hplays
  obtain ⟨hstays, hkeeps⟩ := g.stays_keeps_submit p times
  have hgame : last = (g.applyAll (.submit p :: times.map .tick)).2 := hplays.game_eq
  rw [← hgame] at hstays hkeeps
  refine ⟨hstays, ?_, hkeeps.source_eq.trans h.source, ?_⟩
  · rw [hgame]
    exact Game.told_applyAll h.told _
  · rw [hstays.level, ← h.grid]
    exact congrArg Exhibit.grid hkeeps.exhibit_eq

/-- After a win, the player advances to another maze. -/
theorem of_advance (h : Ready config n g) (hwon : g.lastResult = some .win) :
    (g.apply .advance).2.level = g.level.next ∧ Ready config (n + 1) (g.apply .advance).2 ∧
      (g.apply .advance).1.filterMap Event.result? = #[] ∧
        (g.apply .advance).1.filter Event.isAdvance =
          #[.levelAdvanced g.level.next.number g.level.next.size] := by
  have htold := Game.told_apply h.told .advance
  have hrenews := Game.renews_regenerate
    { g with level := g.level.next, saved := some g.level.next.number }
  rw [Game.apply_advance_of_won hwon] at htold ⊢
  refine ⟨rfl, ⟨htold, ?_, ?_⟩, rfl, rfl⟩
  · rw [hrenews.source_eq, h.source, UInt64.ofNat_add (n + 1) 1]
    rfl
  · rw [hrenews.grid_eq, h.source]
    rfl

end Ready

/-! ### The score -/

/-- The **score** `w` of a sitting at which the runs have certain results and certain levels are
reached: the levels before the first run that is not won. -/
structure Score (results : Nat → RunResult) (reached : Nat → Level) (levelFile : String)
    (levels w : Nat) (events : Array Event) (acts : List Act) (code : Nat) : Prop where
  le : w ≤ levels
  won : ∀ i < w, results i = .win
  lost : w < levels → results w ≠ .win
  code_eq : code = if w = levels then 0 else 1
  /-- No other run is made. -/
  told : (events.filterMap Event.result?).toList = (List.range (min (w + 1) levels)).map results
  advanced : (events.filter Event.isAdvance).toList = (List.range w).map fun i =>
    .levelAdvanced (reached (i + 1)).number (reached (i + 1)).size
  saved : acts.filterMap Act.write? = (List.range w).map fun i =>
    (levelFile, levelText (reached (i + 1)).number)

/-- A level is won before other levels are played. -/
theorem Score.succ {results : Nat → RunResult} {reached : Nat → Level} {levelFile : String}
    {levels w : Nat} {events before : Array Event} {acts done : List Act} {code : Nat}
    (h : Score (fun i => results (i + 1)) (fun i => reached (i + 1)) levelFile levels w events acts
      code)
    (hwon : results 0 = .win) (htold : (before.filterMap Event.result?).toList = [.win])
    (hadvanced : (before.filter Event.isAdvance).toList =
      [.levelAdvanced (reached 1).number (reached 1).size])
    (hsaved : done.filterMap Act.write? = [(levelFile, levelText (reached 1).number)]) :
    Score results reached levelFile (levels + 1) (w + 1) (before ++ events) (done ++ acts)
      code where
  le := Nat.succ_le_succ h.le
  won i hi := by
    cases i with
    | zero => exact hwon
    | succ i => exact h.won i (Nat.lt_of_succ_lt_succ hi)
  lost hlt := h.lost (Nat.lt_of_succ_lt_succ hlt)
  code_eq := by
    rw [h.code_eq]
    simp
  told := by
    rw [Array.filterMap_append Array.size_append, Array.toList_append, htold, h.told,
      Nat.add_min_add_right, List.range_succ_eq_map, List.map_cons, List.map_map, hwon]
    rfl
  advanced := by
    rw [Array.filter_append Array.size_append, Array.toList_append, hadvanced, h.advanced,
      List.range_succ_eq_map, List.map_cons, List.map_map]
    rfl
  saved := by
    rw [List.filterMap_append, hsaved, h.saved, List.range_succ_eq_map, List.map_cons, List.map_map]
    rfl

/-- What comes of a sitting. -/
theorem Sitting.exists_score {p : Program} {realtime : Bool} {levelFile : String} {levels : Nat}
    {g : Game} {commands : List Command} {acts : List Act} {code : Nat}
    (h : Sitting p realtime levelFile levels g commands acts code) {config : GameConfig} {n : Nat}
    (hready : Ready config n g) :
    ∃ w, Score (fun i => resultIn config p (Level.next^[i] g.level).number (n + i))
      (fun i => Level.next^[i] g.level) levelFile levels w (g.applyAll commands).1 acts code := by
  induction h generalizing n with
  | done g => exact ⟨0, le_rfl, nofun, nofun, rfl, rfl, rfl, rfl⟩
  | @lost levels g last ticks heard result hplays hlost =>
    obtain ⟨hresult, hresults⟩ := hready.result_of_plays hplays
    obtain ⟨hstays, -⟩ := hready.of_plays hplays
    have hcode : exitCode result = 1 := by
      rw [exitCode, if_neg (mt RunResult.isWin_iff.1 hlost)]
    subst hresult
    refine ⟨0, Nat.zero_le _, nofun, fun _ => hlost, ?_, ?_, ?_, ?_⟩
    · rw [hcode, if_neg (Nat.succ_ne_zero levels).symm]
    · rw [hresults]
      simp
    · rw [hstays.filter_eq_empty]
      rfl
    · rw [List.filterMap_append, List.filterMap_cons, Awaits.filterMap_write? hplays]
      rfl
  | @won levels g last ticks commands heard acts code hplays hrest ih =>
    obtain ⟨hresult, hresults⟩ := hready.result_of_plays hplays
    obtain ⟨hstays, hready'⟩ := hready.of_plays hplays
    obtain ⟨hnext, hready'', hresults', hadvances⟩ := hready'.of_advance hplays.lastResult_eq.1
    have hlevel : last.level = g.level := hstays.level
    obtain ⟨w, hscore⟩ := ih hready''
    have hevents : (g.applyAll (.submit p :: ticks ++ .advance :: commands)).1 =
        (g.applyAll (.submit p :: ticks)).1 ++ (last.apply .advance).1 ++
          ((last.apply .advance).2.applyAll commands).1 := by
      have hgame : last = (g.applyAll (.submit p :: ticks)).2 := hplays.game_eq
      rw [Game.applyAll_append, ← hgame, Array.append_assoc]
      rfl
    have hruns : (fun i => resultIn config p
          (Level.next^[i] (last.apply .advance).2.level).number (n + 1 + i)) =
        fun i => resultIn config p (Level.next^[i + 1] g.level).number (n + (i + 1)) := by
      funext i
      rw [hnext, hlevel, Nat.add_assoc, Nat.add_comm 1 i]
      rfl
    have hlevels : (fun i => Level.next^[i] (last.apply .advance).2.level) =
        fun i => Level.next^[i + 1] g.level := by
      rw [hnext, hlevel]
      rfl
    rw [hruns, hlevels] at hscore
    rw [hevents]
    refine ⟨w + 1, hscore.succ hresult.symm ?_ ?_ ?_⟩
    · rw [Array.filterMap_append Array.size_append, hresults, hresults']
      rfl
    · rw [Array.filter_append Array.size_append, hstays.filter_eq_empty, hadvances, hlevel]
      rfl
    · rw [List.filterMap_append, List.filterMap_cons, Awaits.filterMap_write? hplays, hnext, hlevel]
      rfl

end Console

end Labyrinth
