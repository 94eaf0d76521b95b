import Labyrinth.Proofs.Console.LevelFiles
import Labyrinth.Proofs.Console.Scores

/-!
# Rehearsals

A **rehearsal** is a host on which every file can be written, whatever can be read of it before, and
on which time only passes on a clock. What playing leaves behind there can be told from the score:
the level file is left alone by whoever has won nothing, and otherwise keeps the level that has been
reached.

## Main results

* `run_playLevels`, `run_play`: playing at a rehearsal is doing what is done at a sitting.
* `Rehearsal.files_acts_of_map`: which files are left behind.
* `persists_carryOut`: the levels that are won are those that are told of and kept.
-/

namespace Labyrinth.Console

/-- The files of a rehearsal, what has been printed, and how many nanoseconds have passed. -/
structure Rehearsal where
  files : String → Except FileError String
  output : String
  errors : String
  clock : Nat

namespace Rehearsal

/-- Does something. -/
def act (d : Rehearsal) : Act → Rehearsal
  | .print text => { d with output := d.output ++ text }
  | .write path text => { d with files := Function.update d.files path (.ok text) }
  | .wait nanoseconds => { d with clock := d.clock + nanoseconds }

/-- Does one thing after the other. -/
def acts (d : Rehearsal) (acts : List Act) : Rehearsal := acts.foldl act d

/-- A rehearsal as a host. -/
def host : Host (StateM Rehearsal) where
  read path := do return (← get).files path
  write path text := modify fun d => d.act (.write path text)
  print text := modify fun d => d.act (.print text)
  warn text := modify fun d => { d with errors := d.errors ++ text }
  wait nanoseconds := modify fun d => d.act (.wait nanoseconds)

theorem run_acts (acts : List Act) (d : Rehearsal) :
    (host.acts acts).run d = ((), d.acts acts) := by
  induction acts generalizing d with
  | nil => rfl
  | cons act acts ih =>
    have hact : (host.act act).run d = ((), d.act act) := by
      cases act with
      | print | write | wait => rfl
    have hbind : (host.acts (act :: acts)).run d =
        (host.acts acts).run ((host.act act).run d).2 := rfl
    rw [hbind, hact, ih]
    rfl

/-- A file is read, and nothing else happens. -/
theorem run_read_bind {α : Type} (path : String) (k : Except FileError String → StateM Rehearsal α)
    (d : Rehearsal) : (host.read path >>= k).run d = (k (d.files path)).run d := rfl

/-- Of each file the text is left that has been written last. -/
theorem files_acts (acts : List Act) (d : Rehearsal) :
    (d.acts acts).files = (acts.filterMap Act.write?).foldl
      (fun files (path, text) => Function.update files path (.ok text)) d.files := by
  induction acts generalizing d with
  | nil => rfl
  | cons act acts ih =>
    cases act with
    | print | write | wait => exact ih _

/-- If all that is written is written to one file, the text that has been written last is left. -/
theorem files_acts_of_map {acts : List Act} {path : String} {texts : List String}
    (h : acts.filterMap Act.write? = texts.map fun text => (path, text)) (d : Rehearsal) :
    (d.acts acts).files = match texts.getLast? with
      | none => d.files
      | some text => Function.update d.files path (.ok text) := by
  rw [files_acts, h, List.foldl_map]
  clear h
  induction texts using List.reverseRecOn with
  | nil => rfl
  | append_singleton texts text ih =>
    rw [List.foldl_append, ih, List.getLast?_concat]
    cases texts.getLast? with
    | none => rfl
    | some earlier => exact Function.update_idem _ _ _

end Rehearsal

/-- The delay that is set can be counted. -/
theorem Settings.delay_game_le (settings : Settings) (drawn : UInt64) :
    (settings.game drawn).delay ≤ maxTime := by
  have hlt := settings.delay.toNat_lt
  simp only [Settings.game, maxTime]
  omega

/-- To play several levels is to hold a sitting. -/
theorem run_playLevels {p : Program} {realtime : Bool} {levelFile : String} {levels : Nat}
    {g : Game} {commands : List Command} {acts : List Act} {code : Nat}
    (h : Sitting p realtime levelFile levels g commands acts code) (hdelay : g.delay ≤ maxTime)
    (d : Rehearsal) :
    (playLevels Rehearsal.host p realtime levelFile levels g).run d = (code, d.acts acts) := by
  rw [playLevels_eq Rehearsal.host h hdelay, StateT.run_bind, Rehearsal.run_acts]
  rfl

/-- To play is to hold a sitting, from the level that can be read in the level file on. -/
theorem run_play (settings : Settings) (drawn : UInt64) {p : Program} {levels : UInt32}
    {realtime : Bool} (d : Rehearsal) {commands : List Command} {acts : List Act} {code : Nat}
    (h : Sitting p realtime settings.levelFile levels.toNat
      (.new (settings.game drawn) ((d.files settings.levelFile).toOption.bind readLevel))
      commands acts code) :
    (play Rehearsal.host settings drawn p levels realtime).run d = (code, d.acts acts) := by
  have hdelay := settings.delay_game_le drawn
  rw [play, Rehearsal.run_read_bind]
  cases hfile : d.files settings.levelFile with
  | ok text =>
    rw [hfile] at h
    exact run_playLevels h hdelay d
  | error e =>
    rw [hfile] at h
    exact run_playLevels h hdelay d

/-- A program that can be read is played in the dialect that is named, or in that of its file. -/
theorem run_carryOut_play (settings : Settings) (drawn : UInt64) {file source : String}
    (dialect : Option Dialect) (levels : UInt32) (realtime : Bool) {d : Rehearsal}
    (hfile : d.files file = .ok source) :
    (carryOut Rehearsal.host settings drawn (.play file dialect levels realtime)).run d =
      (play Rehearsal.host settings drawn ⟨dialect.getD (inferDialect file), source⟩ levels
        realtime).run d := by
  rw [carryOut, withSource, Rehearsal.run_read_bind, hfile]

/-- Whatever the level file holds, playing comes to its end. The player has won the first `w`
levels, and is told of so many advances, one level after the other; all of the levels have been won
exactly if the exit code is zero. The files are left as they are if nothing has been won, and
otherwise the level file holds a text that is read as the level that has been reached. -/
theorem persists_carryOut (settings : Settings) (drawn : UInt64) (file : String)
    (dialect : Option Dialect) (levels : UInt32) (realtime : Bool) (source : String) (d : Rehearsal)
    (hfile : d.files file = .ok source) :
    let p : Program := ⟨dialect.getD (inferDialect file), source⟩
    let saved := (d.files settings.levelFile).toOption.bind readLevel
    let reached (i : Nat) := UInt32.ofNat (min (max (saved.getD 1).toNat 1 + i) 4294967295)
    let result (i : Nat) :=
      (p.run settings.limits (.new (mazeOf (settings.seed.getD drawn) (reached i) i))).1.result
    let game := Game.new (settings.game drawn) saved
    ∃ (w : Nat) (commands : List Command) (acts : List Act) (code : Nat),
      Sitting p realtime settings.levelFile levels.toNat game commands acts code ∧
      (carryOut Rehearsal.host settings drawn (.play file dialect levels realtime)).run d =
        (code, d.acts acts) ∧
      (w ≤ levels.toNat ∧ (∀ i < w, result i = .win) ∧ (w < levels.toNat → result w ≠ .win)) ∧
      code = (if w = levels.toNat then 0 else 1) ∧
      ((game.applyAll commands).1.filterMap Event.result?).toList =
        (List.range (min (w + 1) levels.toNat)).map result ∧
      ((game.applyAll commands).1.filter Event.isAdvance).toList =
        (List.range w).map (fun i =>
          .levelAdvanced (reached (i + 1)) (sizeForLevel (reached (i + 1)))) ∧
      (w = 0 → (d.acts acts).files = d.files) ∧
      (0 < w → ∃ text, readLevel text = some (reached w) ∧
        (d.acts acts).files = Function.update d.files settings.levelFile (.ok text)) := by
  intro p saved reached result game
  have hdelay := settings.delay_game_le drawn
  obtain ⟨commands, acts, code, hsitting⟩ :=
    exists_sitting p realtime settings.levelFile levels.toNat (g := game) hdelay
  obtain ⟨w, hscore⟩ := hsitting.exists_score (Ready.new (settings.game drawn) saved)
  have hreached (i : Nat) : (Level.next^[i] game.level).number = reached i := by
    have hfirst : game.level.number.toNat = max (saved.getD 1).toNat 1 := Game.toNat_ofNumber _
    rw [Level.number_iterate_next, hfirst]
  have hresult : (fun i =>
      resultIn (settings.game drawn) p (Level.next^[i] game.level).number (0 + i)) = result := by
    funext i
    rw [hreached, Nat.zero_add]
    rfl
  have hwrites : acts.filterMap Act.write? =
      ((List.range w).map fun i => levelText (reached (i + 1))).map fun text =>
        (settings.levelFile, text) := by
    rw [hscore.saved, List.map_map]
    simp only [Function.comp_def, hreached]
  have hfiles := Rehearsal.files_acts_of_map hwrites d
  rw [hresult] at hscore
  refine ⟨w, commands, acts, code, hsitting, ?_, ⟨hscore.le, hscore.won, hscore.lost⟩,
    hscore.code_eq, hscore.told, ?_, fun hzero => ?_, fun hpos => ?_⟩
  · rw [run_carryOut_play settings drawn dialect levels realtime hfile]
    exact run_play settings drawn d hsitting
  · rw [hscore.advanced]
    simp only [Level.size, hreached]
  · subst hzero
    exact hfiles
  · obtain ⟨v, rfl⟩ := Nat.exists_eq_add_one_of_ne_zero hpos.ne'
    rw [List.range_succ, List.map_append, List.map_singleton, List.getLast?_concat] at hfiles
    exact ⟨_, readLevel_levelText _, hfiles⟩

/-- A program that cannot be understood is played on the ninth level. It does not win anything, and
the level file is left as it is. -/
theorem persists_carryOut_unclosed :
    let d : Rehearsal := ⟨fun path =>
      if path = "walk.js" then .ok ")"
      else if path = ".maze-lab-level" then .ok " 9\r\n"
      else .error .notFound, "", "", 0⟩
    let played := (carryOut Rehearsal.host .default 7 (.play "walk.js" none 3 false)).run d
    d.files "walk.js" = .ok ")" ∧ played.1 = 1 ∧ played.2.files = d.files := by
  intro d played
  have hfile : d.files "walk.js" = .ok ")" := rfl
  obtain ⟨w, commands, acts, code, -, hplayed, ⟨-, hwon, -⟩, hcode, -, -, hkept, -⟩ :=
    persists_carryOut .default 7 "walk.js" none 3 false ")" d hfile
  have hunread : (Program.code ⟨inferDialect "walk.js", ")"⟩).toOption = none := by cbv
  have hnone : w = 0 := by
    refine Nat.eq_zero_of_not_pos fun hpos => ?_
    have hwin := hwon 0 hpos
    cases hcode : Program.code ⟨inferDialect "walk.js", ")"⟩ with
    | ok code =>
      rw [hcode] at hunread
      cases hunread
    | error err =>
      dsimp only [Option.getD_none] at hwin
      rw [Program.run_of_error hcode] at hwin
      cases hwin
  have hplayed' : played = (code, d.acts acts) := hplayed
  rw [hplayed', hcode, hnone]
  exact ⟨hfile, rfl, hkept hnone⟩

end Labyrinth.Console
