import Labyrinth.Console.Commands
import Labyrinth.Proofs.Games.Ticks

/-!
# Sittings

At a **sitting** a program is played level by level. What is asked of the game and what is done on
the host in the meantime are given by two relations, which know of no bound: a run is awaited as
long as it takes, and levels are played as long as they are won. The functions that play are
granted a number of ticks, and it is shown here that they are never short of them. So on every host
they do what the relations say, and nothing else.

## Main results

* `Heard.tick`: a tick tells of a result exactly if it ends the run.
* `Heard.exists_awaits`, `Awaits.length_le`: every run can be awaited, and how long it takes.
* `exists_sitting`: every sitting comes to its end.
* `awaitResult_eq`, `playLevels_eq`: the functions that play do what the relations say.
-/

namespace Labyrinth.Console

/-! ### Acts -/

/-- What is done on a host when a program is played. -/
inductive Act
  | print (text : String)
  | write (path text : String)
  | wait (nanoseconds : Nat)
  deriving DecidableEq, Repr

section

variable {m : Type → Type} [Monad m]

/-- Does something on a host. -/
def Host.act (host : Host m) : Act → m Unit
  | .print text => host.print text
  | .write path text => host.write path text
  | .wait nanoseconds => host.wait nanoseconds

/-- Does one thing after the other on a host. -/
def Host.acts (host : Host m) : List Act → m Unit
  | [] => return
  | act :: acts => do
    host.act act
    host.acts acts

theorem Host.acts_append [LawfulMonad m] (host : Host m) (acts further : List Act) :
    host.acts (acts ++ further) = (do host.acts acts; host.acts further) := by
  induction acts with
  | nil => simp [acts]
  | cons act acts ih => simp [Host.acts, ih]

end

/-- Tells of events. -/
def told (events : Array Event) : Act := .print (String.join (events.toList.map eventText))

/-- Tells of the level that is played next. -/
def heading (g : Game) : Act :=
  .print ("level " ++ toString g.level.number ++ " " ++ sizeText g.level.size ++ "\n")

/-- Tells of a run that is over. -/
def ending (result : RunResult) (g : Game) : Act :=
  .print ("  moves: " ++ toString g.world.moves ++ "  result: " ++ result.text ++ "\n")

/-- Lets the time of a tick pass. -/
def pause (realtime : Bool) (g : Game) : List Act := if realtime then [.wait g.delay] else []

/-! ### Relations -/

/-- A run is **awaited**: events are told of, and a tick is asked for, until a result is among the
events. -/
inductive Awaits (realtime : Bool) :
    Array Event → Game → List Command → List Act → RunResult × Game → Prop
  | finished {events : Array Event} {g : Game} {result : RunResult}
      (hresult : finished? events = some result) :
      Awaits realtime events g [] [told events] (result, g)
  | tick {events : Array Event} {g : Game} {ticks : List Command} {acts : List Act}
      {final : RunResult × Game} (hnone : finished? events = none)
      (hrest : Awaits realtime (g.apply (.tick g.delay)).1 (g.apply (.tick g.delay)).2 ticks acts
        final) :
      Awaits realtime events g (.tick g.delay :: ticks) (told events :: pause realtime g ++ acts)
        final

/-- The run of a program that is submitted is awaited. -/
def Plays (p : Program) (realtime : Bool) (g : Game) (ticks : List Command) (acts : List Act)
    (final : RunResult × Game) : Prop :=
  Awaits realtime (g.apply (.submit p)).1 (g.apply (.submit p)).2 ticks acts final

/-- A **sitting** of at most some levels, with what is asked of the game, with what is done on the
host, and with the exit code. After a win the player advances, and the level is saved. -/
inductive Sitting (p : Program) (realtime : Bool) (levelFile : String) :
    Nat → Game → List Command → List Act → Nat → Prop
  | done (g : Game) : Sitting p realtime levelFile 0 g [] [] 0
  | lost {levels : Nat} {g last : Game} {ticks : List Command} {heard : List Act}
      {result : RunResult} (hplays : Plays p realtime g ticks heard (result, last))
      (hlost : result ≠ .win) :
      Sitting p realtime levelFile (levels + 1) g (.submit p :: ticks)
        (heading g :: heard ++ [ending result last]) (exitCode result)
  | won {levels : Nat} {g last : Game} {ticks commands : List Command} {heard acts : List Act}
      {code : Nat} (hplays : Plays p realtime g ticks heard (.win, last))
      (hrest : Sitting p realtime levelFile levels (last.apply .advance).2 commands acts code) :
      Sitting p realtime levelFile (levels + 1) g (.submit p :: ticks ++ .advance :: commands)
        (heading g :: heard ++ [ending .win last,
          .write levelFile (levelText (last.apply .advance).2.level.number),
          told (last.apply .advance).1] ++ acts) code

/-! ### What is heard of a result -/

theorem finished?_append (events further : Array Event) :
    finished? (events ++ further) = (finished? further).or (finished? events) := by
  simp [finished?, List.findSome?_append]

/-- What a run prints and does tells of its result. -/
theorem finished?_progress (lines : Array String) (progress : Progress) :
    finished? (lines.map Event.printed ++ Game.progressEvents progress) = progress.result? := by
  have hlines : finished? (lines.map Event.printed) = none := by
    simp [finished?]
  rw [finished?_append, hlines, Option.or_none]
  cases progress with
  | idle | started | moved | blocked | finished => rfl

theorem runFinished_mem_of_finished? {events : Array Event} {result : RunResult}
    (h : finished? events = some result) : .runFinished result ∈ events := by
  obtain ⟨e, he, hresult⟩ := List.exists_of_findSome?_eq_some h
  cases e with
  | runFinished r =>
    obtain rfl : r = result := Option.some.inj hresult
    exact Array.mem_toList_iff.1 (List.mem_reverse.1 he)
  | _ => cases hresult

/-- Whoever has **heard** the last events knows whether the run is over, and with which result. -/
structure Heard (events : Array Event) (g : Game) : Prop where
  result : finished? events = g.lastResult
  running : g.engine.isRunning = g.lastResult.isNone

namespace Heard

variable {events : Array Event} {g : Game}

theorem resume (hrunning : g.engine.isRunning = true) (hnone : g.lastResult = none) :
    Heard g.resume.1 g.resume.2 := by
  obtain ⟨lines, engine, world, -, hcases⟩ := Game.resume_cases hrunning
  rcases hcases with ⟨progress, hgoes, hrunning', heq⟩ | ⟨result, hover, -, heq⟩
  · rw [heq]
    exact ⟨by rw [finished?_progress, Progress.result?_of_goesOn hgoes, hnone],
      by rw [hrunning', hnone]; rfl⟩
  · rw [heq]
    exact ⟨finished?_progress lines (.finished result), hover⟩

/-- While a run is in progress, a tick tells of a result exactly if it ends the run. -/
theorem tick (hrunning : g.engine.isRunning = true) (hnone : g.lastResult = none)
    (nanoseconds : Nat) : Heard (g.tick nanoseconds).1 (g.tick nanoseconds).2 := by
  rw [Game.tick, if_pos hrunning]
  split
  · exact .resume hrunning hnone
  · -- Steps are only made as long as no result has been told of.
    refine (Game.steps_induction (P := Heard) (fun events g' hg' hdue => ?_) #[] _ ?_).1
    · have hnone' : g'.lastResult = none := by
        rw [← Option.isNone_iff_eq_none, ← hg'.running]
        exact hdue.1
      obtain ⟨hresult, hover⟩ := Heard.resume (g := g'.spend) hdue.1 hnone'
      refine ⟨?_, hover⟩
      rw [finished?_append, hresult, hg'.result, hnone', Option.or_none]
    · exact ⟨hnone.symm, by rw [hrunning, hnone]; rfl⟩

theorem submit (p : Program) (g : Game) :
    Heard (g.apply (.submit p)).1 (g.apply (.submit p)).2 := by
  cases hcode : p.code with
  | ok code =>
    rw [Game.apply_submit_of_code hcode]
    exact ⟨by rw [finished?_append, finished?_progress]; rfl, rfl⟩
  | error err =>
    rw [Game.apply_submit_of_error hcode]
    exact ⟨by rw [finished?_append, finished?_progress]; rfl, rfl⟩

theorem running_of_none (h : Heard events g) (hnone : finished? events = none) :
    g.engine.isRunning = true ∧ g.lastResult = none := by
  have hnone' : g.lastResult = none := h.result.symm.trans hnone
  exact ⟨by rw [h.running, hnone']; rfl, hnone'⟩

/-- As long as no result has been heard, the next tick is heard as well. -/
theorem later (h : Heard events g) (hnone : finished? events = none) :
    Heard (g.apply (.tick g.delay)).1 (g.apply (.tick g.delay)).2 := by
  obtain ⟨hrunning, hnone'⟩ := h.running_of_none hnone
  exact .tick hrunning hnone' g.delay

/-- As long as no result has been heard, a tick brings the end of the run nearer. -/
theorem exists_endsAfter_lt (h : Heard events g) (hnone : finished? events = none)
    (hdelay : g.delay ≤ maxTime) {r : Nat} (hends : g.engine.EndsAfter g.world r) :
    ∃ r' < r,
      (g.apply (.tick g.delay)).2.engine.EndsAfter (g.apply (.tick g.delay)).2.world r' := by
  obtain ⟨n, hle, time, htick, hmany⟩ := Game.exists_tick_eq hends g.delay
  have hone := hmany hdelay le_rfl
  have hpos := hends.pos (h.running_of_none hnone).1
  refine ⟨r - n, by omega, ?_⟩
  rw [Game.apply, htick]
  exact hends.reports hle

/-- Every run can be awaited. -/
theorem exists_awaits (h : Heard events g) (hdelay : g.delay ≤ maxTime) (realtime : Bool) :
    ∃ ticks acts final, Awaits realtime events g ticks acts final := by
  obtain ⟨r, -, hends⟩ := g.engine.exists_endsAfter g.world
  induction r using Nat.strong_induction_on generalizing events g with
  | _ r ih =>
    cases hresult : finished? events with
    | some result => exact ⟨_, _, _, .finished hresult⟩
    | none =>
      obtain ⟨r', hlt, hends'⟩ := h.exists_endsAfter_lt hresult hdelay hends
      obtain ⟨ticks, acts, final, hrest⟩ :=
        ih r' hlt (h.later hresult) ((g.delay_apply _).trans_le hdelay) hends'
      exact ⟨_, _, _, .tick hresult hrest⟩

end Heard

namespace Awaits

variable {realtime : Bool} {events : Array Event} {g : Game} {ticks : List Command}
  {acts : List Act} {final : RunResult × Game}

/-- A run is awaited for at most as many ticks as it has resumptions. -/
theorem length_le (h : Awaits realtime events g ticks acts final) (hheard : Heard events g)
    (hdelay : g.delay ≤ maxTime) {r : Nat} (hends : g.engine.EndsAfter g.world r) :
    ticks.length ≤ r := by
  induction h generalizing r with
  | finished hresult => exact Nat.zero_le r
  | @tick events g ticks acts final hnone hrest ih =>
    obtain ⟨r', hlt, hends'⟩ := hheard.exists_endsAfter_lt hnone hdelay hends
    have hle := ih (hheard.later hnone) ((g.delay_apply _).trans_le hdelay) hends'
    exact Nat.succ_le_of_lt (hle.trans_lt hlt)

/-- Nothing but ticks is asked for. -/
theorem exists_ticks (h : Awaits realtime events g ticks acts final) :
    ∃ times : List Nat, ticks = times.map .tick := by
  induction h with
  | finished hresult => exact ⟨[], rfl⟩
  | @tick events g ticks acts final hnone hrest ih =>
    obtain ⟨times, rfl⟩ := ih
    exact ⟨g.delay :: times, rfl⟩

/-- The game that is left is the one in which the ticks have been asked for. -/
theorem game_eq (h : Awaits realtime events g ticks acts final) :
    final.2 = (g.applyAll ticks).2 := by
  induction h with
  | finished hresult => rfl
  | tick hnone hrest ih => exact ih

/-- The result is among the events. -/
theorem result_mem (h : Awaits realtime events g ticks acts final) :
    .runFinished final.1 ∈ events ++ (g.applyAll ticks).1 := by
  induction h with
  | finished hresult => exact Array.mem_append_left _ (runFinished_mem_of_finished? hresult)
  | tick hnone hrest ih => exact Array.mem_append_right _ ih

/-- The result is the one that the game remembers, and its run is over. -/
theorem lastResult_eq (h : Awaits realtime events g ticks acts final) (hheard : Heard events g) :
    final.2.lastResult = some final.1 ∧ final.2.engine.isRunning = false := by
  induction h with
  | finished hresult =>
    have hlast := hheard.result.symm.trans hresult
    exact ⟨hlast, by rw [hheard.running, hlast]; rfl⟩
  | tick hnone hrest ih => exact ih (hheard.later hnone)

end Awaits

namespace Plays

variable {p : Program} {realtime : Bool} {g : Game} {ticks : List Command} {acts : List Act}
  {final : RunResult × Game}

theorem game_eq (h : Plays p realtime g ticks acts final) :
    final.2 = (g.applyAll (.submit p :: ticks)).2 := by
  unfold Plays at h
  exact h.game_eq

theorem delay_eq (h : Plays p realtime g ticks acts final) : final.2.delay = g.delay := by
  rw [h.game_eq]
  exact (g.savesLevel_applyAll _).delay

theorem lastResult_eq (h : Plays p realtime g ticks acts final) :
    final.2.lastResult = some final.1 ∧ final.2.engine.isRunning = false :=
  Awaits.lastResult_eq h (.submit p g)

/-- Every program can be played. -/
theorem exists_plays (p : Program) (realtime : Bool) (hdelay : g.delay ≤ maxTime) :
    ∃ ticks acts final, Plays p realtime g ticks acts final :=
  (Heard.submit p g).exists_awaits ((g.delay_apply _).trans_le hdelay) realtime

end Plays

/-- Every sitting comes to its end. -/
theorem exists_sitting (p : Program) (realtime : Bool) (levelFile : String) (levels : Nat)
    {g : Game} (hdelay : g.delay ≤ maxTime) :
    ∃ commands acts code, Sitting p realtime levelFile levels g commands acts code := by
  induction levels generalizing g with
  | zero => exact ⟨_, _, _, .done g⟩
  | succ levels ih =>
    obtain ⟨ticks, heard, ⟨result, last⟩, hplays⟩ := Plays.exists_plays p realtime hdelay
    by_cases hwon : result = .win
    · subst hwon
      have hdelay' : (last.apply .advance).2.delay ≤ maxTime := by
        rwa [Game.delay_apply, hplays.delay_eq]
      obtain ⟨commands, acts, code, hrest⟩ := ih hdelay'
      exact ⟨_, _, _, .won hplays hrest⟩
    · exact ⟨_, _, _, .lost hplays hwon⟩

/-! ### The functions that play -/

section

variable {m : Type → Type} [Monad m] [LawfulMonad m] (host : Host m)

/-- A run is awaited by whoever is granted more ticks than it takes. -/
theorem awaitResult_eq {realtime : Bool} {events : Array Event} {g : Game} {ticks : List Command}
    {acts : List Act} {final : RunResult × Game}
    (h : Awaits realtime events g ticks acts final) {granted : Nat}
    (hgranted : ticks.length < granted) :
    awaitResult host realtime granted events g = (do host.acts acts; return final) := by
  induction h generalizing granted with
  | @finished events g result hresult =>
    cases granted with
    | zero => exact absurd hgranted (Nat.not_lt_zero _)
    | succ granted =>
      rw [awaitResult, hresult]
      simp [Host.acts, Host.act, told, tell]
  | @tick events g ticks acts final hnone hrest ih =>
    cases granted with
    | zero => exact absurd hgranted (Nat.not_lt_zero _)
    | succ granted =>
      rw [awaitResult, hnone]
      simp only [ih (Nat.lt_of_succ_lt_succ hgranted)]
      cases realtime with
      | true => simp [Host.acts, Host.act, told, tell, pause]
      | false => simp [Host.acts, Host.act, told, tell, pause]

/-- The run of a program is never cut short. -/
theorem playLevel_eq {p : Program} {realtime : Bool} {g : Game} {ticks : List Command}
    {heard : List Act} {final : RunResult × Game} (h : Plays p realtime g ticks heard final)
    (hdelay : g.delay ≤ maxTime) :
    playLevel host p realtime g =
      (do host.acts (heading g :: heard ++ [ending final.1 final.2]); return final) := by
  obtain ⟨r, hle, hends⟩ :=
    (g.apply (.submit p)).2.engine.exists_endsAfter (g.apply (.submit p)).2.world
  have hlength := h.length_le (.submit p g) ((g.delay_apply _).trans_le hdelay) hends
  have hgranted : ticks.length < (g.apply (.submit p)).2.engine.left + 2 := by omega
  have hawait := awaitResult_eq host h hgranted
  simp only [playLevel, hawait]
  simp [Host.acts, Host.act, Host.acts_append, heading, ending]

/-- To play several levels is to do what is done at a sitting, and nothing else. -/
theorem playLevels_eq {p : Program} {realtime : Bool} {levelFile : String} {levels : Nat} {g : Game}
    {commands : List Command} {acts : List Act} {code : Nat}
    (h : Sitting p realtime levelFile levels g commands acts code) (hdelay : g.delay ≤ maxTime) :
    playLevels host p realtime levelFile levels g = (do host.acts acts; return code) := by
  induction h with
  | done g => simp [playLevels, Host.acts]
  | lost hplays hlost =>
    have hlost' := mt RunResult.isWin_iff.1 hlost
    rw [playLevels, playLevel_eq host hplays hdelay]
    simp [hlost']
  | @won levels g last ticks commands heard acts code hplays hrest ih =>
    have hdelay' : (last.apply .advance).2.delay ≤ maxTime := by
      rwa [Game.delay_apply, hplays.delay_eq]
    rw [playLevels, playLevel_eq host hplays hdelay]
    simp [RunResult.isWin, ih hdelay', Host.acts, Host.act, Host.acts_append, told, tell]

end

end Labyrinth.Console
