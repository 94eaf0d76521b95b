import Labyrinth.Proofs.Games.Ticks
import Labyrinth.Proofs.Trails

/-!
# The story of a game

Who hears of all events of a game knows where its cursor stands and where it has been, without ever
seeing the world. Such a listener has a **picture** of the world, which every event brings up to
date. No event comes as a surprise: a cursor moves away from where it stands in the picture or is
blocked there, and as many moves are counted as cells have been entered in the picture.

## Main results

* `Progress.Tells.story`: what an engine tells brings a picture up to date.
* `Game.story_apply`: so does what every command tells.
* `Game.story_applyAll_new`: the pictures of a game that is played.
-/

namespace Labyrinth

/-- What is known of a world from the events of a game. -/
structure Picture where
  /-- The start of the maze. -/
  start : Coord
  cursor : Coord
  trail : Array Coord
  deriving DecidableEq, Repr

/-- What there is to be known of a world. -/
def World.picture (w : World) : Picture := ⟨w.grid.start, w.cursor, w.trail⟩

namespace Picture

/-- The picture before the first step from a start. -/
def begin (start : Coord) : Picture := ⟨start, start, #[start]⟩

/-- The picture after an event. -/
def observe (p : Picture) : Event → Picture
  | .mazeGenerated _ _ start _ => begin start
  | .runStarted _ => begin p.start
  | .runReset => begin p.start
  | .cursorMoved _ target _ => { p with cursor := target, trail := p.trail.push target }
  | _ => p

/-- The picture after several events. -/
def observeAll (p : Picture) (events : List Event) : Picture := events.foldl observe p

/-- An event **fits** a picture if the cursor is where it stands in the picture, and if as many
moves are counted as cells have been entered in the picture then. -/
def Fits (p : Picture) : Event → Prop
  | .cursorMoved origin target moves =>
    origin = p.cursor ∧
      moves.toNat = min ((p.observe (.cursorMoved origin target moves)).trail.size - 1) 4294967295
  | .moveBlocked cell _ => cell = p.cursor
  | _ => True

/-- Each of several events fits the picture that the events before it have led to. -/
def Accepts (p : Picture) : List Event → Prop
  | [] => True
  | e :: events => p.Fits e ∧ (p.observe e).Accepts events

theorem accepts_append (p : Picture) (events further : List Event) :
    p.Accepts (events ++ further) ↔ p.Accepts events ∧ (p.observeAll events).Accepts further := by
  induction events generalizing p with
  | nil => exact (iff_of_eq (true_and _)).symm
  | cons e events ih =>
    rw [List.cons_append, Accepts, Accepts, ih, and_assoc]
    rfl

/-- The events that lead from one picture to another one, each of them fitting. -/
structure Story (p : Picture) (events : Array Event) (p' : Picture) : Prop where
  accepts : p.Accepts events.toList
  final : p.observeAll events.toList = p'

namespace Story

variable {p p' p'' : Picture} {events further : Array Event}

theorem refl (p : Picture) : p.Story #[] p := ⟨trivial, rfl⟩

theorem single {e : Event} (h : p.Fits e) : p.Story #[e] (p.observe e) := ⟨⟨h, trivial⟩, rfl⟩

theorem trans (h : p.Story events p') (h' : p'.Story further p'') :
    p.Story (events ++ further) p'' := by
  obtain ⟨haccepts, rfl⟩ := h
  obtain ⟨haccepts', rfl⟩ := h'
  refine ⟨?_, ?_⟩
  · rw [Array.toList_append, accepts_append]
    exact ⟨haccepts, haccepts'⟩
  · rw [Array.toList_append, observeAll, List.foldl_append]
    rfl

/-- Lines that are printed leave a picture as it is. -/
theorem printed (p : Picture) (lines : Array String) : p.Story (lines.map Event.printed) p := by
  have hlist (lines : List String) : p.Accepts (lines.map Event.printed) ∧
      p.observeAll (lines.map Event.printed) = p := by
    induction lines with
    | nil => exact ⟨trivial, rfl⟩
    | cons line lines ih => exact ⟨⟨trivial, ih.1⟩, ih.2⟩
  obtain ⟨haccepts, hfinal⟩ := hlist lines.toList
  rw [← Array.toList_map] at haccepts hfinal
  exact ⟨haccepts, hfinal⟩

end Story

end Picture

/-! ### What a run tells -/

/-- The trail of a world is a walk to the cursor, and its moves are counted. -/
def World.Sane (w : World) : Prop := w.Honest ∧ w.Counted

theorem Progress.Tells.sane {progress : Progress} {w w' : World} (h : progress.Tells w w')
    (hw : w.Sane) : w'.Sane := by
  have hstep (d : Direction) : (w.step d).2.Sane := World.honest_counted_change hw.1 hw.2 (.step d)
  cases progress with
  | moved origin target moves =>
    obtain ⟨⟨d, hmove⟩, -⟩ := h
    simpa only [hmove] using hstep d
  | blocked cell d =>
    have hblocked : w.step d = (.blocked cell, w') := h
    simpa only [hblocked] using hstep d
  | idle | started | finished =>
    obtain rfl : w' = w := h
    exact hw

/-- What an engine tells brings a picture up to date. -/
theorem Progress.Tells.story {progress : Progress} {w w' : World} (h : progress.Tells w w')
    (hw : w.Sane) (lines : Array String) :
    w.picture.Story (lines.map Event.printed ++ Game.progressEvents progress) w'.picture := by
  refine (Picture.Story.printed _ lines).trans ?_
  have hcounted := (h.sane hw).2
  cases progress with
  | moved origin target moves =>
    obtain ⟨⟨d, hmove⟩, rfl⟩ := h
    obtain ⟨rfl, -, -, rfl⟩ := World.step_moved hmove
    exact .single ⟨rfl, hcounted⟩
  | blocked cell d =>
    obtain ⟨rfl, rfl⟩ := World.step_blocked h
    exact .single rfl
  | finished result =>
    obtain rfl : w' = w := h
    exact .single trivial
  | idle | started =>
    obtain rfl : w' = w := h
    exact .refl _

namespace Game

/-! ### What commands tell -/

/-- From the game `g` to the game `g'`, the events tell all that a listener can know. -/
structure Narrates (g : Game) (events : Array Event) (g' : Game) : Prop where
  story : g.world.picture.Story events g'.world.picture
  sane : g'.world.Sane

theorem story_resume {g : Game} (hg : g.world.Sane) : g.Narrates g.resume.1 g.resume.2 := by
  have htells := g.engine.tells_resume g.world
  rw [resume_eq_report]
  exact ⟨htells.story hg _, htells.sane hg⟩

theorem story_tick {g : Game} (hg : g.world.Sane) (nanoseconds : Nat) :
    g.Narrates (g.tick nanoseconds).1 (g.tick nanoseconds).2 := by
  unfold tick
  split
  · split
    · exact story_resume hg
    · refine (steps_induction (P := g.Narrates) (fun events g' hg' _ => ?_) #[] _ ?_).1
      · obtain ⟨hstory, hsane⟩ := story_resume (g := g'.spend) hg'.sane
        exact ⟨hg'.story.trans hstory, hsane⟩
      · exact ⟨.refl _, hg⟩
  · exact ⟨.refl _, hg⟩

theorem story_regenerate (g : Game) : g.Narrates g.regenerate.1 g.regenerate.2 :=
  ⟨.single trivial, World.honest_new _, World.counted_new _⟩

theorem story_apply {g : Game} (hg : g.world.Sane) (c : Command) :
    g.Narrates (g.apply c).1 (g.apply c).2 := by
  have hreset : g.world.reset.Sane := ⟨World.honest_reset _, World.counted_new _⟩
  cases c with
  | regenerate => exact g.story_regenerate
  | reset => exact ⟨.single trivial, hreset⟩
  | advance =>
    by_cases hwon : g.lastResult = some .win
    · rw [apply_advance_of_won hwon]
      obtain ⟨hstory, hsane⟩ :=
        story_regenerate { g with level := g.level.next, saved := some g.level.next.number }
      exact ⟨.trans (.single trivial) hstory, hsane⟩
    · rw [apply_advance_of_not_won hwon]
      exact ⟨.single trivial, hg⟩
  | submit p =>
    have hbegin : g.world.picture.Story #[.runStarted p.dialect] g.world.reset.picture :=
      .single trivial
    cases hcode : p.code with
    | ok code =>
      rw [apply_submit_of_code hcode]
      have htells : Progress.started.Tells g.world.reset g.world.reset := rfl
      exact ⟨hbegin.trans (htells.story hreset _), hreset⟩
    | error err =>
      rw [apply_submit_of_error hcode]
      have htells : (Progress.finished (.errored err.message)).Tells g.world.reset g.world.reset :=
        rfl
      exact ⟨hbegin.trans (htells.story hreset _), hreset⟩
  | tick nanoseconds => exact story_tick hg nanoseconds

theorem story_applyAll {g : Game} (hg : g.world.Sane) (commands : List Command) :
    g.Narrates (g.applyAll commands).1 (g.applyAll commands).2 := by
  refine applyAll_induction (P := g.Narrates) (fun events g' c hg' => ?_) ⟨.refl _, hg⟩ commands
  obtain ⟨hstory, hsane⟩ := story_apply hg'.sane c
  exact ⟨hg'.story.trans hstory, hsane⟩

/-- Who knows the start of the first maze and hears of all events has always got the right picture
of the world, and each event fits the picture before it. -/
theorem story_applyAll_new (config : GameConfig) (saved : Option UInt32)
    (commands : List Command) :
    let first := Picture.begin (new config saved).world.grid.start
    let events := ((new config saved).applyAll commands).1
    let g := ((new config saved).applyAll commands).2
    first.observeAll events.toList = ⟨g.world.grid.start, g.world.cursor, g.world.trail⟩ ∧
      first.Accepts events.toList := by
  intro first events g
  have hsane : (new config saved).world.Sane := ⟨World.honest_new _, World.counted_new _⟩
  obtain ⟨⟨haccepts, hfinal⟩, -⟩ := story_applyAll hsane commands
  exact ⟨hfinal, haccepts⟩

end Game

end Labyrinth
