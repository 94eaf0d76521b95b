import Labyrinth.Proofs.Games

/-!
# The mazes of a game

A game shows a first maze, and another one with each event that tells of one. Which maze this is
depends on the seed of the game, on how many mazes have been shown before, and on the level, but on
nothing else: the programs that are run, the time that passes and all other commands leave the maze
in place and the source of the mazes as it is.

## Main results

* `Game.keeps_or_renews`: a command keeps the maze, or puts the next maze of the source into place.
* `Game.grid_of_shownAfter`: the mazes that are shown later.
* `Game.grid_shown_new`: the mazes of a game that is played, and those of two games with one seed.
-/

namespace Labyrinth

/-- Whether the event tells of another maze. -/
def Event.isMaze : Event → Bool
  | mazeGenerated .. => true
  | _ => false

/-- The maze for a seed and a level when `n` mazes have been shown before. -/
def mazeOf (seed : UInt64) (level : UInt32) (n : Nat) : Grid :=
  (generateMaze Keystream.draw (sizeForLevel level)
    (Keystream.ofSeed (MazeSource.layoutSeed seed level (UInt64.ofNat n)))).1

/-- A maze that is shown, and the number of the level on which it is shown. -/
structure Exhibit where
  level : UInt32
  grid : Grid

/-- How a game tells of the maze. -/
def Exhibit.event (x : Exhibit) : Event :=
  .mazeGenerated x.level (sizeForLevel x.level) x.grid.start x.grid.exit

namespace Game

/-- The maze that a game shows. -/
def exhibit (g : Game) : Exhibit := ⟨g.level.number, g.world.grid⟩

/-- The mazes that are shown while commands are carried out, one for each command that tells of
another maze. -/
def shownAfter (g : Game) : List Command → List Exhibit
  | [] => []
  | c :: commands =>
    let (events, g) := g.apply c
    let later := g.shownAfter commands
    if events.any Event.isMaze then g.exhibit :: later else later

/-- All mazes that a game shows while commands are carried out, from the first one on. -/
def shown (g : Game) (commands : List Command) : List Exhibit := g.exhibit :: g.shownAfter commands

/-! ### Games that keep the maze -/

/-- From the game `g` to the game `g'`, with some events in between, the maze and the source of the
mazes have been **kept**. -/
structure Keeps (g : Game) (events : Array Event) (g' : Game) : Prop where
  noMaze : ∀ e ∈ events, e.isMaze = false
  exhibit_eq : g'.exhibit = g.exhibit
  source_eq : g'.source = g.source

namespace Keeps

variable {g g' g'' : Game} {events further : Array Event}

theorem trans (h : g.Keeps events g') (h' : g'.Keeps further g'') :
    g.Keeps (events ++ further) g'' where
  noMaze e he := (Array.mem_append.1 he).elim (h.noMaze e) (h'.noMaze e)
  exhibit_eq := h'.exhibit_eq.trans h.exhibit_eq
  source_eq := h'.source_eq.trans h.source_eq

theorem any_eq_false (h : g.Keeps events g') : events.any Event.isMaze = false :=
  Array.any_eq_false'.2 fun e he hmaze => absurd ((h.noMaze e he).symm.trans hmaze) nofun

theorem filter_eq_empty (h : g.Keeps events g') : events.filter Event.isMaze = #[] :=
  Array.filter_eq_empty_iff.2 fun e he hmaze => absurd ((h.noMaze e he).symm.trans hmaze) nofun

end Keeps

/-- What a run prints and does tells of no maze. -/
theorem isMaze_of_mem_progress {lines : Array String} (progress : Progress) {e : Event}
    (he : e ∈ lines.map Event.printed ++ progressEvents progress) : e.isMaze = false := by
  rcases Array.mem_append.1 he with hline | hprogress
  · obtain ⟨line, -, rfl⟩ := Array.mem_map.1 hline
    rfl
  · cases progress with
    | idle | started => simp [progressEvents] at hprogress
    | moved | blocked | finished =>
      obtain rfl := Array.mem_singleton.1 hprogress
      rfl

theorem keeps_resume {g : Game} (hrunning : g.engine.isRunning = true) :
    g.Keeps g.resume.1 g.resume.2 := by
  obtain ⟨lines, engine, world, hgrid, hcases⟩ := resume_cases hrunning
  have hexhibit : (Exhibit.mk g.level.number world.grid) = g.exhibit := by rw [hgrid, exhibit]
  rcases hcases with ⟨progress, -, -, heq⟩ | ⟨result, -, -, heq⟩
  · rw [heq]
    exact ⟨fun e he => isMaze_of_mem_progress progress he, hexhibit, rfl⟩
  · rw [heq]
    exact ⟨fun e he => isMaze_of_mem_progress (.finished result) he, hexhibit, rfl⟩

theorem keeps_tick (g : Game) (nanoseconds : Nat) :
    g.Keeps (g.tick nanoseconds).1 (g.tick nanoseconds).2 := by
  unfold tick
  split
  · next hrunning =>
    split
    · exact keeps_resume hrunning
    · refine (steps_induction (P := g.Keeps) (fun events g' hg hdue => ?_) #[] _ ?_).1
      · have hresume := keeps_resume (g := g'.spend) hdue.1
        exact hg.trans ⟨hresume.noMaze, hresume.exhibit_eq, hresume.source_eq⟩
      · exact ⟨nofun, rfl, rfl⟩
  · exact ⟨nofun, rfl, rfl⟩

theorem keeps_submit (g : Game) (p : Program) :
    g.Keeps (g.apply (.submit p)).1 (g.apply (.submit p)).2 := by
  have hevents {lines : Array String} {progress : Progress} (e : Event)
      (he : e ∈ #[Event.runStarted p.dialect] ++
        (lines.map Event.printed ++ progressEvents progress)) : e.isMaze = false := by
    rcases Array.mem_append.1 he with hstart | hprogress
    · obtain rfl := Array.mem_singleton.1 hstart
      rfl
    · exact isMaze_of_mem_progress _ hprogress
  cases hcode : p.code with
  | ok code =>
    rw [apply_submit_of_code hcode]
    exact ⟨hevents, rfl, rfl⟩
  | error err =>
    rw [apply_submit_of_error hcode]
    exact ⟨hevents, rfl, rfl⟩

/-! ### Games that show another maze -/

/-- From the game `g` to the game `g'`, the next maze of the source has been put into place, and
this is told of last. -/
structure Renews (g : Game) (events : Array Event) (g' : Game) : Prop where
  told : ∃ earlier : Array Event, events = earlier.push g'.exhibit.event ∧
    ∀ e ∈ earlier, e.isMaze = false
  grid_eq : g'.world.grid = g.source.maze g'.level.number (sizeForLevel g'.level.number)
  source_eq : g'.source = ⟨g.source.seed, g.source.generation + 1⟩

namespace Renews

variable {g g' : Game} {events : Array Event}

theorem any_eq_true (h : g.Renews events g') : events.any Event.isMaze = true := by
  obtain ⟨earlier, rfl, -⟩ := h.told
  exact Array.any_eq_true'.2 ⟨_, Array.mem_push_self, rfl⟩

theorem filter_eq (h : g.Renews events g') :
    events.filter Event.isMaze = #[g'.exhibit.event] := by
  obtain ⟨earlier, rfl, hearlier⟩ := h.told
  have hempty : earlier.filter Event.isMaze = #[] :=
    Array.filter_eq_empty_iff.2 fun e he hmaze => absurd ((hearlier e he).symm.trans hmaze) nofun
  rw [← Array.append_singleton, Array.filter_append Array.size_append, hempty, Array.empty_append]
  rfl

end Renews

theorem renews_regenerate (g : Game) : g.Renews g.regenerate.1 g.regenerate.2 :=
  ⟨⟨#[], rfl, nofun⟩, rfl, rfl⟩

theorem level_exhibit_regenerate (g : Game) : g.regenerate.2.exhibit.level = g.exhibit.level := rfl

/-- A command keeps the maze, or puts the next maze of the source into place. -/
theorem keeps_or_renews (g : Game) (c : Command) :
    g.Keeps (g.apply c).1 (g.apply c).2 ∨ g.Renews (g.apply c).1 (g.apply c).2 := by
  cases c with
  | regenerate => exact .inr g.renews_regenerate
  | advance =>
    by_cases hwon : g.lastResult = some .win
    · rw [apply_advance_of_won hwon]
      refine .inr ⟨⟨#[.levelAdvanced g.level.next.number g.level.next.size], rfl, ?_⟩, rfl, rfl⟩
      intro e he
      obtain rfl := Array.mem_singleton.1 he
      rfl
    · rw [apply_advance_of_not_won hwon]
      refine .inl ⟨fun e he => ?_, rfl, rfl⟩
      obtain rfl := Array.mem_singleton.1 he
      rfl
  | reset =>
    refine .inl ⟨fun e he => ?_, rfl, rfl⟩
    obtain rfl := Array.mem_singleton.1 he
    rfl
  | submit p => exact .inl (g.keeps_submit p)
  | tick nanoseconds => exact .inl (g.keeps_tick nanoseconds)

/-! ### Mazes that are shown -/

theorem shownAfter_of_keeps {g : Game} {c : Command}
    (h : g.Keeps (g.apply c).1 (g.apply c).2) (commands : List Command) :
    g.shownAfter (c :: commands) = (g.apply c).2.shownAfter commands := by
  simp only [shownAfter, h.any_eq_false, Bool.false_eq_true, if_false]

theorem shownAfter_of_renews {g : Game} {c : Command}
    (h : g.Renews (g.apply c).1 (g.apply c).2) (commands : List Command) :
    g.shownAfter (c :: commands) =
      (g.apply c).2.exhibit :: (g.apply c).2.shownAfter commands := by
  simp only [shownAfter, h.any_eq_true, if_true]

/-- Of each maze that is shown later the game tells, and of no other one. -/
theorem filter_isMaze_applyAll (g : Game) (commands : List Command) :
    (g.applyAll commands).1.filter Event.isMaze =
      ((g.shownAfter commands).map Exhibit.event).toArray := by
  induction commands generalizing g with
  | nil => rfl
  | cons c commands ih =>
    simp only [applyAll]
    rw [Array.filter_append Array.size_append, ih]
    rcases g.keeps_or_renews c with hkeeps | hrenews
    · rw [hkeeps.filter_eq_empty, shownAfter_of_keeps hkeeps, Array.empty_append]
    · rw [hrenews.filter_eq, shownAfter_of_renews hrenews]
      simp

/-- The maze that a game shows in the end is the one that has been shown last. -/
theorem getLast?_shown (g : Game) (commands : List Command) :
    (g.shown commands).getLast? = some (g.applyAll commands).2.exhibit := by
  induction commands generalizing g with
  | nil => rfl
  | cons c commands ih =>
    specialize ih (g.apply c).2
    rcases g.keeps_or_renews c with hkeeps | hrenews
    · rw [shown, shownAfter_of_keeps hkeeps, ← hkeeps.exhibit_eq]
      exact ih
    · rw [shown, shownAfter_of_renews hrenews, List.getLast?_cons_cons]
      exact ih

/-- The mazes that are shown when `n` mazes have been shown before. -/
theorem grid_of_shownAfter {g : Game} {seed : UInt64} {n : Nat}
    (hsource : g.source = ⟨seed, UInt64.ofNat n⟩) {commands : List Command} {i : Nat} {x : Exhibit}
    (hx : (g.shownAfter commands)[i]? = some x) : x.grid = mazeOf seed x.level (n + i) := by
  induction commands generalizing g n i with
  | nil => simp [shownAfter] at hx
  | cons c commands ih =>
    rcases g.keeps_or_renews c with hkeeps | hrenews
    · rw [shownAfter_of_keeps hkeeps] at hx
      exact ih (hkeeps.source_eq.trans hsource) hx
    · rw [shownAfter_of_renews hrenews] at hx
      cases i with
      | zero =>
        obtain rfl : (g.apply c).2.exhibit = x := Option.some.inj hx
        exact hrenews.grid_eq.trans (by rw [hsource]; rfl)
      | succ i =>
        have hnext : (g.apply c).2.source = ⟨seed, UInt64.ofNat (n + 1)⟩ := by
          rw [hrenews.source_eq, hsource, UInt64.ofNat_add]
          rfl
        rw [← Nat.succ_add_eq_add_succ]
        exact ih hnext hx

/-- The mazes of a game from the first one on. -/
theorem grid_of_shown {config : GameConfig} {saved : Option UInt32} {commands : List Command}
    {n : Nat} {x : Exhibit} (hx : ((new config saved).shown commands)[n]? = some x) :
    x.grid = mazeOf config.seed x.level n := by
  have hsource : (new config saved).source = ⟨config.seed, UInt64.ofNat 1⟩ := rfl
  cases n with
  | zero =>
    obtain rfl : (new config saved).exhibit = x := Option.some.inj hx
    rfl
  | succ n =>
    rw [Nat.add_comm]
    exact grid_of_shownAfter hsource hx

/-- Every maze that a game shows is the one for its seed, the level of that moment, and the number
of mazes that have been shown before. The game shows a first maze and then one with each event that
tells of one, and the maze that has been shown last stays in place. So two games with one seed show
the same maze whenever they have shown as many before and the levels are equal, whatever else has
been done in them. -/
theorem grid_shown_new (config : GameConfig) (saved : Option UInt32) (commands : List Command) :
    let shown := (new config saved).shown commands
    let events := ((new config saved).applyAll commands).1
    let g := ((new config saved).applyAll commands).2
    (∀ n : Fin shown.length, shown[n].grid =
        (generateMaze Keystream.draw (sizeForLevel shown[n].level)
          (Keystream.ofSeed
            (MazeSource.layoutSeed config.seed shown[n].level (UInt64.ofNat n)))).1) ∧
      (events.filter Event.isMaze).toList = shown.tail.map Exhibit.event ∧
      shown.getLast? = some ⟨g.level.number, g.world.grid⟩ ∧
      ∀ (delay : Nat) (limits : Limits) (saved' : Option UInt32) (commands' : List Command)
        (n : Nat) (x x' : Exhibit),
        shown[n]? = some x →
          ((new ⟨delay, limits, config.seed⟩ saved').shown commands')[n]? = some x' →
            x.level = x'.level → x.grid = x'.grid := by
  intro shown events g
  refine ⟨fun n => ?_, ?_, getLast?_shown _ _, ?_⟩
  · exact grid_of_shown (List.getElem?_eq_getElem n.isLt)
  · rw [filter_isMaze_applyAll]
    rfl
  · intro delay limits saved' commands' n x x' hx hx' hlevel
    rw [grid_of_shown hx, grid_of_shown hx', hlevel]

/-- In one game a program is run before the player asks for another maze, and in the other one the
player asks for it at once and is then turned away from the next level. Both show the same maze in
the second place. -/
theorem grid_shown_new_stepRight :
    let shown := (new ⟨10, .default, 7⟩ none).shown [.submit .stepRight, .tick 13, .regenerate]
    let shown' := (new ⟨0, ⟨2, 5⟩, 7⟩ (some 1)).shown [.regenerate, .advance]
    ∃ x x' : Exhibit, shown[1]? = some x ∧ shown'[1]? = some x' ∧ x.level = x'.level ∧
      x.grid = x'.grid := by
  intro shown shown'
  let g := new ⟨10, .default, 7⟩ none
  let g' := new ⟨0, ⟨2, 5⟩, 7⟩ (some 1)
  let played := ((g.apply (.submit .stepRight)).2.apply (.tick 13)).2
  have hsubmit := g.keeps_submit .stepRight
  have htick := (g.apply (.submit .stepRight)).2.keeps_tick 13
  have hshown : shown[1]? = some played.regenerate.2.exhibit := by
    simp only [shown, Game.shown]
    rw [shownAfter_of_keeps hsubmit, shownAfter_of_keeps htick,
      shownAfter_of_renews (renews_regenerate _)]
    rfl
  have hshown' : shown'[1]? = some g'.regenerate.2.exhibit := by
    simp only [shown', Game.shown]
    rw [shownAfter_of_renews (renews_regenerate _)]
    rfl
  have hplayed : played.exhibit = g.exhibit := htick.exhibit_eq.trans hsubmit.exhibit_eq
  have hlevel : played.regenerate.2.exhibit.level = g'.regenerate.2.exhibit.level := by
    rw [level_exhibit_regenerate, level_exhibit_regenerate, hplayed]
    rfl
  obtain ⟨-, -, -, hagree⟩ :=
    grid_shown_new ⟨10, .default, 7⟩ none [.submit .stepRight, .tick 13, .regenerate]
  exact ⟨_, _, hshown, hshown', hlevel, hagree 0 ⟨2, 5⟩ (some 1) [.regenerate, .advance] 1 _ _
    hshown hshown' hlevel⟩

end Game

end Labyrinth
