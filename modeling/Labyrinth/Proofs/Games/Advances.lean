import Labyrinth.Proofs.Games

/-!
# Advances

A win unlocks the next level, and it does so once. It is spent by the advance, and it is lost when
the player asks for another maze, for the end of the run, or for the run of another program. Who
asks for the next level without a win that is left is turned away, and nothing changes.

The game itself only remembers the result of the last run. What this means for the player is said
here by the **log** of the game, which tells for every command what has happened.

## Main results

* `unlocked_concat`: how a win comes about and how it is lost.
* `Game.won_apply`: what every command does to a win.
* `Game.won_iff_unlocked`: the game remembers a win exactly if there is one in the log that is left.
* `Game.gated_applyAll_new`: the levels that a player gets to.
-/

namespace Labyrinth

/-! ### Logs -/

/-- A command and what has happened when it was carried out. -/
structure Entry where
  command : Command
  events : Array Event

/-- Whether a win that came before is spent or lost. -/
def Entry.Locks (e : Entry) : Prop :=
  match e.command with
  | .regenerate | .reset | .submit _ => True
  | .advance => e.events.any Event.isAdvance = true
  | .tick _ => False

/-- The next level is **unlocked** if a run has been won and the win has been neither spent nor lost
since. -/
def Unlocked (log : List Entry) : Prop :=
  ∃ earlier e later, log = earlier ++ e :: later ∧ .runFinished .win ∈ e.events ∧
    ∀ e' ∈ later, ¬e'.Locks

theorem not_unlocked_nil : ¬Unlocked [] := by
  rintro ⟨earlier, e, later, hlog, -⟩
  simp at hlog

/-- The next level is unlocked by a win, and stays so as long as nothing locks it. -/
theorem unlocked_concat {log : List Entry} {e : Entry} :
    Unlocked (log ++ [e]) ↔ .runFinished .win ∈ e.events ∨ Unlocked log ∧ ¬e.Locks := by
  constructor
  · rintro ⟨earlier, e', later, hlog, hwin, hlater⟩
    rcases later.eq_nil_or_concat with rfl | ⟨between, last, rfl⟩
    · obtain ⟨-, heq⟩ := List.append_inj' hlog rfl
      obtain rfl : e = e' := by simpa using heq
      exact .inl hwin
    · rw [List.concat_eq_append] at hlog hlater
      rw [← List.cons_append, ← List.append_assoc] at hlog
      obtain ⟨rfl, heq⟩ := List.append_inj' hlog rfl
      obtain rfl : e = last := by simpa using heq
      refine .inr ⟨⟨earlier, e', between, rfl, hwin, fun x hx => ?_⟩, ?_⟩
      · exact hlater x (List.mem_append_left _ hx)
      · exact hlater e (List.mem_append_right _ (List.mem_singleton.2 rfl))
  · rintro (hwin | ⟨⟨earlier, e', later, rfl, hwin, hlater⟩, hkept⟩)
    · exact ⟨log, e, [], rfl, hwin, nofun⟩
    · refine ⟨earlier, e', later ++ [e], by simp, hwin, fun x hx => ?_⟩
      rcases List.mem_append.1 hx with hx | hx
      · exact hlater x hx
      · exact List.mem_singleton.1 hx ▸ hkept

namespace Game

/-- The log of a game in which several commands are carried out. -/
def log (g : Game) : List Command → List Entry
  | [] => []
  | c :: commands => ⟨c, (g.apply c).1⟩ :: (g.apply c).2.log commands

theorem log_concat (g : Game) (commands : List Command) (c : Command) :
    g.log (commands ++ [c]) =
      g.log commands ++ [⟨c, ((g.applyAll commands).2.apply c).1⟩] := by
  induction commands generalizing g with
  | nil => rfl
  | cons c' commands ih => exact congrArg _ (ih _)

/-! ### Wins -/

/-- A run tells of a win exactly if its result is one. -/
theorem win_mem_progress (lines : Array String) (progress : Progress) :
    .runFinished .win ∈ lines.map Event.printed ++ progressEvents progress ↔
      progress = .finished .win := by
  have hlines : .runFinished .win ∉ lines.map Event.printed := by simp
  rw [Array.mem_append, or_iff_right hlines]
  cases progress <;> simp [progressEvents, eq_comm]

/-- While time passes, a game remembers a win from before, or one that is told of. -/
theorem won_tick {g : Game} (h : g.InOrder) (nanoseconds : Nat) :
    (g.tick nanoseconds).2.lastResult = some .win ↔
      .runFinished .win ∈ (g.tick nanoseconds).1 ∨ g.lastResult = some .win := by
  have hresume {g' : Game} (hrunning : g'.engine.isRunning = true) (hnone : g'.lastResult = none) :
      g'.resume.2.lastResult = some .win ↔ .runFinished .win ∈ g'.resume.1 := by
    obtain ⟨lines, engine, world, -, hcases⟩ := resume_cases hrunning
    rcases hcases with ⟨progress, hgoes, -, heq⟩ | ⟨result, -, -, heq⟩
    · rw [heq, win_mem_progress]
      refine iff_of_false (by simp [hnone]) ?_
      rintro rfl
      cases hgoes
    · rw [heq, ← progressEvents, win_mem_progress]
      simp
  unfold tick
  split
  · next hrunning =>
    have hnone := h.pending hrunning
    have hbefore : g.lastResult ≠ some .win := by simp [hnone]
    rw [or_iff_left hbefore]
    split
    · exact hresume hrunning hnone
    · -- A run that is over makes no step, so at most the last step tells of a win.
      refine (steps_induction (P := fun events g' => g'.Sound ∧
        (g'.lastResult = some .win ↔ .runFinished .win ∈ events))
        (fun events g' hg hdue => ?_) #[] _ ⟨?_, ?_⟩).1.2
      · obtain ⟨hsound, hiff⟩ := hg
        have hnone' := hsound.pending hdue.1
        refine ⟨sound_resume (hsound.wait hdue.1 _) hdue.1, ?_⟩
        have hevents : .runFinished .win ∉ events := by simp [← hiff, hnone']
        rw [Array.mem_append, or_iff_right hevents]
        exact hresume hdue.1 hnone'
      · exact h.toSound.wait hrunning _
      · simp [hnone]
  · simp

/-- A win is remembered after a command if it is told of, or if it has been remembered before and is
neither spent nor lost. -/
theorem won_apply {g : Game} (h : g.InOrder) (c : Command) :
    (g.apply c).2.lastResult = some .win ↔
      .runFinished .win ∈ (g.apply c).1 ∨
        g.lastResult = some .win ∧ ¬(Entry.mk c (g.apply c).1).Locks := by
  cases c with
  | regenerate => simp [apply, regenerate, clearRun, Entry.Locks]
  | reset => simp [apply, clearRun, Entry.Locks]
  | submit p =>
    have hlost : ¬¬(Entry.mk (.submit p) (g.apply (.submit p)).1).Locks := not_not_intro trivial
    rw [or_iff_left fun hwon => hlost hwon.2]
    cases hcode : p.code with
    | ok code =>
      rw [apply_submit_of_code hcode, Array.mem_append, win_mem_progress]
      simp
    | error err =>
      rw [apply_submit_of_error hcode, Array.mem_append, win_mem_progress]
      simp
  | advance =>
    by_cases hwon : g.lastResult = some .win
    · rw [apply_advance_of_won hwon]
      simp [regenerate, clearRun, Entry.Locks, Event.isAdvance]
    · rw [apply_advance_of_not_won hwon]
      simp [hwon]
  | tick nanoseconds =>
    have hkept : ¬(Entry.mk (.tick nanoseconds) (g.apply (.tick nanoseconds)).1).Locks := id
    rw [and_iff_left hkept]
    exact won_tick h nanoseconds

/-- The game remembers a win exactly if there is one in the log that has been neither spent nor
lost. -/
theorem won_iff_unlocked {g : Game} (h : g.InOrder) (hresult : g.lastResult ≠ some .win)
    (commands : List Command) :
    (g.applyAll commands).2.lastResult = some .win ↔ Unlocked (g.log commands) := by
  induction commands using List.reverseRecOn with
  | nil => exact iff_of_false hresult not_unlocked_nil
  | append_singleton commands c ih =>
    rw [applyAll_concat, log_concat, unlocked_concat, won_apply (inOrder_applyAll h commands), ih]

/-! ### Levels -/

theorem Stays.countP_eq_zero {g g' : Game} {events : Array Event} (h : g.Stays events g') :
    events.countP Event.isAdvance = 0 := by
  rw [Array.countP_eq_zero]
  exact Array.any_eq_false'.1 h.noAdvance

/-- A command leads on by as many levels as it tells of. -/
theorem level_apply (g : Game) (c : Command) :
    (g.apply c).2.level.number.toNat =
      min (g.level.number.toNat + (g.apply c).1.countP Event.isAdvance) 4294967295 := by
  rcases g.stays_or_advances c with hstays | ⟨rfl, hwon⟩
  · have hlt := g.level.number.toNat_lt
    rw [hstays.level, hstays.countP_eq_zero]
    omega
  · rw [apply_advance_of_won hwon]
    exact g.level.toNat_next

theorem level_applyAll (g : Game) (commands : List Command) :
    (g.applyAll commands).2.level.number.toNat =
      min (g.level.number.toNat + (g.applyAll commands).1.countP Event.isAdvance) 4294967295 := by
  refine applyAll_induction (P := fun events g' => g'.level.number.toNat =
    min (g.level.number.toNat + events.countP Event.isAdvance) 4294967295)
    (fun events g' c hlevel => ?_) ?_ commands
  · rw [level_apply, hlevel, Array.countP_append]
    omega
  · have hlt := g.level.number.toNat_lt
    rw [Array.countP_empty]
    omega

/-- The number of wins that the game remembers, which is at most one. -/
def winsLeft (g : Game) : Nat := if g.lastResult = some .win then 1 else 0

/-- An advance takes a win that is left, and a win is left only if it is told of or has been left
before. -/
theorem advances_apply_le {g : Game} (h : g.InOrder) (c : Command) :
    (g.apply c).1.countP Event.isAdvance + (g.apply c).2.winsLeft ≤
      (g.apply c).1.count (.runFinished .win) + g.winsLeft := by
  rcases g.stays_or_advances c with hstays | ⟨rfl, hwon⟩
  · rw [hstays.countP_eq_zero, Nat.zero_add]
    by_cases hwon : (g.apply c).2.lastResult = some .win
    · rw [winsLeft, if_pos hwon]
      rcases (won_apply h c).1 hwon with htold | ⟨hleft, -⟩
      · exact Nat.le_add_right_of_le (Array.count_pos_iff.2 htold)
      · rw [winsLeft, if_pos hleft]
        exact Nat.le_add_left _ _
    · rw [winsLeft, if_neg hwon]
      exact Nat.zero_le _
  · have hspent : (g.apply .advance).2.lastResult = none := by
      rw [apply_advance_of_won hwon]
      rfl
    have hone : (g.apply .advance).1.countP Event.isAdvance = 1 := by
      rw [apply_advance_of_won hwon]
      rfl
    simp [winsLeft, hwon, hspent, hone]

theorem advances_applyAll_le {g : Game} (h : g.InOrder) (commands : List Command) :
    (g.applyAll commands).1.countP Event.isAdvance + (g.applyAll commands).2.winsLeft ≤
      (g.applyAll commands).1.count (.runFinished .win) + g.winsLeft := by
  refine (applyAll_induction (P := fun events g' => g'.InOrder ∧
    events.countP Event.isAdvance + g'.winsLeft ≤
      events.count (.runFinished .win) + g.winsLeft)
    (fun events g' c hg => ?_) ⟨h, by simp⟩ commands).2
  obtain ⟨horder, hle⟩ := hg
  have hstep := advances_apply_le horder c
  rw [Array.countP_append, Array.count_append]
  exact ⟨inOrder_apply horder c, by omega⟩

theorem toNat_ofNumber (n : UInt32) : (Level.ofNumber n).number.toNat = max n.toNat 1 := by
  unfold Level.ofNumber
  split
  · exact (Nat.max_eq_left ‹_›).symm
  · exact (Nat.max_eq_right (Nat.le_of_not_le ‹_›)).symm

/-- A player is as many levels above the one that has been saved as the game has told of advances,
and has won at least as many runs. The next command leads on exactly if it asks for the next level
while a win has been neither spent nor lost; and who asks for it without such a win is turned
away, and nothing changes. -/
theorem gated_applyAll_new (config : GameConfig) (saved : Option UInt32)
    (commands : List Command) :
    let events := ((new config saved).applyAll commands).1
    let g := ((new config saved).applyAll commands).2
    let log := (new config saved).log commands
    g.level.number.toNat =
        min (max (saved.getD 1).toNat 1 + events.countP Event.isAdvance) 4294967295 ∧
      events.countP Event.isAdvance ≤ events.count (.runFinished .win) ∧
      (∀ c, (g.apply c).1.any Event.isAdvance = true ↔ c = .advance ∧ Unlocked log) ∧
      (Unlocked log ∨ g.apply .advance = (#[.advanceRejected], g)) := by
  intro events g log
  have hnew := inOrder_new config saved
  have hunlocked : g.lastResult = some .win ↔ Unlocked log := won_iff_unlocked hnew nofun commands
  refine ⟨?_, ?_, fun c => ?_, ?_⟩
  · rw [← toNat_ofNumber]
    exact level_applyAll _ commands
  · exact Nat.le_of_add_right_le (advances_applyAll_le hnew commands)
  · rw [← hunlocked]
    constructor
    · intro hany
      refine (g.stays_or_advances c).resolve_left fun hstays => ?_
      exact absurd (hstays.noAdvance.symm.trans hany) nofun
    · rintro ⟨rfl, hwon⟩
      rw [apply_advance_of_won hwon]
      simp [Event.isAdvance]
  · by_cases hwon : g.lastResult = some .win
    · exact .inl (hunlocked.1 hwon)
    · exact .inr (apply_advance_of_not_won hwon)

end Game

end Labyrinth
