import Labyrinth.Proofs.Machine.Calls
import Labyrinth.Proofs.Machine.Runs

/-!
# What a program does is what its tree means

A machine that is resumed until its end makes the steps, prints the lines and comes to the ending
that its tree comes to when it is evaluated, unless its budget is used up before.

## Main results

* `Machine.play_eq_playOut`: a machine that is paused and resumed does what its code does.
* `Program.play_eq_evaluate`: what the machine does is what the evaluation of the tree does.
-/

namespace Labyrinth

/-! ### Runs without pauses -/

section PlayOut

variable (code : Code) (maxCalls : Nat)

/-- What the machine does from a state on if it is not paused. -/
def playOut : (left : Nat) → State → Stage → Transcript
  | 0, _, g => ⟨g.deeds, .exhausted, g.world⟩
  | left + 1, st, g =>
    match st.next code maxCalls g.world with
    | .ok (.halt, _) => ⟨g.deeds, .finished, g.world⟩
    | .ok (effect, st) => playOut left st (g.apply effect)
    | .error f => ⟨g.deeds, .faulted f, g.world⟩

variable {code maxCalls} {st st' : State} {g g' : Stage}

theorem playOut_step {effect : Effect} (h : st.next code maxCalls g.world = .ok (effect, st'))
    (heffect : effect ≠ .halt) (left : Nat) :
    playOut code maxCalls (left + 1) st g = playOut code maxCalls left st' (g.apply effect) := by
  rw [playOut, h]
  cases effect with
  | halt => exact absurd rfl heffect
  | _ => rfl

theorem playOut_halt (h : st.next code maxCalls g.world = .ok (.halt, st')) (left : Nat) :
    playOut code maxCalls (left + 1) st g = ⟨g.deeds, .finished, g.world⟩ := by
  rw [playOut, h]

theorem playOut_fault {f : Fault} (h : st.next code maxCalls g.world = .error f) (left : Nat) :
    playOut code maxCalls (left + 1) st g = ⟨g.deeds, .faulted f, g.world⟩ := by
  rw [playOut, h]

/-- Steps that are taken first can be left out. -/
theorem Steps.playOut_eq {n : Nat} (h : Steps code maxCalls n st g st' g') (left : Nat) :
    playOut code maxCalls (n + left) st g = playOut code maxCalls left st' g' := by
  induction h with
  | refl => rw [Nat.zero_add]
  | step hnext heffect _ ih =>
    rw [Nat.add_right_comm, playOut_step hnext heffect, ih]

/-- A budget that does not suffice for the steps is used up. -/
theorem Steps.ending_playOut {n left : Nat} (h : Steps code maxCalls n st g st' g')
    (hleft : left ≤ n) : (playOut code maxCalls left st g).ending = .exhausted := by
  induction h generalizing left with
  | refl =>
    obtain rfl := Nat.le_zero.1 hleft
    rfl
  | step hnext heffect _ ih =>
    cases left with
    | zero => rfl
    | succ left =>
      rw [playOut_step hnext heffect]
      exact ih (Nat.le_of_succ_le_succ hleft)

/-- Steps that lead to an end within the budget. -/
theorem Steps.playOut_of_end {n left : Nat} {t : Transcript} (h : Steps code maxCalls n st g st' g')
    (hend : ∀ left, playOut code maxCalls (left + 1) st' g' = t)
    (hleft : (playOut code maxCalls left st g).ending ≠ .exhausted) :
    playOut code maxCalls left st g = t := by
  have hlt : n < left := Nat.lt_of_not_le fun hle => hleft (h.ending_playOut hle)
  obtain ⟨rest, rfl⟩ := Nat.exists_eq_add_of_lt hlt
  rw [Nat.add_assoc, h.playOut_eq, hend]

end PlayOut

/-! ### Runs with pauses -/

/-- The deeds of printing several lines. -/
def printedAll (lines : Array String) : List Deed := lines.toList.map .printed

theorem printedAll_push (lines : Array String) (line : String) :
    printedAll (lines.push line) = printedAll lines ++ [.printed line] := by
  simp [printedAll]

/-- What the machine does from a pause on if it is not paused. -/
def Pause.playOut (code : Code) (maxCalls left : Nat) (g : Stage) : Pause → Transcript
  | .ended ending => ⟨g.deeds, ending, g.world⟩
  | .move d s => Labyrinth.playOut code maxCalls left s (g.apply (.move d))

/-- What the machine does up to a pause, and from the pause on. -/
theorem playOut_advance {code : Code} {maxCalls : Nat} {w : World} {left left' : Nat}
    {output output' : Array String} {s : State} {pause : Pause}
    (h : advance code maxCalls w left output s = (pause, left', output')) (deeds : List Deed) :
    playOut code maxCalls left s ⟨w, deeds ++ printedAll output⟩ =
      pause.playOut code maxCalls left' ⟨w, deeds ++ printedAll output'⟩ := by
  induction left generalizing output s with
  | zero =>
    cases h
    rfl
  | succ left ih =>
    rw [advance] at h
    cases hnext : s.next code maxCalls w with
    | error f =>
      rw [hnext] at h
      cases h
      exact playOut_fault (g := ⟨w, _⟩) hnext _
    | ok r =>
      obtain ⟨effect, s'⟩ := r
      rw [hnext] at h
      cases effect with
      | none => exact (playOut_step (g := ⟨w, _⟩) hnext (by simp) left).trans (ih h)
      | print line =>
        refine (playOut_step (g := ⟨w, _⟩) hnext (by simp) left).trans ?_
        rw [← ih h, printedAll_push, ← List.append_assoc]
        rfl
      | move d =>
        cases h
        exact playOut_step (g := ⟨w, _⟩) hnext (by simp) _
      | halt =>
        cases h
        exact playOut_halt (g := ⟨w, _⟩) hnext _

namespace Machine

/-- What a machine does when it is resumed until its end; its output is taken every time. -/
def play (m : Machine) (g : Stage) : Transcript :=
  match h : m.resume g.world with
  | (.ended ending, m', w) => ⟨g.deeds ++ printedAll m'.output, ending, w⟩
  | (.moved origin target d, m', w) =>
    have : m'.takeOutput.2.left < m.left := by
      simpa [h, takeOutput] using m.left_resume_lt g.world (by rw [h]; rfl)
    m'.takeOutput.2.play ⟨w, g.deeds ++ printedAll m'.output ++ [.tried (.moved origin target d)]⟩
  | (.blocked cell d, m', w) =>
    have : m'.takeOutput.2.left < m.left := by
      simpa [h, takeOutput] using m.left_resume_lt g.world (by rw [h]; rfl)
    m'.takeOutput.2.play ⟨w, g.deeds ++ printedAll m'.output ++ [.tried (.blocked cell d)]⟩
termination_by m.left

section Play

variable {m m' : Machine} {g : Stage} {w : World}

theorem play_of_ended {ending : Ending} (h : m.resume g.world = (.ended ending, m', w)) :
    m.play g = ⟨g.deeds ++ printedAll m'.output, ending, w⟩ := by
  rw [play]
  split <;> simp_all

theorem play_of_step {step : Step} (hstep : step.isEnding = false)
    (h : m.resume g.world = (step, m', w)) :
    m.play g = m'.takeOutput.2.play ⟨w, g.deeds ++ printedAll m'.output ++ [.tried step]⟩ := by
  rw [play]
  cases step with
  | ended ending => cases hstep
  | moved origin target d => split <;> simp_all
  | blocked cell d => split <;> simp_all

end Play

/-- It makes no difference whether a machine is paused. -/
theorem play_eq_playOut (code : Code) (limits : Limits) (left : Nat) (s : State) (g : Stage) :
    (Machine.mk code limits (.running s) left #[]).play g =
      playOut code limits.maxCalls left s g := by
  induction left using Nat.strong_induction_on generalizing s g with
  | _ left ih =>
    obtain ⟨w, deeds⟩ := g
    generalize hadvance : advance code limits.maxCalls w left #[] s = r
    obtain ⟨pause, left', output'⟩ := r
    have hout := playOut_advance hadvance deeds
    rw [show printedAll #[] = [] from rfl, List.append_nil] at hout
    rw [hout]
    cases pause with
    | ended ending =>
      have hresume : (Machine.mk code limits (.running s) left #[]).resume w =
          (.ended ending, ⟨code, limits, .ended ending, left', output'⟩, w) := by
        simp only [resume, hadvance]
      exact play_of_ended (g := ⟨w, deeds⟩) hresume
    | move d s' =>
      have hresume : (Machine.mk code limits (.running s) left #[]).resume w =
          (.ofMove d (w.step d).1, ⟨code, limits, .running s', left', output'⟩, (w.step d).2) := by
        simp only [resume, hadvance]
      have hstep : (Step.ofMove d (w.step d).1).isEnding = false := by
        cases (w.step d).1 with
        | moved => rfl
        | blocked => rfl
      exact (play_of_step (g := ⟨w, deeds⟩) hstep hresume).trans
        (ih left' (advance_left_lt hadvance) s' _)

end Machine

/-! ### Programs -/

section Programs

variable {dialect : Dialect} {program : List Stmt} (hwf : Stmt.AllWellFormed dialect .top program)
  {maxCalls fuel left : Nat} {w : World}
include hwf

/-- A run that comes to its end has done what the tree means. -/
theorem playOut_of_evaluate {t : Transcript} (h : evaluate fuel maxCalls program w = some t)
    (hended : (playOut (lower program) maxCalls left .init ⟨w, []⟩).ending ≠ .exhausted) :
    playOut (lower program) maxCalls left .init ⟨w, []⟩ = t := by
  have hfollows := Stmt.follows_top hwf maxCalls fuel w
  unfold Follows at hfollows
  cases hexec : Stmt.execAll (settingAt (Stmt.allDefinitions program) maxCalls fuel 0) program
      (.init w) with
  | done flow scene =>
    simp only [evaluate, hexec, Option.some.injEq] at h
    rw [hexec] at hfollows
    obtain ⟨n, st, hsteps, st', hhalt⟩ := hfollows
    exact hsteps.playOut_of_end (fun _ => h ▸ playOut_halt hhalt _) hended
  | fault f scene =>
    simp only [evaluate, hexec, Option.some.injEq] at h
    rw [hexec] at hfollows
    obtain ⟨n, st, hsteps, hfault⟩ := hfollows
    exact hsteps.playOut_of_end (fun _ => h ▸ playOut_fault hfault _) hended
  | timeout => simp only [evaluate, hexec, reduceCtorEq] at h

/-- A run uses up its budget if as much fuel does not suffice. -/
theorem exhausted_of_evaluate (h : evaluate fuel maxCalls program w = none) (hleft : left ≤ fuel) :
    (playOut (lower program) maxCalls left .init ⟨w, []⟩).ending = .exhausted := by
  have hfollows := Stmt.follows_top hwf maxCalls fuel w
  unfold Follows at hfollows
  cases hexec : Stmt.execAll (settingAt (Stmt.allDefinitions program) maxCalls fuel 0) program
      (.init w) with
  | done flow scene => simp only [evaluate, hexec, reduceCtorEq] at h
  | fault f scene => simp only [evaluate, hexec, reduceCtorEq] at h
  | timeout =>
    rw [hexec] at hfollows
    obtain ⟨n, st, g, hn, hsteps⟩ := hfollows
    exact hsteps.ending_playOut (Nat.le_trans hleft hn)

end Programs

/-- The machine does what the tree means, unless its budget is used up: whatever the evaluation of
the tree comes to is what the machine has done, and as much fuel as the budget always suffices. -/
theorem Program.play_eq_evaluate {p : Program} {body : List Stmt} (h : p.read = .ok body)
    (limits : Limits) (w : World)
    (hended : ((Machine.start (lower body) limits).play ⟨w, []⟩).ending ≠ .exhausted) :
    (∀ fuel t, evaluate fuel limits.maxCalls body w = some t →
        (Machine.start (lower body) limits).play ⟨w, []⟩ = t) ∧
      ∀ fuel ≥ limits.budget.toNat, evaluate fuel limits.maxCalls body w =
        some ((Machine.start (lower body) limits).play ⟨w, []⟩) := by
  have hwf := (Program.wellFormed_of_read h).1
  rw [Machine.start, Machine.play_eq_playOut] at hended ⊢
  refine ⟨fun fuel t ht => playOut_of_evaluate hwf ht hended, fun fuel hfuel => ?_⟩
  cases ht : evaluate fuel limits.maxCalls body w with
  | none => exact absurd (exhausted_of_evaluate hwf ht hfuel) hended
  | some t => rw [playOut_of_evaluate hwf ht hended]

/-- A program that tries two steps. -/
def Program.twoSteps : Program := ⟨.indented, "for i in range(2):\n    move_right()\n"⟩

/-- The tree of `twoSteps`. -/
def Program.twoStepsTree : List Stmt :=
  [.forEach (.single "i") (.builtin .range [.literal (.int 2)])
    [.expr (.capability (.move .right) [])]]

theorem Program.play_eq_evaluate_twoSteps :
    let played := (Machine.start (lower Program.twoStepsTree) ⟨20, 5⟩).play ⟨.corridor, []⟩
    Program.twoSteps.read = .ok Program.twoStepsTree ∧ played.ending ≠ .exhausted ∧
      evaluate 20 5 Program.twoStepsTree .corridor = some played := by
  have hread : Program.twoSteps.read = .ok Program.twoStepsTree := by cbv
  have hended : ((Machine.start (lower Program.twoStepsTree) ⟨20, 5⟩).play
      ⟨.corridor, []⟩).ending ≠ .exhausted := by
    rw [Machine.start, Machine.play_eq_playOut]
    decide +kernel
  exact ⟨hread, hended,
    (Program.play_eq_evaluate hread ⟨20, 5⟩ .corridor hended).2 20 (by decide)⟩

end Labyrinth
