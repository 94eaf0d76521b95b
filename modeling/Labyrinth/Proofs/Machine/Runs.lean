import Labyrinth.Engine
import Labyrinth.Proofs.Language.Braced
import Labyrinth.Proofs.Language.Indented
import Labyrinth.Proofs.Machine.Safety

/-!
# Runs of programs

A machine that is resumed again and again never fails for want of operands, and when its program
comes to its end, no operand, no call and no iterator is left.

## Main results

* `Program.wellFormed_of_read`: what the two grammars guarantee about a program.
* `Machine.sound_resume`: what every resumption of a machine preserves.
* `Program.balanced`: the runs of every program that can be read.
-/

namespace Labyrinth

/-- Every tree that is read is well-formed, and its functions have different names. -/
theorem Program.wellFormed_of_read {p : Program} {body : List Stmt} (h : p.read = .ok body) :
    Stmt.AllWellFormed p.dialect .top body ∧ (Stmt.functionNames body).Nodup := by
  obtain ⟨dialect, source⟩ := p
  cases dialect with
  | indented => exact Indented.wellFormed_of_parse h
  | braced => exact Braced.wellFormed_of_parse h

/-- The state in which a program comes to its end, if it does so before it pauses. -/
def haltedIn (code : Code) (maxCalls : Nat) (w : World) : (left : Nat) → State → Option State
  | 0, _ => none
  | left + 1, s =>
    match s.next code maxCalls w with
    | .ok (.none, s) => haltedIn code maxCalls w left s
    | .ok (.print _, s) => haltedIn code maxCalls w left s
    | .ok (.move _, _) => none
    | .ok (.halt, s) => some s
    | .error _ => none

/-- A machine and a world after the machine has been resumed `n` times. -/
def Machine.after (m : Machine) (w : World) : (n : Nat) → Machine × World
  | 0 => (m, w)
  | n + 1 => ((m.after w n).1.resume (m.after w n).2).2

/-- What is guaranteed of a pause: the state fits the layout, or the program has ended, and not
for want of operands. -/
def Pause.Sound (L : List Shape) : Pause → Prop
  | .ended ending => ending ≠ .faulted .stackUnderflow
  | .move _ s => s.Poised L

/-- The same of a machine. -/
def Machine.Sound (L : List Shape) (m : Machine) : Prop :=
  match m.phase with
  | .running s => s.Poised L
  | .ended ending => ending ≠ .faulted .stackUnderflow

section Runs

variable {code : Code} {L : List Shape} (hlaid : Laid code L)
include hlaid

theorem sound_advance (maxCalls : Nat) (w : World) (left : Nat) (output : Array String)
    {s : State} (hs : s.Poised L) : (advance code maxCalls w left output s).1.Sound L := by
  fun_induction advance code maxCalls w left output s with
  | case1 =>
    intro heq
    cases heq
  | case2 _ _ s s' h ih => exact ih (((hlaid.safe_next maxCalls w) s hs).2 _ _ h)
  | case3 _ _ s _ s' h ih => exact ih (((hlaid.safe_next maxCalls w) s hs).2 _ _ h)
  | case4 _ _ s d s' h => exact ((hlaid.safe_next maxCalls w) s hs).2 _ _ h
  | case5 =>
    intro heq
    cases heq
  | case6 _ _ s fault h =>
    intro heq
    cases heq
    exact ((hlaid.safe_next maxCalls w) s hs).1 h

theorem atRest_of_advance {maxCalls : Nat} {w : World} {left left' : Nat}
    {output output' : Array String} {s : State} (hs : s.Poised L)
    (h : advance code maxCalls w left output s = (.ended .finished, left', output')) :
    ∃ s', haltedIn code maxCalls w left s = some s' ∧ s'.AtRest := by
  fun_induction advance code maxCalls w left output s with
  | case1 => cases h
  | case2 _ _ s s' hnext ih =>
    rw [haltedIn, hnext]
    exact ih (((hlaid.safe_next maxCalls w) s hs).2 _ _ hnext) h
  | case3 _ _ s _ s' hnext ih =>
    rw [haltedIn, hnext]
    exact ih (((hlaid.safe_next maxCalls w) s hs).2 _ _ hnext) h
  | case4 => cases h
  | case5 _ _ s s' hnext =>
    rw [haltedIn, hnext]
    exact ⟨s', rfl, ((hlaid.safe_next maxCalls w) s hs).2 _ _ hnext⟩
  | case6 => cases h

end Runs

/-- A machine stays sound when it is resumed, in whatever world. -/
theorem Machine.sound_resume {L : List Shape} {m : Machine} (hlaid : Laid m.code L)
    (hm : m.Sound L) (w : World) :
    Laid (m.resume w).2.1.code L ∧ (m.resume w).2.1.Sound L ∧
      (m.resume w).1 ≠ .ended (.faulted .stackUnderflow) := by
  obtain ⟨code, limits, phase, left, output⟩ := m
  cases phase with
  | ended ending =>
    refine ⟨hlaid, hm, fun h => hm ?_⟩
    cases h
    rfl
  | running s =>
    have hpause := sound_advance hlaid limits.maxCalls w left output hm
    unfold resume
    dsimp only
    split
    · rename_i ending _ _ hadvance
      rw [hadvance] at hpause
      exact ⟨hlaid, hpause, fun h => hpause (Step.ended.inj h)⟩
    · rename_i d s' _ _ hadvance
      rw [hadvance] at hpause
      refine ⟨hlaid, hpause, ?_⟩
      generalize w.step d = r
      obtain ⟨move, w'⟩ := r
      cases move with
      | moved => exact nofun
      | blocked => exact nofun

theorem Machine.sound_after {L : List Shape} {m : Machine} (hlaid : Laid m.code L)
    (hm : m.Sound L) (w : World) (n : Nat) :
    Laid (m.after w n).1.code L ∧ (m.after w n).1.Sound L := by
  induction n with
  | zero => exact ⟨hlaid, hm⟩
  | succ n ih =>
    obtain ⟨hcode, hsound, -⟩ := sound_resume ih.1 ih.2 (m.after w n).2
    exact ⟨hcode, hsound⟩

/-- The state before the first instruction fits the layout. -/
theorem Laid.poised_init {code : Code} {L : List Shape} (h : Laid code L) :
    State.init.Poised L := by
  have hfits : State.init.Fits L .top :=
    ⟨⟨rfl, fun _ hx => nomatch hx⟩, rfl, rfl, trivial⟩
  exact hfits.poised h.start

/-- The code of every program that can be read has a layout. -/
theorem Program.laid_code {p : Program} {code : Code} (h : p.code = .ok code) :
    ∃ L, Laid code L := by
  unfold Program.code at h
  cases hread : p.read with
  | error err =>
    rw [hread] at h
    cases h
  | ok body =>
    rw [hread] at h
    cases h
    exact ⟨layout body, laid_lower (Program.wellFormed_of_read hread).1⟩

/-- However often the machine of a program is resumed, it does not stop for want of operands; and
when it stops because the program has come to its end, there are no calls, no operands and no
iterators in the state in which it does so. -/
theorem Program.balanced {p : Program} {code : Code} (h : p.code = .ok code) (limits : Limits)
    (w : World) (n : Nat) :
    let m := ((Machine.start code limits).after w n).1
    let w' := ((Machine.start code limits).after w n).2
    (m.resume w').1 ≠ .ended (.faulted .stackUnderflow) ∧
      ∀ s, m.phase = .running s → (m.resume w').1 = .ended .finished →
        ∃ s', haltedIn m.code m.limits.maxCalls w' m.left s = some s' ∧ s'.AtRest := by
  obtain ⟨L, hL⟩ := Program.laid_code h
  have hstart : (Machine.start code limits).Sound L := hL.poised_init
  obtain ⟨hlaid, hsound⟩ := Machine.sound_after hL hstart w n
  refine ⟨(Machine.sound_resume hlaid hsound _).2.2, fun s hphase hfinished => ?_⟩
  generalize ((Machine.start code limits).after w n).1 = m at *
  generalize ((Machine.start code limits).after w n).2 = w' at *
  obtain ⟨code', limits', phase, left, output⟩ := m
  cases hphase
  unfold Machine.resume at hfinished
  dsimp only at hfinished
  split at hfinished
  · rename_i ending _ _ hadvance
    cases hfinished
    exact atRest_of_advance hlaid hsound hadvance
  · rename_i d s' _ _ hadvance
    generalize w'.step d = r at hfinished
    obtain ⟨move, w''⟩ := r
    cases move with
    | moved => cases hfinished
    | blocked => cases hfinished

/-- A world whose exit is to the right of its start. -/
def World.corridor : World :=
  .new ⟨2, #[.start, .exit, .wall, .wall], ⟨0, 0⟩, ⟨1, 0⟩, by decide, by decide, by decide⟩

/-- A program of one step. -/
def Program.stepRight : Program := ⟨.indented, "move_right()\n"⟩

/-- The code of `stepRight`. -/
def Code.stepRight : Code := ⟨#[.capability (.move .right) 0, .pop, .halt], #[]⟩

theorem Program.code_stepRight : Program.stepRight.code = .ok Code.stepRight := by cbv

theorem Program.balanced_stepRight :
    Program.stepRight.code = .ok Code.stepRight ∧
      let m := ((Machine.start Code.stepRight .default).after .corridor 1).1
      let w' := ((Machine.start Code.stepRight .default).after .corridor 1).2
      (m.resume w').1 ≠ .ended (.faulted .stackUnderflow) ∧
        ∀ s, m.phase = .running s → (m.resume w').1 = .ended .finished →
          ∃ s', haltedIn m.code m.limits.maxCalls w' m.left s = some s' ∧ s'.AtRest :=
  ⟨Program.code_stepRight, Program.balanced Program.code_stepRight .default .corridor 1⟩

end Labyrinth
