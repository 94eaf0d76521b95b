import Labyrinth.Proofs.Machine.Correctness
import Labyrinth.Proofs.Machine.Limits

/-!
# One step at a time

Whatever code a machine runs, what it does when it is resumed is **quiet** up to its last
instruction: it computes, asks the world and prints, but the world stays as it is. The last
instruction is what stops it. Either it makes a step, and the machine pauses at once; or it ends the
run, and makes none.

Nothing is left to do for a machine whose run has ended. It keeps reporting the ending.

## Main results

* `quiet_advance`: the quiet instructions, and the one that stops the machine.
* `Machine.resume_useAll`: a machine that has ended, whatever is done with it.
* `Machine.single_step_resume`: one step when a machine is resumed, or none and the end.
-/

namespace Labyrinth

/-! ### Up to a pause -/

section Quiet

variable (code : Code) (maxCalls : Nat) (w : World)

/-- So many instructions lead from a state to another one. They print these lines, and nothing else
that they do can be seen: the world stays as it is. -/
def Quiet (n : Nat) (st st' : State) (lines : Array String) : Prop :=
  ∀ deeds, Steps code maxCalls n st ⟨w, deeds⟩ st' ⟨w, deeds ++ printedAll lines⟩

/-- Why the machine stops in a state, if so much is left of its budget before and afterwards: the
instruction there wants to make a step, it halts, it raises a fault, or it exceeds the budget. -/
def Pause.Due (st : State) (left left' : Nat) : Pause → Prop
  | .move d st' => left = left' + 1 ∧ st.next code maxCalls w = .ok (.move d, st')
  | .ended .finished => left = left' + 1 ∧ ∃ st', st.next code maxCalls w = .ok (.halt, st')
  | .ended (.faulted f) => left = left' + 1 ∧ st.next code maxCalls w = .error f
  | .ended .exhausted => left = 0 ∧ left' = 0

variable {code maxCalls w} {n : Nat} {st st' st'' : State} {lines : Array String}

theorem quiet_zero (st : State) : Quiet code maxCalls w 0 st st #[] := by
  intro deeds
  rw [show printedAll #[] = [] from rfl, List.append_nil]
  exact .refl _ _

theorem Quiet.step (hnext : st.next code maxCalls w = .ok (.none, st'))
    (h : Quiet code maxCalls w n st' st'' lines) : Quiet code maxCalls w (n + 1) st st'' lines :=
  fun deeds => .step (g := ⟨w, deeds⟩) hnext (by simp) (h deeds)

theorem Quiet.print {line : String} (hnext : st.next code maxCalls w = .ok (.print line, st'))
    (h : Quiet code maxCalls w n st' st'' lines) :
    Quiet code maxCalls w (n + 1) st st'' (#[line] ++ lines) := by
  intro deeds
  have hlines : deeds ++ printedAll (#[line] ++ lines) =
      deeds ++ [.printed line] ++ printedAll lines := by
    simp [printedAll]
  have hrest : Steps code maxCalls n st' (Stage.apply ⟨w, deeds⟩ (.print line)) st''
      ⟨w, deeds ++ [.printed line] ++ printedAll lines⟩ := h _
  rw [hlines]
  exact .step (g := ⟨w, deeds⟩) hnext (by simp) hrest

/-- All instructions but the one that stops the machine are quiet. -/
theorem quiet_advance {left left' : Nat} {output output' : Array String} {pause : Pause}
    (h : advance code maxCalls w left output st = (pause, left', output')) :
    ∃ n st' lines k, Quiet code maxCalls w n st st' lines ∧ output' = output ++ lines ∧
      left = n + k ∧ pause.Due code maxCalls w st' k left' := by
  induction left generalizing output st with
  | zero =>
    cases h
    exact ⟨0, st, #[], 0, quiet_zero st, Array.append_empty.symm, rfl, rfl, rfl⟩
  | succ left ih =>
    -- The first instruction stops the machine, or else it is one of the quiet ones.
    have hstop (houtput : output' = output)
        (hdue : pause.Due code maxCalls w st (left + 1) left') :
        ∃ n st' lines k, Quiet code maxCalls w n st st' lines ∧ output' = output ++ lines ∧
          left + 1 = n + k ∧ pause.Due code maxCalls w st' k left' :=
      ⟨0, st, #[], left + 1, quiet_zero st, by rw [houtput, Array.append_empty],
        (Nat.zero_add _).symm, hdue⟩
    rw [advance] at h
    cases hnext : st.next code maxCalls w with
    | error f =>
      rw [hnext] at h
      cases h
      exact hstop rfl ⟨rfl, hnext⟩
    | ok r =>
      obtain ⟨effect, st'⟩ := r
      rw [hnext] at h
      cases effect with
      | none =>
        obtain ⟨n, st'', lines, k, hquiet, houtput, hleft, hdue⟩ := ih h
        exact ⟨n + 1, st'', lines, k, hquiet.step hnext, houtput, by omega, hdue⟩
      | print line =>
        obtain ⟨n, st'', lines, k, hquiet, houtput, hleft, hdue⟩ := ih h
        refine ⟨n + 1, st'', #[line] ++ lines, k, hquiet.print hnext, ?_, by omega, hdue⟩
        rw [houtput, Array.push_eq_append, Array.append_assoc]
      | move d =>
        cases h
        exact hstop rfl ⟨rfl, hnext⟩
      | halt =>
        cases h
        exact hstop rfl ⟨rfl, st', hnext⟩

end Quiet

namespace Machine

/-! ### After the end -/

/-- What can be done with a machine. -/
inductive Use
  | resume (w : World)
  | takeOutput

/-- The machine after something is done with it. -/
def use (m : Machine) : Use → Machine
  | .resume w => (m.resume w).2.1
  | .takeOutput => m.takeOutput.2

/-- The machine after several things are done with it. -/
def useAll (m : Machine) (uses : List Use) : Machine := uses.foldl use m

/-- Whatever is done with a machine that has ended, it has ended, and nothing is executed. -/
theorem useAll_ended {m : Machine} {ending : Ending} (h : m.phase = .ended ending)
    (uses : List Use) :
    (m.useAll uses).phase = .ended ending ∧ (m.useAll uses).executed = m.executed := by
  induction uses generalizing m with
  | nil => exact ⟨h, rfl⟩
  | cons first uses ih =>
    have hfirst : (m.use first).phase = .ended ending ∧ (m.use first).executed = m.executed := by
      cases first with
      | resume w =>
        rw [use, resume_ended h]
        exact ⟨h, rfl⟩
      | takeOutput => exact ⟨h, rfl⟩
    rw [useAll, List.foldl_cons, ← hfirst.2]
    exact ih hfirst.1

/-- It keeps reporting the ending, and nothing else happens. -/
theorem resume_useAll {m : Machine} {ending : Ending} (h : m.phase = .ended ending)
    (uses : List Use) (w : World) :
    (m.useAll uses).resume w = (.ended ending, m.useAll uses, w) ∧
      (m.useAll uses).executed = m.executed := by
  obtain ⟨hphase, hexecuted⟩ := useAll_ended h uses
  exact ⟨resume_ended hphase w, hexecuted⟩

/-! ### What a machine does when it is resumed -/

theorem isEnding_ofMove (d : Direction) (move : Move) : (Step.ofMove d move).isEnding = false := by
  cases move with
  | moved => rfl
  | blocked => rfl

/-- A machine that is resumed makes a step with its last instruction, or it ends and makes none. All
other instructions are quiet, and what they print comes behind the output. A machine that has ended
reports the ending ever after, and nothing else happens. -/
theorem single_step_resume (m : Machine) (w : World) :
    let step := (m.resume w).1
    let m' := (m.resume w).2.1
    let w' := (m.resume w).2.2
    (step.isEnding = false →
      ∃ s n st lines d s', m.phase = .running s ∧
        Quiet m.code m.limits.maxCalls w n s st lines ∧
        st.next m.code m.limits.maxCalls w = .ok (.move d, s') ∧
        step = .ofMove d (w.step d).1 ∧ w' = (w.step d).2 ∧
        m'.phase = .running s' ∧ m'.output = m.output ++ lines ∧ m.left = m'.left + n + 1) ∧
    (step.isEnding = true → w' = w ∧
      ((∃ s n st lines k ending, m.phase = .running s ∧ step = .ended ending ∧
          Quiet m.code m.limits.maxCalls w n s st lines ∧
          (Pause.ended ending).Due m.code m.limits.maxCalls w st k m'.left ∧
          m'.output = m.output ++ lines ∧ m.left = n + k) ∨
        ∃ ending, m.phase = .ended ending ∧ step = .ended ending ∧ m' = m) ∧
      ∀ uses v, (m'.useAll uses).resume v = (step, m'.useAll uses, v) ∧
        (m'.useAll uses).executed = m'.executed) := by
  obtain ⟨code, limits, phase, left, output⟩ := m
  cases phase with
  | ended ending => exact ⟨nofun, fun _ => ⟨rfl, .inr ⟨ending, rfl, rfl, rfl⟩, resume_useAll rfl⟩⟩
  | running s =>
    obtain ⟨pause, left', output', hadvance, hresume⟩ := resume_running code limits w s left output
    obtain ⟨n, st, lines, k, hquiet, houtput, hleft, hdue⟩ := quiet_advance hadvance
    rw [hresume]
    cases pause with
    | move d s' =>
      obtain ⟨hk, hnext⟩ := hdue
      have hcount : left = left' + n + 1 := by omega
      refine ⟨fun _ => ?_, fun h => ?_⟩
      · exact ⟨s, n, st, lines, d, s', rfl, hquiet, hnext, rfl, rfl, rfl, houtput, hcount⟩
      · cases (isEnding_ofMove d _).symm.trans h
    | ended ending =>
      refine ⟨nofun, fun _ => ⟨rfl, .inl ?_, resume_useAll rfl⟩⟩
      exact ⟨s, n, st, lines, k, ending, rfl, rfl, hquiet, hdue, houtput, hleft⟩

end Machine

end Labyrinth
