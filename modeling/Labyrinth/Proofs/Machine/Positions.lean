import Labyrinth.Proofs.Machine.Invariants

/-!
# Where a run goes on

While an instruction is executed, the position is already behind it. All that can become of it is
the target of a jump, unless a function is called or left.

## Main results

* `position_of_execute`: where an instruction goes on that neither calls nor returns.
* `State.next_cases`: where every step leads, and what it leaves to the callers.
-/

namespace Labyrinth

/-- An instruction that neither calls nor returns goes on behind it or at its target. -/
theorem position_of_execute {code : Code} {maxCalls : Nat} {w : World} {i : Instr}
    (htransfer : ¬i.IsTransfer) {st st' : State} {effect : Effect}
    (h : i.execute code maxCalls w st = .ok (effect, st')) :
    st'.position = st.position ∨ i.target? = some st'.position := by
  have hmaintains : (i.execute code maxCalls w).Maintains fun position _ =>
      position = st.position ∨ i.target? = some position :=
    .execute (fun _ => .const _) code maxCalls w (fun _ htarget _ _ _ => .inr htarget) htransfer
  exact hmaintains st effect st' h (.inl rfl)

/-- Where the callers go on, the innermost one first. -/
def State.callers (st : State) : List Nat := st.frames.map Frame.returnTo

theorem callers_push (position : Nat) (stack : Array Value) (heap : Heap) (globals : Scope)
    (calls : Array Frame) (frame : Frame) :
    State.callers ⟨position, stack, heap, globals, calls.push frame⟩ =
      frame.returnTo :: State.callers ⟨position, stack, heap, globals, calls⟩ := by
  rw [State.callers, frames_push]
  rfl

theorem map_returnTo_modifyHead (f : Scope → Scope) (frames : List Frame) :
    (frames.modifyHead (Frame.change f)).map Frame.returnTo = frames.map Frame.returnTo := by
  cases frames with
  | nil => rfl
  | cons frame frames => rfl

/-- A step that does not end the program calls a function of the table, returns to the innermost
caller, or goes on in the same call behind the instruction or at its target. -/
theorem State.next_cases {code : Code} {maxCalls : Nat} {w : World} {st st' : State}
    {effect : Effect} (hnext : st.next code maxCalls w = .ok (effect, st'))
    (heffect : effect ≠ .halt) :
    ∃ i, code.instructions[st.position]? = some i ∧
      ((∃ function argc f, i = .call function argc ∧ code.functions[function]? = some f ∧
          st'.position = f.entry ∧ st'.callers = (st.position + 1) :: st.callers) ∨
        (i = .return ∧ st.callers = st'.position :: st'.callers) ∨
        ¬i.IsTransfer ∧ i ≠ .halt ∧ st'.callers = st.callers ∧
          (st'.position = st.position + 1 ∨ i.target? = some st'.position)) := by
  obtain ⟨i, hi, h⟩ := State.next_eq_ok hnext heffect
  refine ⟨i, hi, ?_⟩
  by_cases htransfer : i.IsTransfer
  · cases i with
    | call function argc =>
      obtain ⟨-, -, -, f, args, hf, rfl⟩ := execute_call_eq_ok h
      exact .inl ⟨function, argc, f, rfl, hf, rfl, callers_push ..⟩
    | «return» =>
      obtain ⟨-, v, calls, frame, -, hcalls, rfl⟩ := execute_return_eq_ok h
      refine .inr (.inl ⟨rfl, ?_⟩)
      obtain ⟨position, stack, heap, globals, calls'⟩ := st
      obtain rfl : calls' = calls.push frame := hcalls
      exact callers_push ..
    | _ => exact htransfer.elim
  · refine .inr (.inr ⟨htransfer, ?_, ?_, position_of_execute htransfer h⟩)
    · rintro rfl
      cases h
      exact heffect rfl
    · obtain ⟨f, hframes⟩ := (spares_execute code maxCalls w htransfer _ _ _ h).frames
      rw [State.callers, hframes, map_returnTo_modifyHead]
      rfl

end Labyrinth
