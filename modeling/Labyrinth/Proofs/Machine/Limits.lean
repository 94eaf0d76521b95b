import Labyrinth.Proofs.Machine.Footprints
import Labyrinth.Proofs.Machine.Observations
import Labyrinth.Proofs.Machine.Steps

/-!
# Limits

Whatever code is run, a machine executes no more instructions than its budget allows, and keeps no
more scopes than its limit on calls allows. Wider limits change nothing of a run but its end: as
long as a run does not reach one of its limits, it cannot be told from the run under wider ones.

The count of the executed instructions is no bookkeeping of its own. It is what has been taken off
the budget, and `Accounts` says that so many steps of the machine have in fact been made.

## Main results

* `Machine.accounts_after`: the steps that a machine has made.
* `Steps.scopeCount_le`: the number of scopes.
* `Machine.after_widen`: a machine under wider limits.
* `Code.limits_sound`: the limits of every code, and the runs under wider limits.
-/

namespace Labyrinth

/-- The number of scopes: that of the top level and those of the calls in progress. -/
def State.scopeCount (st : State) : Nat := st.calls.size + 1

/-- An attempt to step is no end of a run. -/
theorem Step.ofMove_ne_ended (d : Direction) (move : Move) (ending : Ending) :
    Step.ofMove d move ≠ .ended ending := by
  cases move with
  | moved => exact nofun
  | blocked => exact nofun

/-! ### Steps that have been made -/

/-- So many instructions lead from a state and a stage to a phase of a machine, and the world is
then `final`. The instruction that ends a run counts. -/
def Phase.Reached (code : Code) (maxCalls count : Nat) (st : State) (g : Stage) (final : World) :
    Phase → Prop
  | .running st' => ∃ deeds, Steps code maxCalls count st g st' ⟨final, deeds⟩
  | .ended .exhausted => ∃ st' deeds, Steps code maxCalls count st g st' ⟨final, deeds⟩
  | .ended .finished => ∃ n st' st'' deeds, count = n + 1 ∧
      Steps code maxCalls n st g st' ⟨final, deeds⟩ ∧
      st'.next code maxCalls final = .ok (.halt, st'')
  | .ended (.faulted f) => ∃ n st' deeds, count = n + 1 ∧
      Steps code maxCalls n st g st' ⟨final, deeds⟩ ∧ st'.next code maxCalls final = .error f

section Reached

variable {code : Code} {maxCalls m n : Nat} {st st' : State} {g g' : Stage} {final : World}

theorem Phase.Reached.trans {phase : Phase} (h : Steps code maxCalls m st g st' g')
    (h' : phase.Reached code maxCalls n st' g' final) :
    phase.Reached code maxCalls (m + n) st g final := by
  rcases phase with st'' | (_ | f | _)
  · obtain ⟨deeds, hsteps⟩ := h'
    exact ⟨deeds, h.trans hsteps⟩
  · obtain ⟨k, st₁, st₂, deeds, rfl, hsteps, hhalt⟩ := h'
    exact ⟨m + k, st₁, st₂, deeds, rfl, h.trans hsteps, hhalt⟩
  · obtain ⟨k, st₁, deeds, rfl, hsteps, hfault⟩ := h'
    exact ⟨m + k, st₁, deeds, rfl, h.trans hsteps, hfault⟩
  · obtain ⟨st₁, deeds, hsteps⟩ := h'
    exact ⟨st₁, deeds, h.trans hsteps⟩

/-- An instruction that comes before. -/
theorem Phase.Reached.step {phase : Phase} {effect : Effect}
    (hnext : st.next code maxCalls g.world = .ok (effect, st')) (heffect : effect ≠ .halt)
    (h : phase.Reached code maxCalls n st' (g.apply effect) final) :
    phase.Reached code maxCalls (n + 1) st g final := by
  rw [Nat.add_comm]
  exact .trans (.single hnext heffect) h

/-- The phase of a machine that pauses, and the world in which it is left. -/
def Pause.settle (w : World) : Pause → Phase × World
  | .ended ending => (.ended ending, w)
  | .move d s => (.running s, (w.step d).2)

/-- What is taken off the budget has been executed, and a budget that is exhausted is used up. -/
theorem reached_advance {w : World} {left left' : Nat} {output output' : Array String}
    {pause : Pause} (h : advance code maxCalls w left output st = (pause, left', output'))
    (deeds : List Deed) :
    (pause.settle w).1.Reached code maxCalls (left - left') st ⟨w, deeds⟩ (pause.settle w).2 ∧
      (pause = .ended .exhausted → left' = 0) := by
  induction left generalizing output st deeds with
  | zero =>
    cases h
    exact ⟨⟨st, deeds, .refl _ _⟩, fun _ => rfl⟩
  | succ left ih =>
    rw [advance] at h
    have hone (hlt : left' ≤ left) : left + 1 - left' = left - left' + 1 := by omega
    cases hnext : st.next code maxCalls w with
    | error f =>
      rw [hnext] at h
      cases h
      rw [hone (Nat.le_refl _), Nat.sub_self]
      exact ⟨⟨0, st, deeds, rfl, .refl _ _, hnext⟩, by simp⟩
    | ok r =>
      obtain ⟨effect, st'⟩ := r
      rw [hnext] at h
      cases effect with
      | none =>
        replace h : advance code maxCalls w left output st' = _ := h
        have hle := advance_left_le code maxCalls w left output st'
        rw [h] at hle
        rw [hone hle]
        exact ⟨.step (g := ⟨w, deeds⟩) hnext (by simp) (ih h deeds).1, (ih h deeds).2⟩
      | print line =>
        replace h : advance code maxCalls w left (output.push line) st' = _ := h
        have hle := advance_left_le code maxCalls w left (output.push line) st'
        rw [h] at hle
        rw [hone hle]
        exact ⟨.step (g := ⟨w, deeds⟩) hnext (by simp) (ih h _).1, (ih h deeds).2⟩
      | move d =>
        cases h
        rw [hone (Nat.le_refl _), Nat.sub_self]
        exact ⟨⟨_, .single (g := ⟨w, deeds⟩) hnext (by simp)⟩, by simp⟩
      | halt =>
        cases h
        rw [hone (Nat.le_refl _), Nat.sub_self]
        exact ⟨⟨0, st, st', deeds, rfl, .refl _ _, hnext⟩, by simp⟩

end Reached

/-- A machine that runs a code from its first instruction in a world **accounts** for what it has
done: what it has executed and what is left make up its budget, so many steps have led to where it
stands and to the world `final`, and if its budget is exhausted then nothing is left. -/
structure Machine.Accounts (code : Code) (limits : Limits) (w : World) (m : Machine)
    (final : World) : Prop where
  code_eq : m.code = code
  limits_eq : m.limits = limits
  budget : m.executed + m.left = limits.budget.toNat
  reached : m.phase.Reached code limits.maxCalls m.executed .init ⟨w, []⟩ final
  exhausted : m.phase = .ended .exhausted → m.left = 0

namespace Machine

variable {code : Code} {limits : Limits} {w final : World} {m : Machine}

theorem resume_running (code : Code) (limits : Limits) (w : World) (s : State) (left : Nat)
    (output : Array String) :
    ∃ pause left' output', advance code limits.maxCalls w left output s = (pause, left', output') ∧
      (Machine.mk code limits (.running s) left output).resume w =
        ((match pause with
          | .ended ending => .ended ending
          | .move d _ => .ofMove d (w.step d).1),
          ⟨code, limits, (pause.settle w).1, left', output'⟩, (pause.settle w).2) := by
  generalize hadvance : advance code limits.maxCalls w left output s = r
  obtain ⟨pause, left', output'⟩ := r
  refine ⟨pause, left', output', rfl, ?_⟩
  cases pause with
  | ended ending => simp only [resume, hadvance, Pause.settle]
  | move d s' => simp only [resume, hadvance, Pause.settle]

theorem accounts_start (code : Code) (limits : Limits) (w : World) :
    (start code limits).Accounts code limits w w where
  code_eq := rfl
  limits_eq := rfl
  budget := by simp [executed, start]
  reached := by
    refine ⟨[], ?_⟩
    rw [show (start code limits).executed = 0 from Nat.sub_self _]
    exact .refl _ _
  exhausted h := nomatch h

/-- A machine still accounts for what it has done when it is resumed. -/
theorem accounts_resume (h : m.Accounts code limits w final) :
    (m.resume final).2.1.Accounts code limits w (m.resume final).2.2 := by
  obtain ⟨code, limits, phase, left, output⟩ := m
  obtain ⟨rfl, rfl, hbudget, hreached, hexhausted⟩ := h
  cases phase with
  | ended ending => exact ⟨rfl, rfl, hbudget, hreached, hexhausted⟩
  | running s =>
    obtain ⟨deeds, hsteps⟩ := hreached
    obtain ⟨pause, left', output', hadvance, hresume⟩ :=
      resume_running code limits final s left output
    obtain ⟨hpause, hzero⟩ := reached_advance hadvance deeds
    have hle : left' ≤ left := by
      have hle := advance_left_le code limits.maxCalls final left output s
      rwa [hadvance] at hle
    rw [hresume]
    have hexecuted : (Machine.mk code limits (pause.settle final).1 left' output').executed =
        (Machine.mk code limits (.running s) left output).executed + (left - left') := by
      simp only [executed] at hbudget ⊢
      omega
    refine ⟨rfl, rfl, ?_, ?_, fun hphase => hzero ?_⟩
    · simp only [executed] at hbudget ⊢
      omega
    · rw [hexecuted]
      exact .trans hsteps hpause
    · cases pause with
      | ended ending =>
        cases hphase
        rfl
      | move d s' => cases hphase

/-- The steps that a machine has made that has been resumed `n` times. -/
theorem accounts_after (code : Code) (limits : Limits) (w : World) (n : Nat) :
    ((start code limits).after w n).1.Accounts code limits w ((start code limits).after w n).2 := by
  induction n with
  | zero => exact accounts_start code limits w
  | succ n ih => exact accounts_resume ih

theorem phase_of_ended {ending : Ending} (h : (m.resume w).1 = .ended ending) :
    (m.resume w).2.1.phase = .ended ending := by
  obtain ⟨code, limits, phase, left, output⟩ := m
  cases phase with
  | ended e =>
    cases h
    rfl
  | running s =>
    obtain ⟨pause, left', output', -, hresume⟩ :=
      resume_running code limits w s left output
    rw [hresume] at h ⊢
    cases pause with
    | ended e =>
      cases h
      rfl
    | move d s' => exact absurd h (Step.ofMove_ne_ended d _ ending)

end Machine

/-! ### The number of scopes -/

/-- An instruction leaves no more calls in progress than there may be. -/
theorem calls_next_le {code : Code} {maxCalls : Nat} {w : World} {st st' : State}
    {effect : Effect} (hst : st.calls.size ≤ maxCalls)
    (h : st.next code maxCalls w = .ok (effect, st')) (heffect : effect ≠ .halt) :
    st'.calls.size ≤ maxCalls := by
  obtain ⟨instr, -, h⟩ := State.next_eq_ok h heffect
  by_cases htransfer : instr.IsTransfer
  · cases instr with
    | call function argc =>
      obtain ⟨hlt, -, -, f, args, -, rfl⟩ := execute_call_eq_ok h
      rw [Array.size_push]
      exact hlt
    | «return» =>
      obtain ⟨-, v, calls, frame, -, hcalls, rfl⟩ := execute_return_eq_ok h
      have hcalls : st.calls = calls.push frame := hcalls
      rw [hcalls, Array.size_push] at hst
      exact Nat.le_of_succ_le hst
    | _ => exact htransfer.elim
  · obtain ⟨f, hframes⟩ := (spares_execute code maxCalls w htransfer _ _ _ h).frames
    have hlength := congrArg List.length hframes
    simp only [State.frames, List.length_modifyHead, List.length_reverse,
      Array.length_toList] at hlength
    rw [hlength]
    exact hst

theorem Steps.calls_le {code : Code} {maxCalls n : Nat} {st st' : State} {g g' : Stage}
    (h : Steps code maxCalls n st g st' g') (hst : st.calls.size ≤ maxCalls) :
    st'.calls.size ≤ maxCalls := by
  induction h with
  | refl => exact hst
  | step hnext heffect _ ih => exact ih (calls_next_le hst hnext heffect)

/-- The number of scopes stays within its bounds. -/
theorem Steps.scopeCount_le {code : Code} {maxCalls n : Nat} {st : State} {g g' : Stage}
    (h : Steps code maxCalls n .init g st g') :
    1 ≤ st.scopeCount ∧ st.scopeCount ≤ maxCalls + 1 :=
  ⟨Nat.le_add_left 1 _, Nat.add_le_add_right (h.calls_le (Nat.zero_le maxCalls)) 1⟩

/-! ### Wider limits -/

/-- An instruction that does not fail for too many calls does not mind if more are allowed. -/
theorem execute_widen {code : Code} {maxCalls maxCalls' : Nat} (hle : maxCalls ≤ maxCalls')
    (w : World) {instr : Instr} {st : State}
    (h : instr.execute code maxCalls w st ≠ .error .recursionDepth) :
    instr.execute code maxCalls' w st = instr.execute code maxCalls w st := by
  cases instr with
  | call function argc =>
    simp only [Instr.execute, Action.call] at h ⊢
    cases hf : code.functions[function]? with
    | none => rfl
    | some f =>
      rw [hf] at h
      by_cases hlength : f.params.length ≠ argc
      · simp only [if_pos hlength]
      simp only [if_neg hlength, bind_assoc, get_bind] at h ⊢
      by_cases hdepth : maxCalls ≤ st.calls.size
      · rw [if_pos hdepth] at h
        exact absurd rfl h
      · rw [if_neg hdepth, if_neg (fun hdepth' => hdepth (hle.trans hdepth'))]
  | builtin function argc => cases function <;> rfl
  | _ => rfl

theorem next_widen {code : Code} {maxCalls maxCalls' : Nat} (hle : maxCalls ≤ maxCalls')
    {w : World} {st : State} (h : st.next code maxCalls w ≠ .error .recursionDepth) :
    st.next code maxCalls' w = st.next code maxCalls w := by
  unfold State.next at h ⊢
  cases hinstr : code.instructions[st.position]? with
  | none => rfl
  | some instr =>
    rw [hinstr] at h
    exact execute_widen hle w h

/-- A step that is owed to the limits. -/
def Step.IsLimit (step : Step) : Prop :=
  step = .ended .exhausted ∨ step = .ended (.faulted .recursionDepth)

instance (step : Step) : Decidable step.IsLimit :=
  inferInstanceAs
    (Decidable (step = .ended .exhausted ∨ step = .ended (.faulted .recursionDepth)))

/-- A pause that is not owed to the limits comes alike under wider ones. -/
theorem advance_widen {code : Code} {maxCalls maxCalls' : Nat} (hle : maxCalls ≤ maxCalls')
    {w : World} {left left' : Nat} {output output' : Array String} {s : State} {pause : Pause}
    (h : advance code maxCalls w left output s = (pause, left', output'))
    (hbudget : pause ≠ .ended .exhausted) (hdepth : pause ≠ .ended (.faulted .recursionDepth))
    (more : Nat) :
    advance code maxCalls' w (left + more) output s = (pause, left' + more, output') := by
  induction left generalizing output s with
  | zero =>
    cases h
    exact absurd rfl hbudget
  | succ left ih =>
    rw [advance] at h
    rw [Nat.add_right_comm, advance]
    have hnext : s.next code maxCalls w ≠ .error .recursionDepth := by
      intro hnext
      rw [hnext] at h
      cases h
      exact hdepth rfl
    rw [next_widen hle hnext]
    cases hr : s.next code maxCalls w with
    | error f =>
      rw [hr] at h
      cases h
      rfl
    | ok r =>
      obtain ⟨effect, s'⟩ := r
      rw [hr] at h
      cases effect with
      | none => exact ih h
      | print line => exact ih h
      | move d =>
        cases h
        rfl
      | halt =>
        cases h
        rfl

namespace Machine

/-- The machine under other limits, after as many instructions. -/
def widen (m : Machine) (limits : Limits) : Machine :=
  { m with limits, left := m.left + (limits.budget.toNat - m.limits.budget.toNat) }

variable {m : Machine} {limits : Limits} {w : World}

theorem limits_resume (m : Machine) (w : World) : (m.resume w).2.1.limits = m.limits := by
  obtain ⟨code, limits, phase, left, output⟩ := m
  cases phase with
  | ended ending => rfl
  | running s =>
    obtain ⟨pause, left', output', -, hresume⟩ :=
      resume_running code limits w s left output
    rw [hresume]

theorem limits_after (m : Machine) (w : World) (n : Nat) : (m.after w n).1.limits = m.limits := by
  induction n with
  | zero => rfl
  | succ n ih => exact (limits_resume _ _).trans ih

theorem executed_widen (h : m.limits.budget ≤ limits.budget) :
    (m.widen limits).executed = m.executed := by
  have hle := UInt64.le_iff_toNat_le.1 h
  simp only [executed, widen]
  omega

/-- A step that is not owed to the limits is made alike under wider ones. -/
theorem resume_widen (hle : m.limits.maxCalls ≤ limits.maxCalls)
    (hstep : ¬(m.resume w).1.IsLimit) :
    (m.widen limits).resume w =
      ((m.resume w).1, (m.resume w).2.1.widen limits, (m.resume w).2.2) := by
  obtain ⟨code, limits₀, phase, left, output⟩ := m
  cases phase with
  | ended ending => rfl
  | running s =>
    obtain ⟨pause, left', output', hadvance, hresume⟩ :=
      resume_running code limits₀ w s left output
    rw [hresume] at hstep ⊢
    have hbudget : pause ≠ .ended .exhausted := fun h => hstep (.inl (by rw [h]))
    have hdepth : pause ≠ .ended (.faulted .recursionDepth) := fun h => hstep (.inr (by rw [h]))
    have hwider := advance_widen hle hadvance hbudget hdepth
      (limits.budget.toNat - limits₀.budget.toNat)
    cases pause with
    | ended ending => simp only [widen, resume, hwider, Pause.settle]
    | move d s' => simp only [widen, resume, hwider, Pause.settle]

/-- A machine that has not come to its limits stands alike under wider ones. -/
theorem after_widen (hle : m.limits.maxCalls ≤ limits.maxCalls) (w : World) {n : Nat}
    (hsteps : ∀ k < n, ¬(m.observe w k).step.IsLimit) :
    (m.widen limits).after w n = ((m.after w n).1.widen limits, (m.after w n).2) := by
  induction n with
  | zero => rfl
  | succ n ih =>
    have hbefore := ih fun k hk => hsteps k (Nat.lt_succ_of_lt hk)
    have hle' : (m.after w n).1.limits.maxCalls ≤ limits.maxCalls := by rwa [limits_after]
    have hresume := resume_widen hle' (hsteps n (Nat.lt_succ_self n))
    rw [after, hbefore]
    exact congrArg Prod.snd hresume

/-- What can be seen of a machine is the same under wider limits, up to the first step that is owed
to the limits. -/
theorem observe_widen (hbudget : m.limits.budget ≤ limits.budget)
    (hle : m.limits.maxCalls ≤ limits.maxCalls) (w : World) {n : Nat}
    (hsteps : ∀ k ≤ n, ¬(m.observe w k).step.IsLimit) :
    (m.widen limits).observe w n = m.observe w n := by
  have hafter := after_widen hle w fun k hk => hsteps k (Nat.le_of_lt hk)
  have hle' : (m.after w n).1.limits.maxCalls ≤ limits.maxCalls := by rwa [limits_after]
  have hresume := resume_widen hle' (hsteps n (Nat.le_refl n))
  have hbudget' : ((m.after w n).1.resume (m.after w n).2).2.1.limits.budget ≤ limits.budget := by
    rwa [limits_resume, limits_after]
  rw [observe, hafter]
  dsimp only
  rw [hresume]
  dsimp only
  rw [executed_widen hbudget']
  rfl

theorem widen_start (code : Code) {limits limits' : Limits} (h : limits.budget ≤ limits'.budget) :
    (start code limits).widen limits' = start code limits' := by
  have hle := UInt64.le_iff_toNat_le.1 h
  have hleft : limits.budget.toNat + (limits'.budget.toNat - limits.budget.toNat) =
      limits'.budget.toNat := Nat.add_sub_cancel' hle
  simp only [widen, start, hleft]

end Machine

/-- The limits of a run are kept, however often its machine is resumed: no more instructions are
executed than the budget allows, exactly so many when the budget is reported to be exhausted, and
the scopes are those of the top level and of at most as many calls as are allowed. Under wider
limits the same is seen of the run, up to the first step that is owed to the limits. -/
theorem Code.limits_sound (code : Code) (limits : Limits) (w : World) :
    (∀ n, ((Machine.start code limits).after w n).1.Accounts code limits w
        ((Machine.start code limits).after w n).2 ∧
      ((Machine.start code limits).observe w n).executed ≤ limits.budget.toNat) ∧
      (∀ n, ((Machine.start code limits).observe w n).step = .ended .exhausted →
        ((Machine.start code limits).observe w n).executed = limits.budget.toNat ∧
          ∀ final, Ending.exhausted.result
            ((Machine.start code limits).observe w n).executed final =
            .budgetExhausted limits.budget) ∧
      (∀ n st g, Steps code limits.maxCalls n .init ⟨w, []⟩ st g →
        1 ≤ st.scopeCount ∧ st.scopeCount ≤ limits.maxCalls + 1) ∧
      ∀ limits', limits.budget ≤ limits'.budget → limits.maxCalls ≤ limits'.maxCalls →
        ∀ n, (∀ k ≤ n, ¬((Machine.start code limits).observe w k).step.IsLimit) →
          (Machine.start code limits').observe w n = (Machine.start code limits).observe w n := by
  have haccounts (n : Nat) := Machine.accounts_after code limits w n
  refine ⟨fun n => ⟨haccounts n, ?_⟩, fun n hstep => ?_, fun n st g h => h.scopeCount_le, ?_⟩
  · have hbudget := (haccounts (n + 1)).budget
    exact Nat.le.intro hbudget
  · have hbudget := (haccounts (n + 1)).budget
    rw [(haccounts (n + 1)).exhausted (Machine.phase_of_ended hstep), Nat.add_zero] at hbudget
    have hexecuted : ((Machine.start code limits).observe w n).executed = limits.budget.toNat :=
      hbudget
    refine ⟨hexecuted, fun final => ?_⟩
    rw [Ending.result, hexecuted, UInt64.ofNat_toNat]
  · intro limits' hbudget hle n hsteps
    rw [← Machine.widen_start code hbudget]
    exact Machine.observe_widen hbudget hle w hsteps

/-- A function that goes to the right and back, and a program that calls it. -/
def Code.backAndForth : Code :=
  ⟨#[.call 0 0, .pop, .halt, .capability (.move .right) 0, .pop, .capability (.move .left) 0,
    .return], #[⟨"f", [], 3⟩]⟩

/-- A budget of four instructions lasts for both steps but not for the return, and one call is
enough for the function. -/
theorem Code.limits_sound_backAndForth :
    let m := Machine.start Code.backAndForth ⟨4, 1⟩
    let inside : State := ⟨3, #[], .empty, .empty, #[⟨.empty, 1, 0⟩]⟩
    (m.observe .corridor 2).step = .ended .exhausted ∧ (m.observe .corridor 2).executed = 4 ∧
      Steps Code.backAndForth 1 1 .init ⟨.corridor, []⟩ inside ⟨.corridor, []⟩ ∧
      inside.scopeCount ≤ 1 + 1 ∧
      (∀ k ≤ 1, ¬(m.observe .corridor k).step.IsLimit) ∧
        (Machine.start Code.backAndForth ⟨9, 3⟩).observe .corridor 1 = m.observe .corridor 1 := by
  have hsound := Code.limits_sound Code.backAndForth ⟨4, 1⟩ .corridor
  have hexhausted : ((Machine.start Code.backAndForth ⟨4, 1⟩).observe .corridor 2).step =
      .ended .exhausted := by decide +kernel
  have hcall : Steps Code.backAndForth 1 1 .init ⟨.corridor, []⟩
      ⟨3, #[], .empty, .empty, #[⟨.empty, 1, 0⟩]⟩ ⟨.corridor, []⟩ :=
    .single (e := .none) (g := ⟨.corridor, []⟩) rfl nofun
  have hsteps : ∀ k ≤ 1,
      ¬((Machine.start Code.backAndForth ⟨4, 1⟩).observe .corridor k).step.IsLimit := by
    decide +kernel
  exact ⟨hexhausted, (hsound.2.1 2 hexhausted).1, hcall, (hsound.2.2.1 1 _ _ hcall).2, hsteps,
    hsound.2.2.2 ⟨9, 3⟩ (by decide) (by decide) 1 hsteps⟩

end Labyrinth
