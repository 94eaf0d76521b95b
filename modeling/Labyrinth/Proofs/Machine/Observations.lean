import Labyrinth.Proofs.Machine.Rebinding
import Labyrinth.Proofs.Machine.Runs

/-!
# What can be seen of a run

A program of the indented dialect is printed with assignments in place of those declarations whose
names are bound for certain. Nobody can tell the runs of the two programs apart.

## Main results

* `Interchangeable.resume_eq`: a machine pauses alike with either code.
* `Indented.observe_reboundAll`: the runs of the two programs.
-/

namespace Labyrinth

/-- What can be seen when a machine is resumed. -/
structure Observation where
  step : Step
  /-- The number of instructions that have been executed. -/
  executed : Nat
  /-- The lines that have been printed. -/
  output : Array String
  world : World

/-- What can be seen when a machine is resumed that has been resumed `n` times before. -/
def Machine.observe (m : Machine) (w : World) (n : Nat) : Observation :=
  let before := m.after w n
  let resumed := before.1.resume before.2
  ⟨resumed.1, resumed.2.1.executed, resumed.2.1.output, resumed.2.2⟩

/-- The machine with another code. -/
def Machine.withCode (m : Machine) (code : Code) : Machine := { m with code := code }

/-- The state in which a machine goes on, if it does, has a property. -/
def Machine.GoesOn (P : State → Prop) (m : Machine) : Prop := ∀ s, m.phase = .running s → P s

theorem Machine.goesOn_start {P : State → Prop} (h : P .init) (code : Code) (limits : Limits) :
    (Machine.start code limits).GoesOn P := by
  rintro s ⟨⟩
  exact h

namespace Interchangeable

variable {code code' : Code} {P : State → Prop} (h : Interchangeable code code' P)
include h

theorem advance_eq (maxCalls : Nat) (w : World) (left : Nat) (output : Array String) {s : State}
    (hs : P s) :
    advance code' maxCalls w left output s = advance code maxCalls w left output s := by
  induction left generalizing output s with
  | zero => rfl
  | succ left ih =>
    rw [advance, advance, h.next_eq hs]
    cases hnext : s.next code maxCalls w with
    | error fault => rfl
    | ok r =>
      obtain ⟨effect, s'⟩ := r
      cases effect with
      | none => exact ih output (h.step hs hnext (by simp))
      | print line => exact ih (output.push line) (h.step hs hnext (by simp))
      | move d => rfl
      | halt => rfl

theorem of_advance {maxCalls : Nat} {w : World} {left left' : Nat} {output output' : Array String}
    {s s' : State} {d : Direction} (hs : P s)
    (hadvance : advance code maxCalls w left output s = (.move d s', left', output')) : P s' := by
  fun_induction advance code maxCalls w left output s with
  | case1 => cases hadvance
  | case2 _ _ s s₁ hnext ih => exact ih (h.step hs hnext (by simp)) hadvance
  | case3 _ _ s _ s₁ hnext ih => exact ih (h.step hs hnext (by simp)) hadvance
  | case4 _ _ s _ s₁ hnext =>
    cases hadvance
    exact h.step hs hnext (by simp)
  | case5 => cases hadvance
  | case6 => cases hadvance

/-- A machine pauses alike with either code. -/
theorem resume_eq {m : Machine} (hcode : m.code = code) (hm : m.GoesOn P) (w : World) :
    (m.withCode code').resume w =
        ((m.resume w).1, (m.resume w).2.1.withCode code', (m.resume w).2.2) ∧
      (m.resume w).2.1.code = code ∧ (m.resume w).2.1.GoesOn P := by
  obtain ⟨c, limits, phase, left, output⟩ := m
  cases hcode
  cases phase with
  | ended ending =>
    refine ⟨rfl, rfl, ?_⟩
    rintro s ⟨⟩
  | running s =>
    have hs : P s := hm s rfl
    have heq := h.advance_eq limits.maxCalls w left output hs
    simp only [Machine.resume, Machine.withCode, heq]
    cases hadvance : advance c limits.maxCalls w left output s with
    | mk pause rest =>
      cases pause with
      | ended ending =>
        refine ⟨rfl, rfl, ?_⟩
        rintro s ⟨⟩
      | move d s' =>
        refine ⟨rfl, rfl, ?_⟩
        rintro s₁ ⟨⟩
        exact h.of_advance hs hadvance

theorem after_eq {m : Machine} (hcode : m.code = code) (hm : m.GoesOn P) (w : World) (n : Nat) :
    (m.withCode code').after w n = ((m.after w n).1.withCode code', (m.after w n).2) ∧
      (m.after w n).1.code = code ∧ (m.after w n).1.GoesOn P := by
  induction n with
  | zero => exact ⟨rfl, hcode, hm⟩
  | succ n ih =>
    obtain ⟨heq, hcode', hm'⟩ := ih
    have hresume := h.resume_eq hcode' hm' (m.after w n).2
    refine ⟨?_, hresume.2⟩
    rw [Machine.after, heq, hresume.1]
    rfl

/-- Nobody can tell the two codes apart. -/
theorem observe_eq {m : Machine} (hcode : m.code = code) (hm : m.GoesOn P) (w : World) (n : Nat) :
    (m.withCode code').observe w n = m.observe w n := by
  obtain ⟨heq, hcode', hm'⟩ := h.after_eq hcode hm w n
  have hresume := h.resume_eq hcode' hm' (m.after w n).2
  rw [Machine.observe, heq, hresume.1]
  rfl

end Interchangeable

/-- The indented dialect has no constants, so everything can be assigned to. -/
theorem Stmt.reassignsAll_of_indented {program : List Stmt}
    (hwf : Stmt.AllWellFormed .indented .top program) :
    Stmt.ReassignsAll (fun constants x => x ∉ constants) program := by
  refine ⟨fun x _ => ?_, fun d hd x _ => ?_⟩
  · rw [Stmt.allConstants_eq_nil program hwf]
    exact List.not_mem_nil
  · rw [Stmt.allConstants_eq_nil d.body (Stmt.wellFormed_allDefinitions program hwf d hd)]
    exact List.not_mem_nil

/-- The tree in which bound names are assigned to is the one that is printed, and under all limits
and in every world its runs cannot be told from those of the program: they take the same steps after
the same number of instructions, print the same lines and leave the same world. -/
theorem Indented.observe_reboundAll {source : String} {body : List Stmt}
    (h : Indented.parse source = .ok body) :
    Braced.print (Stmt.reboundAll [] body) = Braced.print body ∧
      ∀ (limits : Limits) (w : World) (n : Nat),
        (Machine.start (lower (Stmt.reboundAll [] body)) limits).observe w n =
          (Machine.start (lower body) limits).observe w n := by
  refine ⟨print_reboundAll body, fun limits w n => ?_⟩
  obtain ⟨hwf, -⟩ := Indented.wellFormed_of_parse h
  have hsame := interchangeable_lower hwf (Stmt.reassignsAll_of_indented hwf)
  exact hsame.observe_eq rfl (Machine.goesOn_start (.init hwf) _ limits) w n

/-- A function that binds a name twice. -/
def Indented.twice : String := "def f():\n    x = move_up()\n    x = None\n"

/-- The tree of `twice`. -/
def Indented.twiceBody : List Stmt :=
  [.function "f" [] [.declare (.single "x") (some (.capability (.move .up) [])) false,
    .declare (.single "x") (some (.literal .null)) false]]

theorem Indented.observe_reboundAll_twice :
    Indented.parse Indented.twice = .ok Indented.twiceBody ∧
      Braced.print (Stmt.reboundAll [] Indented.twiceBody) = Braced.print Indented.twiceBody ∧
        ∀ (limits : Limits) (w : World) (n : Nat),
          (Machine.start (lower (Stmt.reboundAll [] Indented.twiceBody)) limits).observe w n =
            (Machine.start (lower Indented.twiceBody) limits).observe w n := by
  have hparse : Indented.parse Indented.twice = .ok Indented.twiceBody := by cbv
  exact ⟨hparse, Indented.observe_reboundAll hparse⟩

end Labyrinth
