import Labyrinth.Proofs.Machine.Judgements

/-!
# Programs that mean the same

Two programs whose trees mean the same cannot be told apart by their runs: they are judged alike,
print the same lines and leave the same world, unless the budget stops one of them.

## Main results

* `Program.output_run`: what a run prints is told by what its machine does.
* `Program.run_eq_of_evaluate`: programs that mean the same have the same runs.
-/

namespace Labyrinth

/-- The line that is printed, if one is. -/
def Deed.line? : Deed → Option String
  | .printed line => some line
  | .tried _ => none

theorem filterMap_line?_printedAll (lines : Array String) :
    (printedAll lines).filterMap Deed.line? = lines.toList := by
  rw [printedAll, List.filterMap_map]
  exact List.filterMap_some

/-- An engine prints what its machine prints. -/
theorem Engine.output_drive (limits : Limits) (m : Machine) {output : Array String} {g : Stage}
    (h : output.toList = g.deeds.filterMap Deed.line?) :
    ((Engine.mk limits (some m) output).drive g.world).2.1.output.toList =
      (m.play g).deeds.filterMap Deed.line? := by
  induction hleft : m.left using Nat.strong_induction_on generalizing m output g with
  | _ left ih =>
    have hlt := m.left_resume_lt g.world
    cases hresume : m.resume g.world with
    | mk step rest =>
      obtain ⟨m', w'⟩ := rest
      rw [hresume] at hlt
      have houtput : (output ++ m'.output).toList =
          (g.deeds ++ printedAll m'.output).filterMap Deed.line? := by
        rw [Array.toList_append, h, List.filterMap_append, filterMap_line?_printedAll]
      cases hstep : step.isEnding with
      | true =>
        obtain ⟨ending, rfl⟩ := Step.exists_ending hstep
        rw [drive_of_ended limits output hresume, Machine.play_of_ended hresume]
        exact houtput
      | false =>
        rw [drive_of_step limits output hstep hresume, Machine.play_of_step hstep hresume]
        refine ih m'.left (hleft ▸ hlt hstep) (m'.withOutput #[])
          (g := ⟨w', g.deeds ++ printedAll m'.output ++ [.tried step]⟩) ?_ rfl
        rw [List.filterMap_append, ← houtput]
        exact (List.append_nil _).symm

/-- What a run prints is what its machine prints. -/
theorem Program.output_run {p : Program} {code : Code} (hcode : p.code = .ok code) (limits : Limits)
    (w : World) :
    (p.run limits w).1.output.toList =
      ((Machine.start code limits).play ⟨w.reset, []⟩).deeds.filterMap Deed.line? := by
  rw [Program.run_eq_drive hcode]
  exact Engine.output_drive limits (.start code limits) (g := ⟨w.reset, []⟩) rfl

/-- Machines that do the same come to the same results, unless a budget is used up. -/
theorem Program.run_eq_of_play {p q : Program} {code code' : Code} (hcode : p.code = .ok code)
    (hcode' : q.code = .ok code') {limits : Limits} {w : World}
    (hplay : (Machine.start code limits).play ⟨w.reset, []⟩ =
      (Machine.start code' limits).play ⟨w.reset, []⟩)
    (hended : ((Machine.start code limits).play ⟨w.reset, []⟩).ending ≠ .exhausted) :
    p.run limits w = q.run limits w := by
  obtain ⟨executed, hresult, hfinal⟩ := Program.exists_run_eq hcode limits w
  obtain ⟨executed', hresult', hfinal'⟩ := Program.exists_run_eq hcode' limits w
  have houtput := Program.output_run hcode limits w
  have houtput' := Program.output_run hcode' limits w
  rw [← hplay] at hresult' hfinal' houtput'
  have hresults : (p.run limits w).1.result = (q.run limits w).1.result := by
    rw [hresult, hresult']
    -- Only a budget that is used up tells how many instructions have been executed.
    cases hending : ((Machine.start code limits).play ⟨w.reset, []⟩).ending with
    | exhausted => exact absurd hending hended
    | _ => rfl
  have houtputs : (p.run limits w).1.output = (q.run limits w).1.output :=
    Array.toList_inj.1 (houtput.trans houtput'.symm)
  have houtcomes : (p.run limits w).1 = (q.run limits w).1 := by
    generalize (p.run limits w).1 = a at hresults houtputs
    generalize (q.run limits w).1 = b at hresults houtputs
    cases a
    cases b
    exact congr (congrArg RunOutcome.mk hresults) houtputs
  exact Prod.ext houtcomes (hfinal.trans hfinal'.symm)

/-- Programs whose trees mean the same have the same runs, unless a budget is used up. It suffices
that the trees mean the same with as much fuel as one likes. -/
theorem Program.run_eq_of_evaluate {p q : Program} {body body' : List Stmt}
    (hread : p.read = .ok body) (hread' : q.read = .ok body') {limits : Limits} {w : World}
    (hsame : ∀ n, ∃ fuel ≥ n, evaluate fuel limits.maxCalls body w.reset =
      evaluate fuel limits.maxCalls body' w.reset)
    (hended : ∀ executed, (p.run limits w).1.result ≠ .budgetExhausted executed)
    (hended' : ∀ executed, (q.run limits w).1.result ≠ .budgetExhausted executed) :
    p.run limits w = q.run limits w := by
  have hcode : p.code = .ok (lower body) := by
    rw [Program.code, hread]
    rfl
  have hcode' : q.code = .ok (lower body') := by
    rw [Program.code, hread']
    rfl
  have hplay : (Machine.start (lower body) limits).play ⟨w.reset, []⟩ =
      playOut (lower body) limits.maxCalls limits.budget.toNat .init ⟨w.reset, []⟩ :=
    Machine.play_eq_playOut ..
  have hplay' : (Machine.start (lower body') limits).play ⟨w.reset, []⟩ =
      playOut (lower body') limits.maxCalls limits.budget.toNat .init ⟨w.reset, []⟩ :=
    Machine.play_eq_playOut ..
  have hplayed := fun h => ((Program.budgetExhausted_iff hcode limits w).2 h).elim hended
  have hplayed' := fun h => ((Program.budgetExhausted_iff hcode' limits w).2 h).elim hended'
  have hwf := (Program.wellFormed_of_read hread).1
  have hwf' := (Program.wellFormed_of_read hread').1
  refine Program.run_eq_of_play hcode hcode' ?_ hplayed
  rw [hplay] at hplayed
  rw [hplay'] at hplayed'
  obtain ⟨fuel, hfuel, heq⟩ := hsame limits.budget.toNat
  cases ht : evaluate fuel limits.maxCalls body w.reset with
  | none => exact absurd (exhausted_of_evaluate hwf ht hfuel) hplayed
  | some t =>
    rw [hplay, hplay', playOut_of_evaluate hwf ht hplayed,
      playOut_of_evaluate hwf' (heq.symm.trans ht) hplayed']

end Labyrinth
