import Labyrinth.Proofs.Machine.Correctness
import Labyrinth.Proofs.Verdicts

/-!
# Judgements of trees

A program is judged by what its tree means: by the ending that the evaluation of the tree comes to,
and in the world that it leaves. Only a budget that is too small makes a difference.

## Main results

* `Engine.exists_drive_eq`: an engine judges what its machine does.
* `Program.run_of_evaluate`: the run of a program whose tree can be evaluated.
* `Program.run_of_finished`: the run of a program whose tree comes to its end.
-/

namespace Labyrinth

/-- An engine that drives a machine to its end judges what the machine does. -/
theorem Engine.exists_drive_eq (limits : Limits) (m : Machine) (output : Array String)
    (g : Stage) :
    ∃ executed, ((Engine.mk limits (some m) output).drive g.world).1 =
        (m.play g).ending.result executed (m.play g).world ∧
      ((Engine.mk limits (some m) output).drive g.world).2.2 = (m.play g).world := by
  induction hleft : m.left using Nat.strong_induction_on generalizing m output g with
  | _ left ih =>
    have hlt := m.left_resume_lt g.world
    cases hresume : m.resume g.world with
    | mk step rest =>
      obtain ⟨m', w'⟩ := rest
      rw [hresume] at hlt
      cases hstep : step.isEnding with
      | true =>
        obtain ⟨ending, rfl⟩ := Step.exists_ending hstep
        rw [drive_of_ended limits output hresume, Machine.play_of_ended hresume]
        exact ⟨m'.executed, rfl, rfl⟩
      | false =>
        rw [drive_of_step limits output hstep hresume, Machine.play_of_step hstep hresume]
        exact ih m'.left (hleft ▸ hlt hstep) (m'.withOutput #[]) (output ++ m'.output)
          ⟨w', g.deeds ++ printedAll m'.output ++ [.tried step]⟩ rfl

/-- A program is judged by what its machine does. -/
theorem Program.exists_run_eq {p : Program} {code : Code} (hcode : p.code = .ok code)
    (limits : Limits) (w : World) :
    ∃ executed, (p.run limits w).1.result =
        ((Machine.start code limits).play ⟨w.reset, []⟩).ending.result executed
          ((Machine.start code limits).play ⟨w.reset, []⟩).world ∧
      (p.run limits w).2 = ((Machine.start code limits).play ⟨w.reset, []⟩).world := by
  rw [Program.run_eq_drive hcode]
  exact Engine.exists_drive_eq limits (.start code limits) #[] ⟨w.reset, []⟩

/-- A budget is used up according to the judgement exactly if the machine has used it up. -/
theorem Program.budgetExhausted_iff {p : Program} {code : Code} (hcode : p.code = .ok code)
    (limits : Limits) (w : World) :
    (∃ executed, (p.run limits w).1.result = .budgetExhausted executed) ↔
      ((Machine.start code limits).play ⟨w.reset, []⟩).ending = .exhausted := by
  obtain ⟨executed, hresult, -⟩ := Program.exists_run_eq hcode limits w
  rw [hresult]
  generalize (Machine.start code limits).play ⟨w.reset, []⟩ = played
  obtain ⟨deeds, ending, final⟩ := played
  cases ending with
  | finished =>
    refine iff_of_false (fun ⟨_, h⟩ => ?_) nofun
    rw [Ending.result, World.verdict] at h
    split at h <;> cases h
  | faulted fault => simp [Ending.result]
  | exhausted => simp [Ending.result]

/-- A budget that the machine does not use up is not used up. -/
theorem Program.not_budgetExhausted {p : Program} {body : List Stmt} (hread : p.read = .ok body)
    {limits : Limits} {w : World}
    (h : (playOut (lower body) limits.maxCalls limits.budget.toNat .init
      ⟨w.reset, []⟩).ending ≠ .exhausted) (executed : UInt64) :
    (p.run limits w).1.result ≠ .budgetExhausted executed := by
  have hcode : p.code = .ok (lower body) := by
    rw [Program.code, hread]
    rfl
  intro hresult
  refine h ?_
  rw [← Machine.play_eq_playOut _ limits]
  exact (Program.budgetExhausted_iff hcode limits w).1 ⟨executed, hresult⟩

section Programs

variable {dialect : Dialect} {program body : List Stmt} {maxCalls fuel : Nat} {w : World}
  {t : Transcript}

/-- A large budget suffices for a program whose tree can be evaluated. -/
theorem exists_playOut_eq (hwf : Stmt.AllWellFormed dialect .top program)
    (h : evaluate fuel maxCalls program w = some t) :
    ∃ n, ∀ left, n < left → playOut (lower program) maxCalls left .init ⟨w, []⟩ = t := by
  have hends {n : Nat} {st : State} {g : Stage}
      (hsteps : Steps (lower program) maxCalls n .init ⟨w, []⟩ st g)
      (hend : ∀ left, playOut (lower program) maxCalls (left + 1) st g = t) (left : Nat)
      (hleft : n < left) : playOut (lower program) maxCalls left .init ⟨w, []⟩ = t := by
    obtain ⟨rest, rfl⟩ := Nat.exists_eq_add_of_lt hleft
    rw [Nat.add_assoc, hsteps.playOut_eq, hend]
  have hfollows := Stmt.follows_top hwf maxCalls fuel w
  unfold Follows at hfollows
  cases hexec : Stmt.execAll (settingAt (Stmt.allDefinitions program) maxCalls fuel 0) program
      (.init w) with
  | done flow scene =>
    simp only [evaluate, hexec, Option.some.injEq] at h
    rw [hexec] at hfollows
    obtain ⟨n, st, hsteps, st', hhalt⟩ := hfollows
    exact ⟨n, hends hsteps fun _ => h ▸ playOut_halt hhalt _⟩
  | fault f scene =>
    simp only [evaluate, hexec, Option.some.injEq] at h
    rw [hexec] at hfollows
    obtain ⟨n, st, hsteps, hfault⟩ := hfollows
    exact ⟨n, hends hsteps fun _ => h ▸ playOut_fault hfault _⟩
  | timeout => simp only [evaluate, hexec, reduceCtorEq] at h

/-- A program whose tree can be evaluated does what the tree means, and is judged by that. If its
budget is used up before, the budget is small. -/
theorem Program.run_of_evaluate {p : Program} (hread : p.read = .ok body)
    (h : evaluate fuel maxCalls body w.reset = some t) :
    ∃ n, ∀ budget : UInt64,
      (budget.toNat ≤ n ∧
          ∃ executed, (p.run ⟨budget, maxCalls⟩ w).1.result = .budgetExhausted executed) ∨
        (Machine.start (lower body) ⟨budget, maxCalls⟩).play ⟨w.reset, []⟩ = t ∧
          (∃ executed, (p.run ⟨budget, maxCalls⟩ w).1.result =
            t.ending.result executed t.world) ∧
          (p.run ⟨budget, maxCalls⟩ w).2 = t.world := by
  have hwf := (Program.wellFormed_of_read hread).1
  have hcode : p.code = .ok (lower body) := by
    rw [Program.code, hread]
    rfl
  obtain ⟨n, hn⟩ := exists_playOut_eq hwf h
  refine ⟨n, fun budget => ?_⟩
  have hplay : (Machine.start (lower body) ⟨budget, maxCalls⟩).play ⟨w.reset, []⟩ =
      playOut (lower body) maxCalls budget.toNat .init ⟨w.reset, []⟩ :=
    Machine.play_eq_playOut ..
  obtain ⟨executed, hresult, hfinal⟩ := Program.exists_run_eq hcode ⟨budget, maxCalls⟩ w
  rcases Nat.lt_or_ge n budget.toNat with hlt | hle
  · rw [hplay, hn _ hlt] at hresult hfinal
    exact .inr ⟨hplay.trans (hn _ hlt), ⟨executed, hresult⟩, hfinal⟩
  · by_cases hended : (playOut (lower body) maxCalls budget.toNat .init ⟨w.reset, []⟩).ending =
        .exhausted
    · exact .inl ⟨hle, (Program.budgetExhausted_iff hcode _ w).2 (hplay ▸ hended)⟩
    · have ht := playOut_of_evaluate hwf h hended
      rw [hplay, ht] at hresult hfinal
      exact .inr ⟨hplay.trans ht, ⟨executed, hresult⟩, hfinal⟩

/-- A program whose tree comes to its end is judged by where the cursor stands then. -/
theorem Program.run_of_finished {p : Program} {deeds : List Deed} {final : World}
    (hread : p.read = .ok body)
    (h : evaluate fuel maxCalls body w.reset = some ⟨deeds, .finished, final⟩) :
    (∃ n, ∀ budget : UInt64, n < budget.toNat → ∀ executed,
        (p.run ⟨budget, maxCalls⟩ w).1.result ≠ .budgetExhausted executed) ∧
      ∃ code, p.code = .ok code ∧ ∀ budget : UInt64,
        (∀ executed, (p.run ⟨budget, maxCalls⟩ w).1.result ≠ .budgetExhausted executed) →
        (p.run ⟨budget, maxCalls⟩ w).1.result = final.verdict ∧
          (p.run ⟨budget, maxCalls⟩ w).2 = final ∧
          ((Machine.start code ⟨budget, maxCalls⟩).play ⟨w.reset, []⟩).deeds = deeds := by
  obtain ⟨n, hn⟩ := Program.run_of_evaluate hread h
  refine ⟨⟨n, fun budget hbudget executed hresult => ?_⟩, lower body, ?_, fun budget hbudget => ?_⟩
  · rcases hn budget with ⟨hle, -⟩ | ⟨-, ⟨_, hjudged⟩, -⟩
    · exact absurd hbudget (Nat.not_lt_of_le hle)
    · rw [hjudged, Ending.result, World.verdict] at hresult
      split at hresult <;> cases hresult
  · rw [Program.code, hread]
    rfl
  · rcases hn budget with ⟨-, executed, hexhausted⟩ | ⟨hplayed, ⟨_, hjudged⟩, hfinal⟩
    · exact absurd hexhausted (hbudget executed)
    · exact ⟨hjudged, hfinal, congrArg Transcript.deeds hplayed⟩

end Programs

end Labyrinth
