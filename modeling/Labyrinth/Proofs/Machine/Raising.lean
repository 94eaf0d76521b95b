import Labyrinth.Proofs.Machine.Ensures

/-!
# What an evaluation raises

An evaluation **raises** a fault on a stage if it comes to that fault, and leaves that stage. As
with what an evaluation ensures, this is computed from the parts: the fault of a part is a fault of
the whole, if all that comes before the part comes to a value.

## Main results

* `Eval.raises_bind`: a fault after another evaluation.
* `Eval.Raises.repeatWhile`, `Eval.Raises.forEach`: a fault in the first round of a loop.
* `raises_callAt_of_le`, `Eval.Raises.callAt`: a fault of a call, and in a call.
-/

namespace Labyrinth

namespace Eval

variable {α β : Type} {scene : Scene} {e : Fault} {g : Stage}

/-- The evaluation comes to a fault and leaves a stage. -/
def Raises (a : Eval α) (scene : Scene) (e : Fault) (g : Stage) : Prop :=
  ∃ scene', a scene = .fault e scene' ∧ scene'.stage = g

/-- The first one of two evaluations raises a fault. -/
theorem Raises.bind {a : Eval α} (h : a.Raises scene e g) (f : α → Eval β) :
    (a >>= f).Raises scene e g := by
  obtain ⟨scene', ha, hstage⟩ := h
  exact ⟨scene', bind_of_fault ha, hstage⟩

/-- The second one of two evaluations raises a fault. -/
theorem raises_bind {a : Eval α} {f : α → Eval β}
    (h : a.Ensures scene fun v scene => (f v).Raises scene e g) : (a >>= f).Raises scene e g := by
  obtain ⟨v, scene', ha, scene'', hf, hstage⟩ := h
  exact ⟨scene'', (bind_of_done ha).trans hf, hstage⟩

/-- The first round of a loop raises a fault. -/
theorem Raises.forEach {body : Value → Eval Flow} {v : Value} (h : (body v).Raises scene e g)
    (values : List Value) : (forEach body (v :: values)).Raises scene e g := h.bind _

theorem Raises.repeatWhile {test : Eval Bool} {body : Eval Flow}
    (h : test.Ensures scene fun truth scene => truth = true ∧ body.Raises scene e g) (fuel : Nat) :
    (repeatWhile test body (fuel + 1)).Raises scene e g := by
  refine raises_bind (h.imp ?_)
  rintro _ scene' ⟨rfl, hbody⟩
  exact hbody.bind _

/-- An evaluation in a scope of its own raises a fault. -/
theorem raises_inCall {a : Eval α} {locals : Bindings} :
    (inCall locals a).Raises scene e g ↔ a.Raises (scene.setLocals locals) e g := by
  unfold Raises inCall Scene.setLocals
  cases a { scene with locals := locals } <;> simp

end Eval

open Labyrinth.Eval

variable {definitions : List Definition} {maxCalls fuel depth : Nat} {d : Definition}
  {args : List Value} {scene : Scene} {e : Fault} {g : Stage}

/-- The first one of several statements raises a fault. -/
theorem Eval.Raises.execAll {setting : Setting} {stmt : Stmt}
    (h : (stmt.exec setting).Raises scene e g) (rest : List Stmt) :
    (Stmt.execAll setting (stmt :: rest)).Raises scene e g := h.bind _

/-- The last ones of several statements raise a fault. -/
theorem Eval.Raises.append {setting : Setting} {stmts rest : List Stmt} {scene' : Scene}
    (hdone : Stmt.execAll setting stmts scene = .done .next scene')
    (h : (Stmt.execAll setting rest).Raises scene' e g) :
    (Stmt.execAll setting (stmts ++ rest)).Raises scene e g := by
  obtain ⟨scene'', hrest, hstage⟩ := h
  exact ⟨scene'', (Stmt.execAll_append_of_done hdone rest).trans hrest, hstage⟩

/-- No more calls may lie in each other. -/
theorem raises_callAt_of_le (hargs : d.params.length = args.length) (hdepth : maxCalls ≤ depth) :
    (callAt definitions maxCalls (fuel + 1) depth d args).Raises scene .recursionDepth
      scene.stage := by
  rw [callAt, if_neg (not_not_intro hargs), if_pos hdepth]
  exact ⟨scene, rfl, rfl⟩

/-- The body of a function raises a fault. -/
theorem Eval.Raises.callAt (hargs : d.params.length = args.length) (hdepth : depth < maxCalls)
    (h : (Stmt.execAll (settingAt definitions maxCalls fuel (depth + 1)) d.body).Raises
      ((scene.setLocals []).bindAll (depth + 1) d.params args) e g) :
    (callAt definitions maxCalls (fuel + 1) depth d args).Raises scene e g := by
  rw [Labyrinth.callAt, if_neg (not_not_intro hargs), if_neg (Nat.not_le_of_lt hdepth),
    raises_inCall, Scene.setLocals_bindParams scene depth]
  exact h.bind _

/-- What a tree means whose execution raises a fault. -/
theorem evaluate_of_raises {program : List Stmt} {w final : World} {deeds : List Deed}
    (h : (Stmt.execAll (settingAt (Stmt.allDefinitions program) maxCalls fuel 0) program).Raises
      (.init w) e ⟨final, deeds⟩) :
    evaluate fuel maxCalls program w = some ⟨deeds, .faulted e, final⟩ := by
  obtain ⟨scene', hexec, hstage⟩ := h
  simp only [evaluate, hexec, hstage]

end Labyrinth
