import Labyrinth.Proofs.Machine.Evaluation

/-!
# Steps of the machine

The machine **follows** an evaluation if it does, step by step, what the evaluation does: where the
evaluation comes to a value, the machine comes to a state that is described by a postcondition;
where it raises a fault, the machine comes to an instruction that raises it; and where it times out,
the machine takes as many steps as there is fuel at least. In all cases both have done the same to
the stage.

## Main results

* `Follows.bind`: one evaluation after the other.
* `Steps.trans`: one run of the machine after the other.
-/

namespace Labyrinth

section Steps

variable (code : Code) (maxCalls : Nat)

/-- The machine takes so many steps from one state and stage to another. -/
inductive Steps : Nat → State → Stage → State → Stage → Prop
  | refl (st : State) (g : Stage) : Steps 0 st g st g
  | step {n : Nat} {st st' st'' : State} {g g'' : Stage} {effect : Effect} :
    st.next code maxCalls g.world = .ok (effect, st') → effect ≠ .halt →
      Steps n st' (g.apply effect) st'' g'' → Steps (n + 1) st g st'' g''

/-- The machine follows an evaluation from a state. -/
def Follows {α : Type} (fuel : Nat) (st : State) (scene : Scene) (a : Eval α)
    (post : α → Scene → State → Prop) : Prop :=
  match a scene with
  | .done v scene' =>
    ∃ n st', Steps code maxCalls n st scene.stage st' scene'.stage ∧ post v scene' st'
  | .fault f scene' =>
    ∃ n st', Steps code maxCalls n st scene.stage st' scene'.stage ∧
      st'.next code maxCalls scene'.stage.world = .error f
  | .timeout => ∃ n st' g, fuel ≤ n ∧ Steps code maxCalls n st scene.stage st' g

end Steps

variable {code : Code} {maxCalls : Nat}

namespace Steps

variable {m n : Nat} {st st' st'' : State} {g g' g'' : Stage}

theorem single {e : Effect} (h : st.next code maxCalls g.world = .ok (e, st'))
    (heffect : e ≠ .halt) : Steps code maxCalls 1 st g st' (g.apply e) :=
  .step h heffect (.refl _ _)

theorem trans (h : Steps code maxCalls m st g st' g') (h' : Steps code maxCalls n st' g' st'' g'') :
    Steps code maxCalls (m + n) st g st'' g'' := by
  induction h with
  | refl => rwa [Nat.zero_add]
  | step hnext heffect _ ih =>
    rw [Nat.add_right_comm]
    exact .step hnext heffect (ih h')

end Steps

namespace Follows

variable {α β : Type} {fuel : Nat} {st : State} {scene : Scene} {a : Eval α}
  {post : α → Scene → State → Prop} {post' : β → Scene → State → Prop}

theorem pure {v : α} (h : post v scene st) :
    Follows code maxCalls fuel st scene (Pure.pure v) post := ⟨0, st, .refl _ _, h⟩

theorem timeout : Follows code maxCalls 0 st scene Eval.timeout post :=
  ⟨0, st, scene.stage, Nat.zero_le _, .refl _ _⟩

/-- The machine raises the fault. -/
theorem fail {f : Fault} (h : st.next code maxCalls scene.stage.world = .error f) :
    Follows code maxCalls fuel st scene (Eval.fail f) post := ⟨0, st, .refl _ _, h⟩

/-- Less is demanded of the machine. -/
theorem mono {fuel' : Nat} {post₁ : α → Scene → State → Prop}
    (h : Follows code maxCalls fuel st scene a post) (hfuel : fuel' ≤ fuel)
    (hpost : ∀ v scene' st', post v scene' st' → post₁ v scene' st') :
    Follows code maxCalls fuel' st scene a post₁ := by
  unfold Follows at h ⊢
  cases ha : a scene with
  | done v scene' =>
    rw [ha] at h
    obtain ⟨n, st', hsteps, hv⟩ := h
    exact ⟨n, st', hsteps, hpost v scene' st' hv⟩
  | fault f scene' =>
    rw [ha] at h
    exact h
  | timeout =>
    rw [ha] at h
    obtain ⟨n, st', g, hn, hsteps⟩ := h
    exact ⟨n, st', g, Nat.le_trans hfuel hn, hsteps⟩

theorem congr {b : Eval α} (hab : a scene = b scene)
    (h : Follows code maxCalls fuel st scene b post) :
    Follows code maxCalls fuel st scene a post := by
  unfold Follows at h ⊢
  rwa [hab]

/-- The machine takes steps that change nothing on the stage before it follows. -/
theorem after {n : Nat} {st' : State}
    (hsteps : Steps code maxCalls n st scene.stage st' scene.stage)
    (h : Follows code maxCalls fuel st' scene a post) :
    Follows code maxCalls (fuel + n) st scene a post := by
  unfold Follows at h ⊢
  cases ha : a scene with
  | done v scene' =>
    rw [ha] at h
    obtain ⟨m, st'', hsteps', hv⟩ := h
    exact ⟨n + m, st'', hsteps.trans hsteps', hv⟩
  | fault f scene' =>
    rw [ha] at h
    obtain ⟨m, st'', hsteps', hnext⟩ := h
    exact ⟨n + m, st'', hsteps.trans hsteps', hnext⟩
  | timeout =>
    rw [ha] at h
    obtain ⟨m, st'', g, hm, hsteps'⟩ := h
    exact ⟨n + m, st'', g, by omega, hsteps.trans hsteps'⟩

/-- One evaluation after the other. -/
theorem bind {f : α → Eval β} (h : Follows code maxCalls fuel st scene a post)
    (hf : ∀ v scene' st', post v scene' st' →
      Follows code maxCalls fuel st' scene' (f v) post') :
    Follows code maxCalls fuel st scene (a >>= f) post' := by
  unfold Follows at h ⊢
  cases ha : a scene with
  | done v scene' =>
    rw [ha] at h
    obtain ⟨n, st', hsteps, hv⟩ := h
    have hthen := hf v scene' st' hv
    unfold Follows at hthen
    rw [Eval.bind_of_done ha]
    cases hfv : f v scene' with
    | done w scene'' =>
      rw [hfv] at hthen
      obtain ⟨m, st'', hsteps', hw⟩ := hthen
      exact ⟨n + m, st'', hsteps.trans hsteps', hw⟩
    | fault e scene'' =>
      rw [hfv] at hthen
      obtain ⟨m, st'', hsteps', hnext⟩ := hthen
      exact ⟨n + m, st'', hsteps.trans hsteps', hnext⟩
    | timeout =>
      rw [hfv] at hthen
      obtain ⟨m, st'', g, hm, hsteps'⟩ := hthen
      exact ⟨n + m, st'', g, Nat.le_trans hm (Nat.le_add_left _ _), hsteps.trans hsteps'⟩
  | fault e scene' =>
    rw [ha] at h
    rw [Eval.bind_of_fault ha]
    exact h
  | timeout =>
    rw [ha] at h
    rw [Eval.bind_of_timeout ha]
    exact h

/-- An evaluation that comes to a value within one step. -/
theorem of_done {v : α} {scene' : Scene} {st' : State} {e : Effect}
    (ha : a scene = .done v scene') (hstage : scene'.stage = scene.stage.apply e)
    (hnext : st.next code maxCalls scene.stage.world = .ok (e, st'))
    (heffect : e ≠ .halt) (hv : post v scene' st') :
    Follows code maxCalls fuel st scene a post := by
  unfold Follows
  rw [ha]
  refine ⟨1, st', ?_, hv⟩
  rw [hstage]
  exact .single hnext heffect

/-- An evaluation that raises a fault at once. -/
theorem of_fault {f : Fault} {scene' : Scene} (ha : a scene = .fault f scene')
    (hstage : scene'.stage = scene.stage)
    (hnext : st.next code maxCalls scene.stage.world = .error f) :
    Follows code maxCalls fuel st scene a post := by
  unfold Follows
  rw [ha]
  refine ⟨0, st, ?_, ?_⟩
  · rw [hstage]
    exact .refl _ _
  · rw [hstage]
    exact hnext

end Follows

end Labyrinth
