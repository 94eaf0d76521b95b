/-!
# Computations that may fail

How the outcome of a **sequence** of computations follows from the outcomes of its parts, for
plain results and for results that come with a new state.

## Main results

* `bind_eq_ok_iff`, `bind_eq_error_iff`: when a sequence succeeds, and when it fails.
* `toOption_bind`, `toOption_map`: results without regard to the errors.
* `stateBind_eq_ok_iff`, `stateBind_eq_error_iff`: the same for computations with a state.
-/

namespace Labyrinth

variable {ε σ α β : Type}

@[simp]
theorem ok_bind (a : α) (f : α → Except ε β) : (Except.ok a >>= f) = f a := rfl

@[simp]
theorem error_bind (e : ε) (f : α → Except ε β) : (Except.error e >>= f) = Except.error e := rfl

theorem bind_eq_ok_iff {x : Except ε α} {f : α → Except ε β} {b : β} :
    x >>= f = .ok b ↔ ∃ a, x = .ok a ∧ f a = .ok b := by
  cases x with
  | error e => simp
  | ok a => simp

theorem map_eq_ok_iff {f : α → β} {x : Except ε α} {b : β} :
    x.map f = .ok b ↔ ∃ a, x = .ok a ∧ f a = b := by
  cases x with
  | error e => simp [Except.map]
  | ok a => simp [Except.map]

theorem bind_eq_error_iff {x : Except ε α} {f : α → Except ε β} {e : ε} :
    x >>= f = .error e ↔ x = .error e ∨ ∃ a, x = .ok a ∧ f a = .error e := by
  cases x with
  | error d => simp
  | ok a => simp

theorem toOption_bind (x : Except ε α) (f : α → Except ε β) :
    (x >>= f).toOption = x.toOption.bind fun a => (f a).toOption := by
  cases x with
  | error e => rfl
  | ok a => rfl

theorem toOption_map (f : α → β) (x : Except ε α) : (x.map f).toOption = x.toOption.map f := by
  cases x with
  | error e => rfl
  | ok a => rfl

theorem stateBind_eq (p : StateT σ (Except ε) α) (f : α → StateT σ (Except ε) β) (s : σ) :
    (p >>= f) s = (p s >>= fun r => f r.1 r.2) := rfl

theorem stateBind_eq_ok_iff {p : StateT σ (Except ε) α} {f : α → StateT σ (Except ε) β} {s : σ}
    {r : β × σ} : (p >>= f) s = .ok r ↔ ∃ a s', p s = .ok (a, s') ∧ f a s' = .ok r := by
  rw [stateBind_eq, bind_eq_ok_iff, Prod.exists]

theorem stateBind_eq_error_iff {p : StateT σ (Except ε) α} {f : α → StateT σ (Except ε) β}
    {s : σ} {e : ε} :
    (p >>= f) s = .error e ↔
      p s = .error e ∨ ∃ a s', p s = .ok (a, s') ∧ f a s' = .error e := by
  rw [stateBind_eq, bind_eq_error_iff, Prod.exists]

theorem stateBind_of_ok {p : StateT σ (Except ε) α} {f : α → StateT σ (Except ε) β} {s s' : σ}
    {a : α} (h : p s = .ok (a, s')) : (p >>= f) s = f a s' := by
  rw [stateBind_eq, h]
  rfl

theorem stateBind_of_error {p : StateT σ (Except ε) α} {f : α → StateT σ (Except ε) β} {s : σ}
    {e : ε} (h : p s = .error e) : (p >>= f) s = .error e := by
  rw [stateBind_eq, h]
  rfl

/-- What follows matters only for the results that there are. -/
theorem stateBind_congr {p : StateT σ (Except ε) α} {f g : α → StateT σ (Except ε) β} {s : σ}
    (h : ∀ a s', p s = .ok (a, s') → f a s' = g a s') : (p >>= f) s = (p >>= g) s := by
  rw [stateBind_eq, stateBind_eq]
  cases hr : p s with
  | error e => rfl
  | ok r => exact h r.1 r.2 hr

end Labyrinth
