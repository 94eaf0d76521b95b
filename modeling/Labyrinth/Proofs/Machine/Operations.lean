import Labyrinth.Machine.Methods
import Labyrinth.Proofs.Outcome

/-!
# Faults of the operations on values

The fault `stackUnderflow` is about the machine and not about the values on which a program
works: no **operation** on values stops with it.

## Main results

* `sound_builtin`, `sound_callMethod`, `sound_binary`: the operations of the instructions.
-/

namespace Labyrinth

/-- A computation that does not fail for want of operands. -/
def Sound {α : Type} (x : Except Fault α) : Prop := x ≠ .error .stackUnderflow

namespace Sound

variable {α β : Type}

theorem ok (a : α) : Sound (.ok a) := fun h => nomatch h

theorem pure (a : α) : Sound (Pure.pure a) := ok a

theorem error {fault : Fault} (h : fault ≠ .stackUnderflow) :
    Sound (.error fault : Except Fault α) := fun heq => h (Except.error.inj heq)

theorem throw {fault : Fault} (h : fault ≠ .stackUnderflow) :
    Sound (MonadExcept.throw fault : Except Fault α) := error h

theorem bind {x : Except Fault α} {f : α → Except Fault β} (hx : Sound x) (hf : ∀ a, Sound (f a)) :
    Sound (x >>= f) := by
  intro h
  rcases bind_eq_error_iff.1 h with h | ⟨a, -, h⟩
  · exact hx h
  · exact hf a h

theorem map {x : Except Fault α} (f : α → β) (hx : Sound x) : Sound (f <$> x) := by
  rw [map_eq_pure_bind]
  exact bind hx fun a => pure (f a)

theorem mapM {f : α → Except Fault β} (hf : ∀ a, Sound (f a)) (as : List α) :
    Sound (as.mapM f) := by
  induction as with
  | nil => exact pure []
  | cons a as ih =>
    rw [List.mapM_cons]
    exact bind (hf a) fun b => bind ih fun bs => pure (b :: bs)

theorem ite {c : Prop} [Decidable c] {x y : Except Fault α} (hx : c → Sound x) (hy : ¬c → Sound y) :
    Sound (if c then x else y) := by
  split
  · exact hx ‹_›
  · exact hy ‹_›

end Sound

/-! ### Integers -/

namespace Integer

theorem sound_checked (n : Int) : Sound (checked n) :=
  .ite (fun _ => .ok _) fun _ => .error (by simp)

theorem sound_truncate (a b : Int64) : Sound (truncate a b) :=
  .ite (fun _ => .error (by simp)) fun _ => .bind (sound_checked _) fun _ => .pure _

theorem sound_quotient (a b : Int64) : Sound (quotient a b) :=
  .bind (sound_truncate a b) fun _ => .pure _

theorem sound_remainder (a b : Int64) : Sound (remainder a b) :=
  .bind (sound_truncate a b) fun _ => .pure _

end Integer

theorem sound_check (a : Arity) (callee : String) (given : Nat) : Sound (a.check callee given) :=
  .ite (fun _ => .ok _) fun _ => .error (by simp)

theorem sound_integerArgument (callee : String) (v : Value) : Sound (integerArgument callee v) := by
  unfold integerArgument
  split
  · exact .ok _
  · exact .error (by simp)

theorem sound_slot (index : Int64) (size : Nat) : Sound (slot index size) := by
  unfold slot
  split
  · exact .ok _
  · exact .error (by simp)

theorem sound_sequenceIndex (container : ValueType) (v : Value) :
    Sound (sequenceIndex container v) := by
  unfold sequenceIndex
  split
  · exact .ok _
  · exact .error (by simp)

namespace Heap

variable (h : Heap)

/-! ### Keys and equality -/

theorem sound_keyWithin (levels : Nat) (v : Value) : Sound (h.keyWithin levels v) := by
  induction levels generalizing v with
  | zero => exact .throw (by simp)
  | succ levels ih =>
    unfold keyWithin
    split
    iterate 4 exact .pure _
    · exact .bind (.mapM ih _) fun keys => .pure _
    · exact .throw (by simp)
    · exact .throw (by simp)

theorem sound_key (v : Value) : Sound (h.key v) := h.sound_keyWithin _ v

theorem sound_allEqual {eq : Value → Value → Except Fault Bool} (heq : ∀ x y, Sound (eq x y))
    (xs ys : List Value) : Sound (allEqual eq xs ys) := by
  fun_induction allEqual eq xs ys with
  | case1 x xs y ys ih => exact .bind (heq x y) fun b => .ite (fun _ => ih) fun _ => .pure _
  | case2 => exact .pure _

theorem sound_equalEntries {eq : Value → Value → Except Fault Bool} (heq : ∀ x y, Sound (eq x y))
    (xs ys : List (Key × Value)) : Sound (equalsWithin.equalEntries eq xs ys) := by
  fun_induction equalsWithin.equalEntries eq xs ys with
  | case1 => exact .pure _
  | case2 k x xs l y ys _ ih =>
    exact .bind (heq x y) fun b => .ite (fun _ => ih) fun _ => .pure _
  | case3 => exact .pure _

theorem sound_equalsWithin (levels : Nat) (x y : Value) : Sound (h.equalsWithin levels x y) := by
  induction levels generalizing x y with
  | zero => exact .throw (by simp)
  | succ levels ih =>
    unfold equalsWithin
    split
    iterate 4 exact .pure _
    · refine .ite (fun _ => .pure _) fun _ => .ite (fun _ => .pure _) fun _ => ?_
      exact sound_allEqual ih _ _
    · exact .pure _
    · refine .ite (fun _ => .pure _) fun _ => .ite (fun _ => .pure _) fun _ => ?_
      exact sound_equalEntries ih _ _
    · exact .pure _

theorem sound_equals (x y : Value) : Sound (h.equals x y) := h.sound_equalsWithin _ x y

theorem sound_indexOf? (needle : Value) (items : List Value) : Sound (h.indexOf? needle items) := by
  have hgo : ∀ i, Sound (indexOf?.go h needle i items) := by
    induction items with
    | nil => exact fun i => .pure _
    | cons item items ih =>
      exact fun i => .bind (h.sound_equals _ _) fun b => .ite (fun _ => .pure _) fun _ => ih _
  exact hgo 0

/-! ### Operators -/

theorem sound_order (op : BinaryOp) (x y : Value) : Sound (order op x y) := by
  unfold order
  split
  · exact .ok _
  · exact .ok _
  · exact .error (by simp [operandTypes])

theorem sound_arithmetic {f : Int64 → Int64 → Except Fault Int64} (hf : ∀ a b, Sound (f a b))
    (op : BinaryOp) (x y : Value) : Sound (arithmetic op f x y) := by
  unfold arithmetic
  split
  · exact .map _ (hf _ _)
  · exact .error (by simp [operandTypes])

theorem sound_unary (op : UnaryOp) (v : Value) : Sound (h.unary op v) := by
  unfold unary
  split
  · exact .ok _
  · exact .map _ (Integer.sound_checked _)
  · exact .error (by simp)

theorem sound_add (x y : Value) : Sound (h.add x y) := by
  unfold add
  split
  · exact .bind (Integer.sound_checked _) fun n => .pure _
  · exact .ok _
  · exact .ok _
  · exact .ok _
  · exact .error (by simp [operandTypes])

theorem sound_binary (op : BinaryOp) (x y : Value) : Sound (h.binary op x y) := by
  unfold binary
  split
  iterate 2 exact .bind (h.sound_equals x y) fun b => .pure _
  iterate 4 exact .bind (sound_order _ x y) fun o => .pure _
  · exact h.sound_add x y
  · exact .bind (sound_arithmetic (fun a b => Integer.sound_checked _) _ x y) fun v => .pure _
  · exact .bind (sound_arithmetic (fun a b => Integer.sound_checked _) _ x y) fun v => .pure _
  · exact .bind (sound_arithmetic Integer.sound_quotient _ x y) fun v => .pure _
  · exact .bind (sound_arithmetic Integer.sound_remainder _ x y) fun v => .pure _

/-! ### Collections -/

theorem missingKey_ne (v : Value) : h.missingKey v ≠ .stackUnderflow := by
  unfold missingKey
  split
  · simp
  · simp

theorem sound_elements (v : Value) : Sound (h.elements v) := by
  unfold elements
  split
  iterate 4 exact .ok _
  · exact .error (by simp)

theorem sound_loadIndex (object index : Value) : Sound (h.loadIndex object index) := by
  unfold loadIndex
  split
  · exact .bind (sound_sequenceIndex _ _) fun i => .bind (sound_slot _ _) fun k => .pure _
  · exact .bind (sound_sequenceIndex _ _) fun i => .bind (sound_slot _ _) fun k => .pure _
  · refine .bind (h.sound_key _) fun key => ?_
    split
    · exact .pure _
    · exact .throw (h.missingKey_ne _)
  · exact .error (by simp)

theorem sound_storeIndex (object index v : Value) : Sound (h.storeIndex object index v) := by
  unfold storeIndex
  split
  · exact .bind (sound_sequenceIndex _ _) fun i => .bind (sound_slot _ _) fun k => .pure _
  · exact .bind (h.sound_key _) fun key => .pure _
  · exact .error (by simp)

theorem sound_loadAttribute (object : Value) (name : String) :
    Sound (h.loadAttribute object name) := by
  unfold loadAttribute
  split
  · split
    · exact .ok _
    · exact .error (h.missingKey_ne _)
  · exact .error (by simp)

theorem sound_insertAll (members : KeySet) (vs : List Value) : Sound (h.insertAll members vs) := by
  induction vs generalizing members with
  | nil => exact .ok _
  | cons v vs ih => exact .bind (h.sound_key v) fun key => ih _

theorem sound_bindAll (entries : KeyMap) (pairs : List Value) :
    Sound (h.bindAll entries pairs) := by
  induction pairs generalizing entries with
  | nil => exact .ok _
  | cons pair pairs ih =>
    unfold bindAll
    split
    · cases ‹_›
    · rename_i heq
      cases heq
      split
      · exact .bind (h.sound_key _) fun key => ih _
      · exact .error (by simp)
    · exact .error (by simp)

theorem sound_buildSet (source : Value) : Sound (h.buildSet source) := by
  unfold buildSet
  split
  · exact .ok _
  · exact .bind (h.sound_elements _) fun r => .bind (r.2.sound_insertAll _ _) fun members => .pure _

theorem sound_buildMap (source : Value) : Sound (h.buildMap source) := by
  unfold buildMap
  split
  · exact .ok _
  · exact .bind (h.sound_elements _) fun r => .bind (r.2.sound_bindAll _ _) fun entries => .pure _

/-! ### Built-in functions -/

theorem sound_progression (step : Int) (count : Nat) (member : Int) (items : Array Value) :
    Sound (progression step count member items) := by
  induction count generalizing member items with
  | zero => exact .ok _
  | succ count ih => exact .bind (Integer.sound_checked _) fun n => ih _ _

theorem sound_range (start stop step : Int64) : Sound (h.range start stop step) :=
  .ite (fun _ => .error (by simp)) fun _ => .ite (fun _ => .error (by simp)) fun _ =>
    .bind (sound_progression _ _ _ _) fun _ => .pure _

theorem sound_length (v : Value) : Sound (h.length v) := by
  unfold length
  split
  iterate 4 exact .ok _
  · exact .error (by simp)

theorem sound_extreme (better : Ordering → Bool) (best : Value) (vs : List Value) :
    Sound (extreme better best vs) := by
  induction vs generalizing best with
  | nil => exact .ok _
  | cons v vs ih => exact .bind (sound_order _ _ _) fun o => .ite (fun _ => ih _) fun _ => ih _

theorem sound_extremeOf (function : Builtin) (better : Ordering → Bool) (args : List Value) :
    Sound (h.extremeOf function better args) := by
  unfold extremeOf
  refine .bind (sound_check _ _ _) fun _ => ?_
  split
  · refine .bind (h.sound_elements _) fun ⟨values, h⟩ => ?_
    cases values with
    | nil => exact .throw (by simp)
    | cons v vs => exact .bind (sound_extreme _ _ _) fun v => .pure _
  · refine .bind (.pure _) fun ⟨values, h⟩ => ?_
    cases values with
    | nil => exact .throw (by simp)
    | cons v vs => exact .bind (sound_extreme _ _ _) fun v => .pure _

/-- No built-in function fails for want of operands. -/
theorem sound_builtin (function : Builtin) (args : List Value) :
    Sound (h.builtin function args) := by
  unfold builtin
  split
  · exact .bind (h.sound_length _) fun v => .pure _
  · exact .error (by simp)
  · exact .ok _
  · exact .error (by simp)
  · refine .bind (sound_check _ _ _) fun _ => .bind (.mapM (sound_integerArgument _) _) fun ns => ?_
    split
    · exact h.sound_range _ _ _
    · exact h.sound_range _ _ _
    · exact h.sound_range _ _ _
    · exact .pure _
  · refine .bind (sound_integerArgument _ _) fun n => ?_
    exact .bind (Integer.sound_checked _) fun m => .pure _
  · exact .error (by simp)
  · exact h.sound_extremeOf _ _ _
  · exact h.sound_extremeOf _ _ _
  · exact .ok _

/-! ### Methods -/

theorem sound_listMethod (a : Nat) (m : Method) (args : List Value) :
    Sound (h.listMethod a m args) := by
  unfold listMethod
  split
  · exact .ok _
  · split
    · exact .ok _
    · exact .error (by simp)
  · split
    · exact .ok _
    · exact .error (by simp)
  · exact .ok _
  · exact .bind (h.sound_indexOf? _ _) fun i => .pure _
  · refine .bind (h.sound_indexOf? _ _) fun i => ?_
    split
    · exact .pure _
    · exact .pure _
  · refine .bind (h.sound_indexOf? _ _) fun i => ?_
    split
    · exact .pure _
    · exact .throw (by simp)
  · refine .bind (h.sound_indexOf? _ _) fun i => ?_
    split
    · exact .pure _
    · exact .pure _
  · exact .ok _
  · exact .error (by simp)

theorem sound_setMethod (a : Nat) (m : Method) (args : List Value) :
    Sound (h.setMethod a m args) := by
  unfold setMethod
  split
  · exact .bind (h.sound_key _) fun key => .pure _
  · exact .bind (h.sound_key _) fun key => .pure _
  · refine .bind (h.sound_key _) fun key => .ite (fun _ => .pure _) fun _ => .throw (by simp)
  · exact .bind (h.sound_key _) fun key => .pure _
  · exact .ok _
  · exact .error (by simp)

theorem sound_getOr (a : Nat) (key fallback : Value) : Sound (h.getOr a key fallback) :=
  .bind (h.sound_key _) fun _ => .pure _

theorem sound_mapMethod (a : Nat) (m : Method) (args : List Value) :
    Sound (h.mapMethod a m args) := by
  unfold mapMethod
  split
  · exact .bind (h.sound_getOr _ _ _) fun v => .pure _
  · exact .bind (h.sound_getOr _ _ _) fun v => .pure _
  · exact .bind (h.sound_key _) fun key => .pure _
  · exact .bind (h.sound_key _) fun key => .pure _
  · refine .bind (h.sound_key _) fun key => .ite (fun _ => .pure _) fun _ => ?_
    exact .throw (h.missingKey_ne _)
  · exact .bind (h.sound_key _) fun key => .pure _
  · exact .ok _
  · exact .ok _
  · exact .ok _
  · exact .error (by simp)

theorem sound_strMethod (s : String) (m : Method) (args : List Value) :
    Sound (strMethod s m args) := by
  unfold strMethod
  split
  · exact .ok _
  · split
    · exact .ok _
    · exact .ok _
  · exact .error (by simp)
  · exact .error (by simp)

/-- No method fails for want of operands. -/
theorem sound_callMethod (receiver : Value) (m : Method) (args : List Value) :
    Sound (h.callMethod receiver m args) := by
  unfold callMethod
  split
  · exact .error (by simp)
  · refine .bind (sound_check _ _ _) fun _ => ?_
    split
    · exact h.sound_listMethod _ _ _
    · exact h.sound_setMethod _ _ _
    · exact h.sound_mapMethod _ _ _
    · exact .bind (sound_strMethod _ _ _) fun v => .pure _
    · exact .throw (by simp)

end Heap

end Labyrinth
