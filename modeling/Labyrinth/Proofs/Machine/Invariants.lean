import Labyrinth.Proofs.Machine.Footprints
import Labyrinth.Proofs.Machine.Steps
import Labyrinth.Proofs.Outcome

/-!
# Invariants of the position and of the heap

An instruction reaches the heap only through a few operations: it goes through the elements of a
value, allocates a list or a position, builds or changes a collection, or calls a built-in function
or a method. It reaches the position only through a jump, unless it calls or returns. So a property
of both is preserved by an instruction if it is preserved by its jump and by these operations.

What each of the operations preserves holds of the heap at every moment of a run, of any code and in
any world. Calls and returns leave the heap alone.

## Main results

* `Action.Maintains.execute`: what a jump and all operations preserve is preserved by an
  instruction.
* `Heap.Invariant.execute`: what all operations preserve is preserved by an instruction, whatever it
  does to the position.
* `Heap.Invariant.steps`: it is then preserved by a run.
-/

namespace Labyrinth

open Labyrinth.Action

/-- A computation, if it has a result, leaves a heap with a property. -/
def LeavesHeap {α : Type} (P : Heap → Prop) (x : Except Fault (α × Heap)) : Prop :=
  ∀ v h, x = .ok (v, h) → P h

namespace LeavesHeap

variable {α β : Type} {P : Heap → Prop} {h : Heap}

theorem ok {v : α} (hh : P h) : LeavesHeap P (.ok (v, h)) := by
  intro w h' heq
  cases heq
  exact hh

theorem pure {v : α} (hh : P h) : LeavesHeap P (Pure.pure (v, h)) := ok hh

theorem error (fault : Fault) : LeavesHeap P (.error fault : Except Fault (α × Heap)) :=
  fun _ _ heq => nomatch heq

theorem throw (fault : Fault) : LeavesHeap P (MonadExcept.throw fault : Except Fault (α × Heap)) :=
  error fault

theorem bind {x : Except Fault β} {f : β → Except Fault (α × Heap)}
    (hf : ∀ b, x = .ok b → LeavesHeap P (f b)) : LeavesHeap P (x >>= f) := by
  intro v h' heq
  obtain ⟨b, hb, heq⟩ := bind_eq_ok_iff.1 heq
  exact hf b hb v h' heq

theorem ite {c : Prop} [Decidable c] {x y : Except Fault (α × Heap)} (hx : LeavesHeap P x)
    (hy : LeavesHeap P y) : LeavesHeap P (if c then x else y) := by
  split
  · exact hx
  · exact hy

end LeavesHeap

/-- A property of heaps that all operations of a program preserve. -/
structure Heap.Invariant (P : Heap → Prop) : Prop where
  allocList : ∀ {h : Heap} (items : Array Value), P h → P (h.allocList items).2
  allocPosition : ∀ {h : Heap} (w : World), P h → P (h.allocMap (positionMap w)).2
  elements : ∀ {h : Heap} (v : Value), P h → LeavesHeap P (h.elements v)
  storeIndex : ∀ {h h' : Heap} {object index v : Value}, P h →
    h.storeIndex object index v = .ok h' → P h'
  buildSet : ∀ {h : Heap} (source : Value), P h → LeavesHeap P (h.buildSet source)
  buildMap : ∀ {h : Heap} (source : Value), P h → LeavesHeap P (h.buildMap source)
  binary : ∀ {h : Heap} (op : BinaryOp) (x y : Value), P h → LeavesHeap P (h.binary op x y)
  builtin : ∀ {h : Heap} (function : Builtin) (args : List Value), P h →
    LeavesHeap P (h.builtin function args)
  callMethod : ∀ {h : Heap} (receiver : Value) (m : Method) (args : List Value), P h →
    LeavesHeap P (h.callMethod receiver m args)

/-- A property that does not hold of any heap in particular. -/
theorem Heap.Invariant.const (p : Prop) : Heap.Invariant fun _ => p where
  allocList _ := id
  allocPosition _ := id
  elements _ hp _ _ _ := hp
  storeIndex hp _ := hp
  buildSet _ hp _ _ _ := hp
  buildMap _ hp _ _ _ := hp
  binary _ _ _ hp _ _ _ := hp
  builtin _ _ hp _ _ _ := hp
  callMethod _ _ _ hp _ _ _ := hp

/-- An action preserves a property of the position and the heap. -/
def Action.Maintains {α : Type} (P : Nat → Heap → Prop) (a : Action α) : Prop :=
  ∀ st v st', a st = .ok (v, st') → P st.position st.heap → P st'.position st'.heap

namespace Action.Maintains

variable {α β : Type} {P : Nat → Heap → Prop}

theorem bind {a : Action α} {f : α → Action β} (ha : a.Maintains P) (hf : ∀ v, (f v).Maintains P) :
    (a >>= f).Maintains P := by
  intro st w st'' h hst
  obtain ⟨v, st', hv, h⟩ := stateBind_eq_ok_iff.1 h
  exact hf v st' w st'' h (ha st v st' hv hst)

/-- An action that leaves the position and the heap alone. -/
theorem of_eq {a : Action α} (h : ∀ st v st', a st = .ok (v, st') →
    st'.position = st.position ∧ st'.heap = st.heap) : a.Maintains P := by
  intro st v st' hv hst
  obtain ⟨hposition, hheap⟩ := h st v st' hv
  rwa [hposition, hheap]

theorem pure (v : α) : (Pure.pure v : Action α).Maintains P :=
  .of_eq fun _ _ _ h => by cases h; exact ⟨rfl, rfl⟩

theorem fail (fault : Fault) : (Action.fail fault : Action α).Maintains P :=
  fun _ _ _ h => nomatch h

theorem ite {c : Prop} [Decidable c] {a b : Action α} (ha : a.Maintains P) (hb : b.Maintains P) :
    (if c then a else b).Maintains P := by
  split
  · exact ha
  · exact hb

theorem lift (x : Except Fault α) : (liftM x : Action α).Maintains P := by
  refine .of_eq fun st v st' h => ?_
  obtain ⟨w, -, h⟩ := bind_eq_ok_iff.1 h
  cases h
  exact ⟨rfl, rfl⟩

theorem get : (MonadState.get : Action State).Maintains P :=
  .of_eq fun _ _ _ h => by cases h; exact ⟨rfl, rfl⟩

/-! ### Operands -/

theorem push (v : Value) : (Action.push v).Maintains P :=
  .of_eq fun _ _ _ h => by cases h; exact ⟨rfl, rfl⟩

theorem pop : Action.pop.Maintains P := by
  refine .of_eq fun ⟨position, stack, heap, globals, calls⟩ v st' h => ?_
  simp only [Action.pop] at h
  split at h
  · cases h
    exact ⟨rfl, rfl⟩
  · cases h

theorem popMany (count : Nat) : (Action.popMany count).Maintains P := by
  refine .of_eq fun ⟨position, stack, heap, globals, calls⟩ v st' h => ?_
  simp only [Action.popMany] at h
  split at h
  · cases h
    exact ⟨rfl, rfl⟩
  · cases h

theorem pushAll (values : List Value) : (values.forM Action.push).Maintains P := by
  induction values with
  | nil => exact .pure _
  | cons v values ih => exact .bind (push v) fun _ => ih

theorem topTruth : Action.topTruth.Maintains P := by
  refine .bind get fun st => ?_
  split
  · exact .pure _
  · exact .fail _

theorem duplicatePair : Action.duplicatePair.Maintains P := by
  refine .of_eq fun ⟨position, stack, heap, globals, calls⟩ v st' h => ?_
  simp only [Action.duplicatePair] at h
  split at h
  · cases h
    exact ⟨rfl, rfl⟩
  · cases h

theorem line (values : List Value) : (Action.line values).Maintains P := .bind get fun _ => .pure _

/-! ### Heaps -/

theorem compute {f : Heap → Except Fault (Value × Heap)}
    (hf : ∀ {position h}, P position h → LeavesHeap (P position) (f h)) :
    (Action.compute f).Maintains P := by
  intro st u st' h hst
  obtain ⟨⟨v, heap⟩, hv, h⟩ := bind_eq_ok_iff.1 h
  cases h
  exact hf hst v heap hv

theorem inspect (f : Heap → Except Fault Value) : (Action.inspect f).Maintains P :=
  compute fun hst => .bind fun _ _ => .pure hst

theorem change {f : Heap → Except Fault Heap}
    (hf : ∀ {position h h'}, P position h → f h = .ok h' → P position h') :
    (Action.change f).Maintains P := by
  intro st u st' h hst
  obtain ⟨heap, hheap, h⟩ := bind_eq_ok_iff.1 h
  cases h
  exact hf hst hheap

/-! ### Scopes -/

theorem changeScope (f : Scope → Scope) : (Action.changeScope f).Maintains P := by
  refine .of_eq fun ⟨position, stack, heap, globals, calls⟩ v st' h => ?_
  simp only [Action.changeScope] at h
  split at h
  · cases h
    exact ⟨rfl, rfl⟩
  · cases h
    exact ⟨rfl, rfl⟩

theorem changeGlobals (f : Scope → Scope) : (Action.changeGlobals f).Maintains P :=
  .of_eq fun _ _ _ h => by cases h; exact ⟨rfl, rfl⟩

theorem load (x : String) : (Action.load x).Maintains P := by
  refine .bind get fun st => ?_
  split
  · exact push _
  · exact .fail _

theorem store (x : String) (v : Value) : (Action.store x v).Maintains P := by
  refine .bind get fun st => ?_
  split
  · exact .ite (.fail _) (changeScope _)
  · split
    · exact .ite (.fail _) (changeGlobals _)
    · exact .fail _

/-! ### Jumps -/

theorem jump {target : Nat} (hjump : ∀ {position h}, P position h → P target h) :
    (Action.jump target).Maintains P := by
  intro st v st' h hst
  cases h
  exact hjump hst

theorem next {exit : Nat} (hjump : ∀ {position h}, P position h → P exit h) :
    (Action.next exit).Maintains P := by
  refine .bind get fun st => ?_
  split
  · exact .bind (changeScope _) fun _ => push _
  · exact .bind (changeScope _) fun _ => jump hjump
  · exact .fail _

/-! ### Instructions -/

section Instructions

variable (hP : ∀ position, Heap.Invariant (P position))
include hP

theorem elements (v : Value) : (Action.elements v).Maintains P := by
  intro st vs st' h hst
  obtain ⟨⟨values, heap⟩, hvalues, h⟩ := bind_eq_ok_iff.1 h
  cases h
  exact (hP _).elements v hst vs heap hvalues

theorem capability (w : World) (c : Capability) (args : List Value) :
    (Action.capability w c args).Maintains P := by
  unfold Action.capability
  refine .bind (.lift _) fun _ => ?_
  split
  · exact .bind (push _) fun _ => .pure _
  · exact .bind (.lift _) fun _ => .bind (.lift _) fun _ => .bind (push _) fun _ => .pure _
  · exact .bind (.lift _) fun _ => .bind (.lift _) fun _ => .bind (push _) fun _ => .pure _
  · exact .bind (compute fun hst => .ok ((hP _).allocPosition w hst)) fun _ => .pure _

/-- What a jump and all operations preserve is preserved by every instruction but calls and
returns. -/
theorem execute (code : Code) (maxCalls : Nat) (w : World) {instr : Instr}
    (hjump : ∀ target, instr.target? = some target → ∀ {position h}, P position h → P target h)
    (htransfer : ¬instr.IsTransfer) : (instr.execute code maxCalls w).Maintains P := by
  cases instr with
  | push value => exact .bind (push _) fun _ => .pure _
  | load x => exact .bind (load x) fun _ => .pure _
  | declare x constant => exact .bind pop fun v => .bind (changeScope _) fun _ => .pure _
  | store x => exact .bind pop fun v => .bind (store x v) fun _ => .pure _
  | unpack count =>
    refine .bind pop fun v => .bind (elements hP v) fun values => ?_
    refine .ite (.bind (.fail _) fun _ => ?_) ?_
    · exact .bind (pushAll _) fun _ => .pure _
    · exact .bind (pushAll _) fun _ => .pure _
  | loadIndex => exact .bind pop fun _ => .bind pop fun _ => .bind (inspect _) fun _ => .pure _
  | storeIndex =>
    refine .bind pop fun _ => .bind pop fun _ => .bind pop fun _ => ?_
    exact .bind (change (hP _).storeIndex) fun _ => .pure _
  | duplicatePair => exact .bind duplicatePair fun _ => .pure _
  | loadAttribute x => exact .bind pop fun _ => .bind (inspect _) fun _ => .pure _
  | unary op => exact .bind pop fun _ => .bind (inspect _) fun _ => .pure _
  | binary op =>
    refine .bind pop fun _ => .bind pop fun _ => ?_
    exact .bind (compute ((hP _).binary _ _ _)) fun _ => .pure _
  | jump target => exact .bind (jump (hjump target rfl)) fun _ => .pure _
  | jumpIfFalse target =>
    refine .bind topTruth fun truth => .bind pop fun _ => .ite (.pure _) ?_
    exact .bind (jump (hjump target rfl)) fun _ => .pure _
  | jumpIfFalseElsePop target =>
    refine .bind topTruth fun truth => .ite ?_ ?_
    · exact .bind pop fun _ => .pure _
    · exact .bind (jump (hjump target rfl)) fun _ => .pure _
  | jumpIfTrueElsePop target =>
    refine .bind topTruth fun truth => .ite ?_ ?_
    · exact .bind (jump (hjump target rfl)) fun _ => .pure _
    · exact .bind pop fun _ => .pure _
  | buildList count =>
    refine .bind (popMany count) fun items => ?_
    exact .bind (compute fun hst => .ok ((hP _).allocList _ hst)) fun _ => .pure _
  | buildSet => exact .bind pop fun _ => .bind (compute ((hP _).buildSet _)) fun _ => .pure _
  | buildMap => exact .bind pop fun _ => .bind (compute ((hP _).buildMap _)) fun _ => .pure _
  | iterStart =>
    refine .bind pop fun v => .bind (elements hP v) fun values => ?_
    exact .bind (changeScope _) fun _ => .pure _
  | iterNext exit => exact .bind (next (hjump exit rfl)) fun _ => .pure _
  | iterDrop => exact .bind (changeScope _) fun _ => .pure _
  | call function argc => exact absurd trivial htransfer
  | callUndefined x => exact .fail _
  | builtin function argc =>
    cases function with
    | print =>
      refine .bind (popMany argc) fun values => .bind (line values) fun text => ?_
      exact .bind (push _) fun _ => .pure _
    | _ => exact .bind (popMany argc) fun _ => .bind (compute ((hP _).builtin _ _)) fun _ => .pure _
  | method m argc =>
    refine .bind (popMany argc) fun _ => .bind pop fun _ => ?_
    exact .bind (compute ((hP _).callMethod _ _ _)) fun _ => .pure _
  | capability c argc => exact .bind (popMany argc) fun args => capability hP w c args
  | pop => exact .bind pop fun _ => .pure _
  | «return» => exact absurd trivial htransfer
  | throw => exact .bind pop fun v => .bind get fun _ => .fail _
  | halt => exact .pure _

end Instructions

end Action.Maintains

/-- An action preserves a property of the heap. -/
def Action.Preserves {α : Type} (P : Heap → Prop) (a : Action α) : Prop :=
  ∀ st v st', a st = .ok (v, st') → P st.heap → P st'.heap

namespace Heap.Invariant

variable {P : Heap → Prop} (hP : Heap.Invariant P)
include hP

/-- What all operations preserve is preserved by an instruction. -/
theorem execute (code : Code) (maxCalls : Nat) (w : World) (instr : Instr) :
    (instr.execute code maxCalls w).Preserves P := by
  by_cases htransfer : instr.IsTransfer
  · intro st effect st' h hst
    cases instr with
    | call function argc =>
      obtain ⟨-, -, -, f, args, -, rfl⟩ := execute_call_eq_ok h
      exact hst
    | «return» =>
      obtain ⟨-, v, calls, frame, -, -, rfl⟩ := execute_return_eq_ok h
      exact hst
    | _ => exact htransfer.elim
  · exact Action.Maintains.execute (fun _ => hP) code maxCalls w (fun _ _ _ _ h => h) htransfer

theorem next {code : Code} {maxCalls : Nat} {w : World} {st st' : State} {effect : Effect}
    (hnext : st.next code maxCalls w = .ok (effect, st')) (hst : P st.heap) : P st'.heap := by
  unfold State.next at hnext
  split at hnext
  · exact hP.execute code maxCalls w _ _ _ _ hnext hst
  · cases hnext
    exact hst

/-- What all operations preserve is preserved by a run. -/
theorem steps {code : Code} {maxCalls n : Nat} {st st' : State} {g g' : Stage}
    (hsteps : Steps code maxCalls n st g st' g') (hst : P st.heap) : P st'.heap := by
  induction hsteps with
  | refl => exact hst
  | step hnext _ _ ih => exact ih (hP.next hnext hst)

end Heap.Invariant

end Labyrinth
