import Labyrinth.Proofs.Machine.Fits
import Labyrinth.Proofs.Machine.Steps
import Mathlib.Data.List.Basic

/-!
# Contexts

The state of the machine consists of what an evaluation knows of, the scene, and of what only the
machine keeps: the callers, the iterators of the loops in progress and the operands. The latter are
the **context** of the evaluation. This module tells what every action does to a state that is
composed in this way.

## Main results

* `Context.state`: the state with a given context and scene.
* `Follows.compute`, `Follows.silent`: instructions that compute on the heap, and instructions that
  no evaluation notices.
-/

namespace Labyrinth

open Labyrinth.Action

/-- Where the innermost call comes from. -/
structure Caller where
  /-- The instruction with which the caller goes on. -/
  position : Nat
  /-- The calls in progress without the innermost one. -/
  calls : Array Frame
  /-- The iterators of the top level. -/
  globalIterators : List (List Value)

/-- What the machine keeps beside the scene. -/
structure Context where
  /-- The operands below the innermost call. -/
  below : Array Value
  /-- The iterators of the innermost scope. -/
  iterators : List (List Value)
  /-- The caller, if there is one. -/
  caller : Option Caller

namespace Context

/-- The number of calls in progress. -/
def depth (c : Context) : Nat :=
  match c.caller with
  | none => 0
  | some caller => caller.calls.size + 1

/-- The context with one more iterator. -/
def iterate (c : Context) (values : List Value) : Context :=
  { c with iterators := values :: c.iterators }

theorem iterators_iterate (c : Context) (values : List Value) :
    (c.iterate values).iterators = values :: c.iterators := rfl

/-- The state with a context and a scene. -/
def state (c : Context) (position : Nat) (stack : Array Value) (scene : Scene) : State :=
  match c.caller with
  | none => ⟨position, stack, scene.heap, ⟨scene.globals, c.iterators⟩, #[]⟩
  | some caller =>
    ⟨position, stack, scene.heap, ⟨scene.globals, caller.globalIterators⟩,
      caller.calls.push ⟨⟨scene.locals, c.iterators⟩, caller.position, c.below.size⟩⟩

/-- The state is at a position with given operands. -/
def At (c : Context) (position : Nat) (stack : Array Value) (scene : Scene) (st : State) : Prop :=
  st = c.state position stack scene

section Actions

variable {α : Type} (c : Context) (p : Nat) (stack : Array Value) (scene : Scene)

theorem state_position : (c.state p stack scene).position = p := by
  obtain ⟨below, iterators, _ | caller⟩ := c <;> rfl

theorem state_stack : (c.state p stack scene).stack = stack := by
  obtain ⟨below, iterators, _ | caller⟩ := c <;> rfl

theorem state_heap : (c.state p stack scene).heap = scene.heap := by
  obtain ⟨below, iterators, _ | caller⟩ := c <;> rfl

theorem state_calls_size : (c.state p stack scene).calls.size = c.depth := by
  obtain ⟨below, iterators, _ | caller⟩ := c
  · rfl
  · exact Array.size_push _

theorem state_lookup?_scope (x : String) :
    (c.state p stack scene).scope.lookup? x = (scene.scope c.depth).lookup x := by
  obtain ⟨below, iterators, _ | caller⟩ := c
  · rfl
  · simp [state, State.scope, Scene.scope, depth, Scope.lookup?]

theorem state_lookup?_globals (x : String) :
    (c.state p stack scene).globals.lookup? x = scene.globals.lookup x := by
  obtain ⟨below, iterators, _ | caller⟩ := c <;> rfl

theorem state_iterators : (c.state p stack scene).scope.iterators = c.iterators := by
  obtain ⟨below, iterators, _ | caller⟩ := c
  · rfl
  · simp [state, State.scope]

/-! ### Operands -/

theorem push_bind (v : Value) (f : Unit → Action α) :
    (push v >>= f) (c.state p stack scene) = f () (c.state p (stack.push v) scene) := by
  refine stateBind_of_ok ?_
  obtain ⟨below, iterators, _ | caller⟩ := c <;> rfl

theorem pop_bind (v : Value) (f : Value → Action α) :
    (pop >>= f) (c.state p (stack.push v) scene) = f v (c.state p stack scene) := by
  refine stateBind_of_ok ?_
  obtain ⟨below, iterators, _ | caller⟩ := c <;> simp [state, pop]

theorem popMany_bind (values : List Value) (f : List Value → Action α) :
    (popMany values.length >>= f) (c.state p (stack ++ values.toArray) scene) =
      f values (c.state p stack scene) := by
  refine stateBind_of_ok ?_
  obtain ⟨below, iterators, _ | caller⟩ := c <;> simp [state, popMany]

theorem topTruth_bind (v : Value) (f : Bool → Action α) :
    (topTruth >>= f) (c.state p (stack.push v) scene) =
      f (scene.heap.truthy v) (c.state p (stack.push v) scene) := by
  refine stateBind_of_ok ?_
  rw [topTruth, get_bind, state_stack, state_heap, Array.back?_push]
  rfl

theorem duplicatePair_bind (v w : Value) (f : Unit → Action α) :
    (duplicatePair >>= f) (c.state p ((stack.push v).push w) scene) =
      f () (c.state p ((((stack.push v).push w).push v).push w) scene) := by
  refine stateBind_of_ok ?_
  obtain ⟨below, iterators, _ | caller⟩ := c <;> simp [state, duplicatePair, Array.getElem_push]

theorem jump_bind (target : Nat) (f : Unit → Action α) :
    (jump target >>= f) (c.state p stack scene) = f () (c.state target stack scene) := by
  refine stateBind_of_ok ?_
  obtain ⟨below, iterators, _ | caller⟩ := c <;> rfl

theorem pushAll_bind (values : List Value) (f : Unit → Action α) :
    (values.forM push >>= f) (c.state p stack scene) =
      f () (c.state p (stack ++ values.toArray) scene) := by
  induction values generalizing stack with
  | nil => simp
  | cons v values ih =>
    have hcons : (v :: values).forM push = (push v >>= fun _ => values.forM push) := rfl
    rw [hcons, bind_assoc, push_bind, ih]
    simp

/-! ### The heap -/

theorem compute_bind_of_ok {g : Heap → Except Fault (Value × Heap)} {v : Value} {heap : Heap}
    (h : g scene.heap = .ok (v, heap)) (f : Unit → Action α) :
    (compute g >>= f) (c.state p stack scene) =
      f () (c.state p (stack.push v) { scene with heap := heap }) := by
  refine stateBind_of_ok ?_
  obtain ⟨below, iterators, _ | caller⟩ := c <;> simp only [state, compute, h] <;> rfl

theorem compute_bind_of_error {g : Heap → Except Fault (Value × Heap)} {e : Fault}
    (h : g scene.heap = .error e) (f : Unit → Action α) :
    (compute g >>= f) (c.state p stack scene) = .error e := by
  refine stateBind_of_error ?_
  obtain ⟨below, iterators, _ | caller⟩ := c <;> simp only [state, compute, h] <;> rfl

theorem change_bind_of_ok {g : Heap → Except Fault Heap} {heap : Heap}
    (h : g scene.heap = .ok heap) (f : Unit → Action α) :
    (change g >>= f) (c.state p stack scene) =
      f () (c.state p stack { scene with heap := heap }) := by
  refine stateBind_of_ok ?_
  obtain ⟨below, iterators, _ | caller⟩ := c <;> simp only [state, change, h] <;> rfl

theorem change_bind_of_error {g : Heap → Except Fault Heap} {e : Fault}
    (h : g scene.heap = .error e) (f : Unit → Action α) :
    (change g >>= f) (c.state p stack scene) = .error e := by
  refine stateBind_of_error ?_
  obtain ⟨below, iterators, _ | caller⟩ := c <;> simp only [state, change, h] <;> rfl

theorem elements_bind_of_ok {v : Value} {values : List Value} {heap : Heap}
    (h : scene.heap.elements v = .ok (values, heap)) (f : List Value → Action α) :
    (elements v >>= f) (c.state p stack scene) =
      f values (c.state p stack { scene with heap := heap }) := by
  refine stateBind_of_ok ?_
  obtain ⟨below, iterators, _ | caller⟩ := c <;> simp only [state, elements, h] <;> rfl

theorem elements_bind_of_error {v : Value} {e : Fault}
    (h : scene.heap.elements v = .error e) (f : List Value → Action α) :
    (elements v >>= f) (c.state p stack scene) = .error e := by
  refine stateBind_of_error ?_
  obtain ⟨below, iterators, _ | caller⟩ := c <;> simp only [state, elements, h] <;> rfl

/-! ### Scopes -/

theorem changeScope_bind (x : String) (b : Binding) :
    changeScope (·.bind x b) (c.state p stack scene) =
      .ok ((), c.state p stack (scene.bind c.depth x b)) := by
  obtain ⟨below, iterators, _ | caller⟩ := c
  · rfl
  · exact changeScope_push _ _ _ _ _ _ _

theorem changeGlobals_bind (x : String) (b : Binding) :
    changeGlobals (·.bind x b) (c.state p stack scene) =
      .ok ((), c.state p stack (scene.bind 0 x b)) := by
  obtain ⟨below, iterators, _ | caller⟩ := c <;> rfl

theorem changeScope_iterators (g : List (List Value) → List (List Value)) :
    changeScope (fun ⟨bindings, iterators⟩ => ⟨bindings, g iterators⟩) (c.state p stack scene) =
      .ok ((), ({ c with iterators := g c.iterators } : Context).state p stack scene) := by
  obtain ⟨below, iterators, _ | caller⟩ := c
  · rfl
  · exact changeScope_push _ _ _ _ _ _ _

end Actions

end Context

/-! ### Instructions -/

section Instructions

variable {code : Code} {maxCalls fuel : Nat} {c : Context} {p : Nat} {stack rest : Array Value}
  {scene : Scene} {instr : Instr}

theorem Context.next_state (h : code.instructions[p]? = some instr) (maxCalls : Nat) (c : Context)
    (stack : Array Value) (scene : Scene) (w : World) :
    (c.state p stack scene).next code maxCalls w =
      instr.execute code maxCalls w (c.state (p + 1) stack scene) := by
  unfold State.next
  rw [c.state_position, h]
  obtain ⟨below, iterators, _ | caller⟩ := c <;> rfl

namespace Follows

variable {α : Type} {a : Eval α} {post : α → Scene → State → Prop}

/-- An instruction that the evaluation does not notice. -/
theorem silent (h : code.instructions[p]? = some instr) {st : State}
    (hexec : instr.execute code maxCalls scene.stage.world (c.state (p + 1) stack scene) =
      .ok (.none, st)) (hthen : Follows code maxCalls fuel st scene a post) :
    Follows code maxCalls (fuel + 1) (c.state p stack scene) scene a post := by
  refine .after (.single (e := .none) ?_ nofun) hthen
  rw [Context.next_state h, hexec]

/-- The same where it does not matter that the instruction takes a step. -/
theorem silent_le (h : code.instructions[p]? = some instr) {st : State}
    (hexec : instr.execute code maxCalls scene.stage.world (c.state (p + 1) stack scene) =
      .ok (.none, st)) (hthen : Follows code maxCalls fuel st scene a post) :
    Follows code maxCalls fuel (c.state p stack scene) scene a post :=
  (silent h hexec hthen).mono (Nat.le_succ fuel) fun _ _ _ hv => hv

/-- An instruction that computes on the heap. -/
theorem compute (h : code.instructions[p]? = some instr) {f : Heap → Except Fault (Value × Heap)}
    (hexec : instr.execute code maxCalls scene.stage.world (c.state (p + 1) stack scene) =
      (Action.compute f >>= fun _ => Pure.pure .none) (c.state (p + 1) rest scene)) :
    Follows code maxCalls fuel (c.state p stack scene) scene (Eval.compute f) fun v =>
      c.At (p + 1) (rest.push v) := by
  cases hf : f scene.heap with
  | error e =>
    refine .of_fault (Eval.compute_of_error hf) rfl ?_
    rw [Context.next_state h, hexec, c.compute_bind_of_error _ _ _ hf]
  | ok r =>
    refine .of_done (e := .none) (Eval.compute_of_ok hf) rfl ?_ nofun rfl
    rw [Context.next_state h, hexec, c.compute_bind_of_ok _ _ _ hf]
    rfl

/-- An instruction that changes the heap. -/
theorem change (h : code.instructions[p]? = some instr) {f : Heap → Except Fault Heap}
    (hexec : instr.execute code maxCalls scene.stage.world (c.state (p + 1) stack scene) =
      (Action.change f >>= fun _ => Pure.pure .none) (c.state (p + 1) rest scene)) :
    Follows code maxCalls fuel (c.state p stack scene) scene (Eval.change f) fun _ =>
      c.At (p + 1) rest := by
  cases hf : f scene.heap with
  | error e =>
    have heval : (do return ((), ← f scene.heap) : Except Fault (Unit × Heap)) = .error e := by
      rw [hf]
      rfl
    refine .of_fault (Eval.compute_of_error heval) rfl ?_
    rw [Context.next_state h, hexec, c.change_bind_of_error _ _ _ hf]
  | ok heap =>
    have heval : (do return ((), ← f scene.heap) : Except Fault (Unit × Heap)) =
        .ok ((), heap) := by
      rw [hf]
      rfl
    refine .of_done (e := .none) (Eval.compute_of_ok heval) rfl ?_ nofun rfl
    rw [Context.next_state h, hexec, c.change_bind_of_ok _ _ _ hf]
    rfl

theorem binary {op : BinaryOp} {x y : Value} (h : code.instructions[p]? = some (.binary op)) :
    Follows code maxCalls fuel (c.state p ((rest.push x).push y) scene) scene
      (Eval.compute (Heap.binary op x y)) fun v => c.At (p + 1) (rest.push v) := by
  refine .compute h ?_
  rw [Instr.execute, c.pop_bind, c.pop_bind]

theorem loadIndex {o k : Value} (h : code.instructions[p]? = some .loadIndex) :
    Follows code maxCalls fuel (c.state p ((rest.push o).push k) scene) scene
      (Eval.inspect fun h => h.loadIndex o k) fun v => c.At (p + 1) (rest.push v) := by
  refine .compute h ?_
  rw [Instr.execute, c.pop_bind, c.pop_bind]
  rfl

theorem storeIndex {o k v : Value} (h : code.instructions[p]? = some .storeIndex) :
    Follows code maxCalls fuel (c.state p (((rest.push o).push k).push v) scene) scene
      (Eval.change (Heap.storeIndex o k v)) fun _ => c.At (p + 1) rest := by
  refine .change h ?_
  rw [Instr.execute, c.pop_bind, c.pop_bind, c.pop_bind]

/-! ### Names -/

theorem load {x : String} (h : code.instructions[p]? = some (.load x)) :
    Follows code maxCalls fuel (c.state p stack scene) scene (Eval.load c.depth x) fun v =>
      c.At (p + 1) (stack.push v) := by
  have hnext := Context.next_state h maxCalls c stack scene scene.stage.world
  simp only [Instr.execute, Action.load, bind_assoc, get_bind, c.state_lookup?_scope,
    c.state_lookup?_globals] at hnext
  cases hb : (scene.scope c.depth).lookup x <|> scene.globals.lookup x with
  | none =>
    have heval : Eval.load c.depth x scene = .fault (.undefined x) scene := by
      simp only [Eval.load, hb]
    refine .of_fault heval rfl ?_
    rw [hnext, hb]
    rfl
  | some b =>
    have heval : Eval.load c.depth x scene = .done b.value scene := by
      simp only [Eval.load, hb]
    refine .of_done (e := .none) heval rfl ?_ nofun rfl
    rw [hnext, hb]
    exact c.push_bind _ _ _ _ _

theorem declare {x : String} {constant : Bool} {v : Value}
    (h : code.instructions[p]? = some (.declare x constant)) :
    Follows code maxCalls fuel (c.state p (rest.push v) scene) scene
      (Eval.declare c.depth constant x v) fun _ => c.At (p + 1) rest := by
  have heval : Eval.declare c.depth constant x v scene =
      .done () (scene.bind c.depth x ⟨v, constant⟩) := rfl
  refine .of_done (e := .none) heval (scene.stage_bind _ _ _) ?_ nofun rfl
  rw [Context.next_state h]
  simp only [Instr.execute, c.pop_bind]
  exact stateBind_of_ok (c.changeScope_bind _ _ _ _ _)

theorem store {x : String} {v : Value} (h : code.instructions[p]? = some (.store x)) :
    Follows code maxCalls fuel (c.state p (rest.push v) scene) scene
      (Eval.store c.depth x v) fun _ => c.At (p + 1) rest := by
  have hnext := Context.next_state h maxCalls c (rest.push v) scene scene.stage.world
  simp only [Instr.execute, Action.store, bind_assoc, get_bind, c.pop_bind, c.state_lookup?_scope,
    c.state_lookup?_globals] at hnext
  have hdone : ∀ depth b, Eval.store c.depth x v scene = .done () (scene.bind depth x b) →
      (c.state p (rest.push v) scene).next code maxCalls scene.stage.world =
        .ok (.none, c.state (p + 1) rest (scene.bind depth x b)) →
      Follows code maxCalls fuel (c.state p (rest.push v) scene) scene (Eval.store c.depth x v)
        fun _ => c.At (p + 1) rest := fun depth b heval hnext =>
    .of_done (e := .none) heval (scene.stage_bind _ _ _) hnext nofun rfl
  have hfault : ∀ f, Eval.store c.depth x v scene = .fault f scene →
      (c.state p (rest.push v) scene).next code maxCalls scene.stage.world = .error f →
      Follows code maxCalls fuel (c.state p (rest.push v) scene) scene (Eval.store c.depth x v)
        fun _ => c.At (p + 1) rest := fun f heval hnext => .of_fault heval rfl hnext
  cases hlocal : (scene.scope c.depth).lookup x with
  | some b =>
    cases hconstant : b.constant with
    | true =>
      refine hfault (.constantAssignment x) ?_ ?_
      · simp only [Eval.store, hlocal, hconstant, if_true]
      · simp only [hnext, hlocal, hconstant, if_true]
        rfl
    | false =>
      refine hdone c.depth ⟨v, false⟩ ?_ ?_
      · simp only [Eval.store, hlocal, hconstant, Bool.false_eq_true, if_false]
      · simp only [hnext, hlocal, hconstant, Bool.false_eq_true, if_false]
        exact stateBind_of_ok (c.changeScope_bind _ _ _ _ _)
  | none =>
    cases hglobal : scene.globals.lookup x with
    | none =>
      refine hfault (.undeclared x) ?_ ?_
      · simp only [Eval.store, hlocal, hglobal]
      · simp only [hnext, hlocal, hglobal]
        rfl
    | some b =>
      cases hconstant : b.constant with
      | true =>
        refine hfault (.constantAssignment x) ?_ ?_
        · simp only [Eval.store, hlocal, hglobal, hconstant, if_true]
        · simp only [hnext, hlocal, hglobal, hconstant, if_true]
          rfl
      | false =>
        refine hdone 0 ⟨v, false⟩ ?_ ?_
        · simp only [Eval.store, hlocal, hglobal, hconstant, Bool.false_eq_true, if_false]
        · simp only [hnext, hlocal, hglobal, hconstant, Bool.false_eq_true, if_false]
          exact stateBind_of_ok (c.changeGlobals_bind _ _ _ _ _)

/-! ### Collections -/

/-- The elements of a value lie on the stack, the first one on top. -/
theorem unpack {count : Nat} {v : Value} (h : code.instructions[p]? = some (.unpack count)) :
    Follows code maxCalls fuel (c.state p (rest.push v) scene) scene (Eval.unpack count v)
      fun values scene' st => values.length = count ∧
        c.At (p + 1) (rest ++ values.reverse.toArray) scene' st := by
  have hnext := Context.next_state h maxCalls c (rest.push v) scene scene.stage.world
  simp only [Instr.execute, c.pop_bind] at hnext
  cases hv : scene.heap.elements v with
  | error e =>
    have heval : Eval.elements v scene = .fault e scene := Eval.compute_of_error hv
    refine .of_fault (Eval.bind_of_fault heval) rfl ?_
    rw [hnext, c.elements_bind_of_error _ _ _ hv]
  | ok r =>
    obtain ⟨values, heap⟩ := r
    have heval : Eval.elements v scene = .done values { scene with heap := heap } :=
      Eval.compute_of_ok hv
    rw [c.elements_bind_of_ok _ _ _ hv] at hnext
    by_cases hlength : values.length = count
    · have hunpack : Eval.unpack count v scene = .done values { scene with heap := heap } := by
        rw [Eval.unpack, Eval.bind_of_done heval, if_neg (by simpa using hlength)]
        rfl
      refine .of_done (e := .none) hunpack rfl ?_ nofun ⟨hlength, rfl⟩
      rw [hnext, if_neg (by simpa using hlength), c.pushAll_bind]
      rfl
    · have hunpack : Eval.unpack count v scene =
          .fault (.unpack count values.length) { scene with heap := heap } := by
        rw [Eval.unpack, Eval.bind_of_done heval, if_pos hlength]
        rfl
      refine .of_fault hunpack rfl ?_
      rw [hnext, if_pos hlength]
      rfl

/-- A loop begins with the elements that a collection has. -/
theorem iterStart {v : Value} (h : code.instructions[p]? = some .iterStart) :
    Follows code maxCalls fuel (c.state p (rest.push v) scene) scene (Eval.elements v)
      fun values => (c.iterate values).At (p + 1) rest := by
  have hnext := Context.next_state h maxCalls c (rest.push v) scene scene.stage.world
  simp only [Instr.execute, c.pop_bind] at hnext
  cases hv : scene.heap.elements v with
  | error e =>
    refine .of_fault (Eval.compute_of_error hv) rfl ?_
    rw [hnext, c.elements_bind_of_error _ _ _ hv]
  | ok r =>
    obtain ⟨values, heap⟩ := r
    refine .of_done (e := .none) (Eval.compute_of_ok hv) rfl ?_ nofun rfl
    rw [hnext, c.elements_bind_of_ok _ _ _ hv]
    exact stateBind_of_ok (c.changeScope_iterators _ _ _ (values :: ·))

/-! ### Conditions -/

/-- A condition decides where the machine goes on; this takes a step. -/
theorem branch {target : Nat} {v : Value} {f : Bool → Eval α}
    (h : code.instructions[p]? = some (.jumpIfFalse target))
    (htrue : Follows code maxCalls fuel (c.state (p + 1) rest scene) scene (f true) post)
    (hfalse : Follows code maxCalls fuel (c.state target rest scene) scene (f false) post) :
    Follows code maxCalls (fuel + 1) (c.state p (rest.push v) scene) scene (Eval.truth v >>= f)
      post := by
  have hexec : (Instr.jumpIfFalse target).execute code maxCalls scene.stage.world
      (c.state (p + 1) (rest.push v) scene) =
        .ok (.none, c.state (if scene.heap.truthy v then p + 1 else target) rest scene) := by
    simp only [Instr.execute, c.topTruth_bind, c.pop_bind]
    cases scene.heap.truthy v with
    | true => rfl
    | false => exact c.jump_bind _ _ _ _ _
  refine .congr (Eval.bind_of_done rfl) (.silent h hexec ?_)
  cases scene.heap.truthy v with
  | true => exact htrue
  | false => exact hfalse

/-- The same where it does not matter that the condition takes a step. -/
theorem branch_le {target : Nat} {v : Value} {f : Bool → Eval α}
    (h : code.instructions[p]? = some (.jumpIfFalse target))
    (htrue : Follows code maxCalls fuel (c.state (p + 1) rest scene) scene (f true) post)
    (hfalse : Follows code maxCalls fuel (c.state target rest scene) scene (f false) post) :
    Follows code maxCalls fuel (c.state p (rest.push v) scene) scene (Eval.truth v >>= f) post :=
  (branch h htrue hfalse).mono (Nat.le_succ fuel) fun _ _ _ hv => hv

theorem jumpIfFalseElsePop {target : Nat} {v : Value}
    (h : code.instructions[p]? = some (.jumpIfFalseElsePop target)) :
    Follows code maxCalls fuel (c.state p (rest.push v) scene) scene (Eval.truth v) fun b =>
      if b then c.At (p + 1) rest else c.At target (rest.push v) := by
  have hnext := Context.next_state h maxCalls c (rest.push v) scene scene.stage.world
  simp only [Instr.execute, c.topTruth_bind] at hnext
  cases htruth : scene.heap.truthy v with
  | true =>
    refine .of_done (e := .none) (v := true) ?_ rfl ?_ nofun rfl
    · rw [Eval.truth, htruth]
    · rw [hnext, htruth]
      exact c.pop_bind _ _ _ _ _
  | false =>
    refine .of_done (e := .none) (v := false) ?_ rfl ?_ nofun rfl
    · rw [Eval.truth, htruth]
    · rw [hnext, htruth]
      exact c.jump_bind _ _ _ _ _

theorem jumpIfTrueElsePop {target : Nat} {v : Value}
    (h : code.instructions[p]? = some (.jumpIfTrueElsePop target)) :
    Follows code maxCalls fuel (c.state p (rest.push v) scene) scene (Eval.truth v) fun b =>
      if b then c.At target (rest.push v) else c.At (p + 1) rest := by
  have hnext := Context.next_state h maxCalls c (rest.push v) scene scene.stage.world
  simp only [Instr.execute, c.topTruth_bind] at hnext
  cases htruth : scene.heap.truthy v with
  | true =>
    refine .of_done (e := .none) (v := true) ?_ rfl ?_ nofun rfl
    · rw [Eval.truth, htruth]
    · rw [hnext, htruth]
      exact c.jump_bind _ _ _ _ _
  | false =>
    refine .of_done (e := .none) (v := false) ?_ rfl ?_ nofun rfl
    · rw [Eval.truth, htruth]
    · rw [hnext, htruth]
      exact c.pop_bind _ _ _ _ _

/-! ### Effects -/

theorem print {values : List Value}
    (h : code.instructions[p]? = some (.builtin .print values.length)) :
    Follows code maxCalls fuel (c.state p (rest ++ values.toArray) scene) scene (printLine values)
      fun v => c.At (p + 1) (rest.push v) := by
  have hnext := Context.next_state h maxCalls c (rest ++ values.toArray) scene scene.stage.world
  simp only [Instr.execute, Action.line, bind_assoc, c.popMany_bind, get_bind, pure_bind,
    c.push_bind, c.state_heap] at hnext
  exact .of_done (e := .print (" ".intercalate (values.map scene.heap.display)))
    (v := .null) rfl rfl hnext nofun rfl

theorem length_of_check {n given : Nat} {callee : String} {u : Unit}
    (h : Arity.check (.exactly n) callee given = .ok u) : given = n := by
  unfold Arity.check at h
  split at h
  · exact Arity.admits_exactly.1 ‹_›
  · cases h

/-- A computation that may fail before an instruction does anything else. -/
theorem lift_bind {β : Type} {x : Except Fault β} {f : β → Eval α} {g : β → Action Effect}
    (hx : ∀ v, x = .ok v → (c.state p stack scene).next code maxCalls scene.stage.world =
        (g v) (c.state (p + 1) rest scene) →
      Follows code maxCalls fuel (c.state p stack scene) scene (f v) post)
    (hnext : (c.state p stack scene).next code maxCalls scene.stage.world =
      ((liftM x : Action β) >>= g) (c.state (p + 1) rest scene)) :
    Follows code maxCalls fuel (c.state p stack scene) scene (Eval.lift x >>= f) post := by
  cases x with
  | error e => exact .of_fault (Eval.bind_of_fault rfl) rfl hnext
  | ok v => exact hx v rfl hnext

/-- An operation on the maze. -/
theorem perform {capability : Capability} {args : List Value}
    (h : code.instructions[p]? = some (.capability capability args.length)) :
    Follows code maxCalls fuel (c.state p (rest ++ args.toArray) scene) scene
      (capability.perform args) fun v => c.At (p + 1) (rest.push v) := by
  have hnext := Context.next_state h maxCalls c (rest ++ args.toArray) scene scene.stage.world
  simp only [Instr.execute, c.popMany_bind, Action.capability] at hnext
  refine lift_bind (fun _ hcheck hnext => ?_) hnext
  have hlength := length_of_check hcheck
  cases capability with
  | move d =>
    dsimp only at hnext
    rw [c.push_bind] at hnext
    exact .of_done (e := .move d) (v := .null) rfl rfl hnext nofun rfl
  | getPosition =>
    dsimp only at hnext
    rw [c.compute_bind_of_ok _ _ _ rfl] at hnext
    exact .of_done (e := .none) rfl rfl hnext nofun rfl
  | isWall =>
    obtain ⟨x, y, rfl⟩ := List.length_eq_two.1 hlength
    refine lift_bind (fun column _ hnext => lift_bind (fun row _ hnext => ?_) hnext) hnext
    rw [c.push_bind] at hnext
    exact .of_done (e := .none) rfl rfl hnext nofun rfl
  | isExit =>
    obtain ⟨x, y, rfl⟩ := List.length_eq_two.1 hlength
    refine lift_bind (fun column _ hnext => lift_bind (fun row _ hnext => ?_) hnext) hnext
    rw [c.push_bind] at hnext
    exact .of_done (e := .none) rfl rfl hnext nofun rfl

end Follows

end Instructions

end Labyrinth
