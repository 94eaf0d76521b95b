import Labyrinth.Proofs.Machine.Evaluation
import Labyrinth.Proofs.Machine.Heaps
import Labyrinth.Proofs.Outcome

/-!
# What an evaluation ensures

An evaluation **ensures** a postcondition in a scene if it comes to a value there, without a fault
and with the fuel that it has, and the postcondition holds of the value and of the scene then. What
a piece of a program ensures is computed from its parts, one rule for each of them; a loop needs an
invariant.

## Main results

* `Eval.ensures_bind`: one evaluation after the other.
* `Eval.ensures_forEach`, `Eval.ensures_repeatWhile`: loops by their invariants.
* `Stmt.execAll_append_of_done`: the first ones of several statements may be executed beforehand.
* `ensures_callAt`: a call ensures what the body of the function ensures.
-/

namespace Labyrinth

namespace Scene

/-- The value that a name is bound to in the innermost scope, or else at the top level. -/
def value? (scene : Scene) (depth : Nat) (x : String) : Option Value :=
  (((scene.scope depth).lookup x).or (scene.globals.lookup x)).map Binding.value

/-- The scene with another heap. -/
def setHeap (scene : Scene) (h : Heap) : Scene := { scene with heap := h }

/-- The scene after an effect. -/
def apply (scene : Scene) (effect : Effect) : Scene :=
  { scene with stage := scene.stage.apply effect }

/-- The scene with another innermost scope. -/
def setLocals (scene : Scene) (locals : Bindings) : Scene := { scene with locals := locals }

/-- Binds parameters to arguments in the innermost scope. -/
def bindAll (scene : Scene) (depth : Nat) : List String → List Value → Scene
  | x :: xs, v :: vs => (scene.bind depth x ⟨v, false⟩).bindAll depth xs vs
  | _, _ => scene

section Api

variable (scene : Scene) (depth : Nat) (x y : String) (b : Binding) (h : Heap) (effect : Effect)
  (locals : Bindings)

@[simp]
theorem heap_setHeap : (scene.setHeap h).heap = h := rfl

@[simp]
theorem locals_setHeap : (scene.setHeap h).locals = scene.locals := rfl

@[simp]
theorem stage_setHeap : (scene.setHeap h).stage = scene.stage := rfl

@[simp]
theorem globals_setHeap : (scene.setHeap h).globals = scene.globals := rfl

@[simp]
theorem value?_setHeap : (scene.setHeap h).value? depth x = scene.value? depth x := rfl

@[simp]
theorem setHeap_heap : scene.setHeap scene.heap = scene := rfl

@[simp]
theorem setHeap_setHeap (h' : Heap) : (scene.setHeap h).setHeap h' = scene.setHeap h' := rfl

@[simp]
theorem heap_apply : (scene.apply effect).heap = scene.heap := rfl

@[simp]
theorem locals_apply : (scene.apply effect).locals = scene.locals := rfl

@[simp]
theorem stage_apply : (scene.apply effect).stage = scene.stage.apply effect := rfl

@[simp]
theorem globals_apply : (scene.apply effect).globals = scene.globals := rfl

@[simp]
theorem value?_apply : (scene.apply effect).value? depth x = scene.value? depth x := rfl

@[simp]
theorem heap_setLocals : (scene.setLocals locals).heap = scene.heap := rfl

@[simp]
theorem locals_setLocals : (scene.setLocals locals).locals = locals := rfl

@[simp]
theorem globals_setLocals : (scene.setLocals locals).globals = scene.globals := rfl

@[simp]
theorem bindAll_nil (vs : List Value) : scene.bindAll depth [] vs = scene := rfl

@[simp]
theorem bindAll_cons (xs : List String) (v : Value) (vs : List Value) :
    scene.bindAll depth (x :: xs) (v :: vs) =
      (scene.bind depth x ⟨v, false⟩).bindAll depth xs vs := rfl

@[simp]
theorem stage_setLocals : (scene.setLocals locals).stage = scene.stage := rfl

@[simp]
theorem heap_bind : (scene.bind depth x b).heap = scene.heap := by
  unfold bind
  split <;> rfl

/-- A name may be bound after another heap has been put in. -/
theorem setHeap_bind : (scene.bind depth x b).setHeap h = (scene.setHeap h).bind depth x b := by
  unfold bind
  split <;> rfl

/-- A call binds no names of the top level. -/
@[simp]
theorem globals_bind : (scene.bind (depth + 1) x b).globals = scene.globals := rfl

@[simp]
theorem locals_bind : (scene.bind (depth + 1) x b).locals =
    Scope.insertBinding x b scene.locals := rfl

attribute [simp] stage_bind

/-- What names are bound to after one of them has been bound. -/
@[simp]
theorem value?_bind :
    (scene.bind depth x b).value? depth y =
      if y = x then some b.value else scene.value? depth y := by
  cases depth with
  | zero =>
    by_cases hyx : y = x <;>
      simp [value?, bind, scope, Scope.lookup_insertBinding, hyx]
  | succ depth =>
    by_cases hyx : y = x <;>
      simp [value?, bind, scope, Scope.lookup_insertBinding, hyx]

end Api

theorem value?_of_lookup {scene : Scene} {x : String} {b : Binding}
    (hx : scene.locals.lookup x = some b) (depth : Nat) :
    scene.value? (depth + 1) x = some b.value := by
  rw [value?, scope, if_neg (Nat.succ_ne_zero depth), hx]
  rfl

/-- The scope of a call binds the parameters. -/
theorem setLocals_bindParams (scene : Scene) (depth : Nat) (s : Scope) (xs : List String)
    (vs : List Value) :
    scene.setLocals (s.bindParams xs vs).bindings =
      (scene.setLocals s.bindings).bindAll (depth + 1) xs vs := by
  induction xs generalizing s vs with
  | nil => rfl
  | cons x xs ih =>
    cases vs with
    | nil => rfl
    | cons v vs => exact ih (s.bind x ⟨v, false⟩) vs

/-- The stage, the names of the top level and all maps are the same in a later scene, and lists that
are not live have kept their elements. -/
structure Keeps (live : List Nat) (scene scene' : Scene) : Prop where
  stage : scene'.stage = scene.stage
  globals : scene'.globals = scene.globals
  maps : scene'.heap.maps = scene.heap.maps
  lists : scene.heap.Keeps live scene'.heap

theorem Keeps.refl (live : List Nat) (scene : Scene) : scene.Keeps live scene :=
  ⟨rfl, rfl, rfl, .refl live _⟩

theorem Keeps.trans {live : List Nat} {s s' s'' : Scene} (h : s.Keeps live s')
    (h' : s'.Keeps live s'') : s.Keeps live s'' :=
  ⟨h'.stage.trans h.stage, h'.globals.trans h.globals, h'.maps.trans h.maps,
    h.lists.trans h'.lists⟩

/-- Names are bound to the same values where both scopes are the same. -/
theorem Keeps.value?_eq {live : List Nat} {s s' : Scene} (h : s.Keeps live s')
    (hlocals : s'.locals = s.locals) (depth : Nat) (x : String) :
    s'.value? depth x = s.value? depth x := by
  rw [value?, value?, scope, scope, h.globals, hlocals]

end Scene

section Settings

variable (definitions : List Definition) (maxCalls fuel depth : Nat)

@[simp]
theorem settingAt_definitions :
    (settingAt definitions maxCalls fuel depth).definitions = definitions := rfl

@[simp]
theorem settingAt_depth : (settingAt definitions maxCalls fuel depth).depth = depth := rfl

@[simp]
theorem settingAt_fuel : (settingAt definitions maxCalls fuel depth).fuel = fuel := rfl

@[simp]
theorem settingAt_call : (settingAt definitions maxCalls fuel depth).call =
    callAt definitions maxCalls fuel depth := rfl

end Settings

namespace Eval

variable {α β : Type} {scene : Scene}

/-- The evaluation comes to a value in a scene of which the postcondition holds. -/
def Ensures (a : Eval α) (scene : Scene) (post : α → Scene → Prop) : Prop :=
  ∃ v scene', a scene = .done v scene' ∧ post v scene'

/-- A weaker postcondition is ensured, too. -/
theorem Ensures.imp {a : Eval α} {post post' : α → Scene → Prop} (h : a.Ensures scene post)
    (himp : ∀ v scene', post v scene' → post' v scene') : a.Ensures scene post' := by
  obtain ⟨v, scene', ha, hpost⟩ := h
  exact ⟨v, scene', ha, himp v scene' hpost⟩

section Outcomes

variable {a : Eval α} {post : α → Scene → Prop}

theorem ensures_of_done {v : α} {scene' : Scene} (h : a scene = .done v scene') :
    a.Ensures scene post ↔ post v scene' := by
  constructor
  · rintro ⟨w, scene'', h', hpost⟩
    cases h.symm.trans h'
    exact hpost
  · exact fun hpost => ⟨v, scene', h, hpost⟩

theorem not_ensures_of_fault {e : Fault} {scene' : Scene} (h : a scene = .fault e scene') :
    ¬a.Ensures scene post := fun ⟨_, _, h', _⟩ => nomatch h.symm.trans h'

theorem not_ensures_of_timeout (h : a scene = .timeout) : ¬a.Ensures scene post :=
  fun ⟨_, _, h', _⟩ => nomatch h.symm.trans h'

end Outcomes

@[simp]
theorem ensures_pure {v : α} {post : α → Scene → Prop} :
    (pure v : Eval α).Ensures scene post ↔ post v scene := ensures_of_done rfl

/-- One evaluation after the other. -/
@[simp]
theorem ensures_bind {a : Eval α} {f : α → Eval β} {post : β → Scene → Prop} :
    (a >>= f).Ensures scene post ↔ a.Ensures scene fun v scene => (f v).Ensures scene post := by
  cases ha : a scene with
  | done v scene' =>
    rw [ensures_of_done ha]
    simp only [Ensures, bind_of_done ha]
  | fault e scene' =>
    exact iff_of_false (not_ensures_of_fault (bind_of_fault ha)) (not_ensures_of_fault ha)
  | timeout =>
    exact iff_of_false (not_ensures_of_timeout (bind_of_timeout ha)) (not_ensures_of_timeout ha)

@[simp]
theorem ensures_ite {truth : Bool} {a b : Eval α} {post : α → Scene → Prop} :
    (if truth = true then a else b).Ensures scene post ↔
      if truth = true then a.Ensures scene post else b.Ensures scene post := by
  cases truth <;> rfl

/-! ### The heap -/

@[simp]
theorem ensures_compute {f : Heap → Except Fault (α × Heap)} {post : α → Scene → Prop} :
    (compute f).Ensures scene post ↔
      ∃ v h, f scene.heap = .ok (v, h) ∧ post v (scene.setHeap h) := by
  cases hf : f scene.heap with
  | error e =>
    exact iff_of_false (not_ensures_of_fault (compute_of_error hf)) fun ⟨_, _, h, _⟩ => nomatch h
  | ok r =>
    rw [ensures_of_done (compute_of_ok hf)]
    simp [Prod.ext_iff, and_assoc, Scene.setHeap]

@[simp]
theorem ensures_inspect {f : Heap → Except Fault α} {post : α → Scene → Prop} :
    (inspect f).Ensures scene post ↔ ∃ v, f scene.heap = .ok v ∧ post v scene := by
  rw [inspect, ensures_compute]
  cases f scene.heap <;> simp [pure, Except.pure, and_assoc]

@[simp]
theorem ensures_change {f : Heap → Except Fault Heap} {post : Unit → Scene → Prop} :
    (change f).Ensures scene post ↔
      ∃ h, f scene.heap = .ok h ∧ post () (scene.setHeap h) := by
  rw [change, ensures_compute]
  cases f scene.heap with
  | error e => exact iff_of_false (fun ⟨_, _, h, _⟩ => nomatch h) (fun ⟨_, h, _⟩ => nomatch h)
  | ok h => simpa [pure, Except.pure] using ⟨fun ⟨_, hpost⟩ => hpost, fun hpost => ⟨(), hpost⟩⟩

@[simp]
theorem ensures_truth {v : Value} {post : Bool → Scene → Prop} :
    (truth v).Ensures scene post ↔ post (scene.heap.truthy v) scene := ensures_of_done rfl

/-- The elements of a list. -/
@[simp]
theorem ensures_elements_list {a : Nat} {post : List Value → Scene → Prop} :
    (elements (.list a)).Ensures scene post ↔ post (scene.heap.list a).toList scene :=
  ensures_of_done rfl

/-! ### Names -/

@[simp]
theorem ensures_load {depth : Nat} {x : String} {post : Value → Scene → Prop} :
    (load depth x).Ensures scene post ↔
      ∃ v, scene.value? depth x = some v ∧ post v scene := by
  unfold Ensures load Scene.value?
  cases (scene.scope depth).lookup x <;> cases scene.globals.lookup x <;> simp [and_assoc]

@[simp]
theorem ensures_declare {depth : Nat} {constant : Bool} {x : String} {v : Value}
    {post : Unit → Scene → Prop} :
    (declare depth constant x v).Ensures scene post ↔
      post () (scene.bind depth x ⟨v, constant⟩) := ensures_of_done rfl

/-- An assignment to a variable of the innermost scope. -/
theorem ensures_store {depth : Nat} {x : String} {v old : Value} {post : Unit → Scene → Prop}
    (hx : (scene.scope depth).lookup x = some ⟨old, false⟩) :
    (store depth x v).Ensures scene post ↔ post () (scene.bind depth x ⟨v, false⟩) := by
  refine ensures_of_done ?_
  rw [store, hx]
  rfl

/-- A list with as many elements as are asked for. -/
theorem ensures_unpack_list {count a : Nat} {post : List Value → Scene → Prop}
    (hcount : (scene.heap.list a).size = count) :
    (unpack count (.list a)).Ensures scene post ↔ post (scene.heap.list a).toList scene := by
  have hlength : (scene.heap.list a).toList.length = count := hcount
  rw [unpack, ensures_bind, ensures_elements_list, if_neg (not_not_intro hlength), ensures_pure]

/-- The names of a pattern are bound to the elements of a list with as many elements. -/
theorem ensures_bind_triple {depth a : Nat} {constant : Bool} {x y z : String} {u v w : Value}
    {post : Unit → Scene → Prop} (ha : scene.heap.list a = #[u, v, w]) :
    ((Pattern.tuple [x, y, z]).bind depth constant (.list a)).Ensures scene post ↔
      post () (((scene.bind depth x ⟨u, constant⟩).bind depth y ⟨v, constant⟩).bind depth z
        ⟨w, constant⟩) := by
  rw [Pattern.bind, ensures_bind, ensures_unpack_list (by rw [ha]; rfl), ha]
  simp [forNames]

/-! ### The maze -/

@[simp]
theorem ensures_isWall {column row : Int64} {post : Value → Scene → Prop} :
    (Capability.isWall.perform [.int column, .int row]).Ensures scene post ↔
      post (.bool (scene.stage.world.isWall column.toInt row.toInt)) scene := ensures_of_done rfl

@[simp]
theorem ensures_isExit {column row : Int64} {post : Value → Scene → Prop} :
    (Capability.isExit.perform [.int column, .int row]).Ensures scene post ↔
      post (.bool (scene.stage.world.isExit column.toInt row.toInt)) scene := ensures_of_done rfl

@[simp]
theorem ensures_getPosition {post : Value → Scene → Prop} :
    (Capability.getPosition.perform []).Ensures scene post ↔
      post (.map scene.heap.maps.size)
        (scene.setHeap (scene.heap.allocMap (Action.positionMap scene.stage.world)).2) :=
  ensures_of_done rfl

@[simp]
theorem ensures_move {d : Direction} {post : Value → Scene → Prop} :
    ((Capability.move d).perform []).Ensures scene post ↔
      post .null (scene.apply (.move d)) := ensures_of_done rfl

/-! ### Loops -/

/-- A loop over several values keeps an invariant that tells what has still to be gone through. -/
theorem ensures_forEach {body : Value → Eval Flow} {inv : List Value → Scene → Prop}
    (hbody : ∀ v values scene, inv (v :: values) scene →
      (body v).Ensures scene fun flow scene => flow = .next ∧ inv values scene)
    {values : List Value} (hinv : inv values scene) :
    (forEach body values).Ensures scene fun flow scene => flow = .next ∧ inv [] scene := by
  induction values generalizing scene with
  | nil => exact ensures_pure.2 ⟨rfl, hinv⟩
  | cons v values ih =>
    rw [forEach, ensures_bind]
    refine (hbody v values scene hinv).imp ?_
    rintro flow scene' ⟨rfl, hinv'⟩
    exact ih hinv'

/-- A loop with a test keeps an invariant that tells for how many rounds at most it will go on. -/
theorem ensures_repeatWhile {test : Eval Bool} {body : Eval Flow} {inv : Nat → Scene → Prop}
    {post : Flow → Scene → Prop}
    (hround : ∀ rounds scene, inv rounds scene → test.Ensures scene fun truth scene =>
      (truth = false → post .next scene) ∧
        (truth = true → body.Ensures scene fun flow scene =>
          (∃ v, flow = .return v ∧ post flow scene) ∨
            flow = .next ∧ ∃ fewer < rounds, inv fewer scene))
    {rounds fuel : Nat} (hinv : inv rounds scene) (hfuel : rounds < fuel) :
    (repeatWhile test body fuel).Ensures scene post := by
  induction fuel generalizing rounds scene with
  | zero => exact absurd hfuel (Nat.not_lt_zero rounds)
  | succ fuel ih =>
    rw [repeatWhile, ensures_bind]
    refine (hround rounds scene hinv).imp ?_
    rintro (_ | _) scene' ⟨hfalse, htrue⟩
    · exact ensures_pure.2 (hfalse rfl)
    · refine ensures_bind.2 ((htrue rfl).imp ?_)
      rintro flow scene'' (⟨v, rfl, hpost⟩ | ⟨rfl, fewer, hfewer, hinv'⟩)
      · exact ensures_pure.2 hpost
      · exact ih hinv' (Nat.lt_of_lt_of_le hfewer (Nat.le_of_lt_succ hfuel))

/-! ### Calls -/

/-- An evaluation in a scope of its own leaves the innermost scope as it is. -/
theorem ensures_inCall {a : Eval α} {locals : Bindings} {post : α → Scene → Prop} :
    (inCall locals a).Ensures scene post ↔
      a.Ensures (scene.setLocals locals) fun v inner =>
        post v (inner.setLocals scene.locals) := by
  unfold Ensures inCall Scene.setLocals
  cases a { scene with locals := locals } <;> simp [and_assoc]

end Eval

open Labyrinth.Eval

/-- Statements that go on to the next one may be left out. -/
theorem Stmt.execAll_append_of_done {setting : Setting} {stmts : List Stmt} {scene scene' : Scene}
    (h : Stmt.execAll setting stmts scene = .done .next scene') (rest : List Stmt) :
    Stmt.execAll setting (stmts ++ rest) scene = Stmt.execAll setting rest scene' := by
  induction stmts generalizing scene with
  | nil =>
    cases h
    rfl
  | cons stmt stmts ih =>
    rw [List.cons_append, Stmt.execAll] at *
    cases hstmt : stmt.exec setting scene with
    | done flow scene₁ =>
      rw [bind_of_done hstmt] at h ⊢
      cases flow with
      | next => exact ih h
      | _ => cases h
    | fault f scene₁ => cases (bind_of_fault hstmt).symm.trans h
    | timeout => cases (bind_of_timeout hstmt).symm.trans h

/-- A call ensures what the body of the function ensures in a scope with the arguments. -/
theorem ensures_callAt {definitions : List Definition} {maxCalls fuel depth : Nat} {d : Definition}
    {args : List Value} {scene : Scene} {post : Value → Scene → Prop}
    (hargs : d.params.length = args.length) (hdepth : depth < maxCalls) :
    (callAt definitions maxCalls (fuel + 1) depth d args).Ensures scene post ↔
      (Stmt.execAll (settingAt definitions maxCalls fuel (depth + 1)) d.body).Ensures
        ((scene.setLocals []).bindAll (depth + 1) d.params args)
        fun flow inner => post flow.result (inner.setLocals scene.locals) := by
  rw [callAt, if_neg (not_not_intro hargs), if_neg (Nat.not_le_of_lt hdepth), ensures_inCall,
    ensures_bind, Scene.setLocals_bindParams scene depth]
  simp only [ensures_pure]
  rfl

end Labyrinth
