import Labyrinth.Machine
import Labyrinth.Machine.Lowering

/-!
# Evaluation of trees

What a program means, told by its tree: no code, no operand stack and no jumps are involved. An
expression is **evaluated** to a value, and a statement is **executed**, after which the control
**flows** to the next statement, out of a loop or out of a function.

Loops and calls may go on without end. They are given **fuel**: a loop runs for so many rounds at
most, and so many calls lie in each other at most. Where the fuel does not suffice, the evaluation
has timed out and tells nothing.

## Main results

* `evaluate`: what the run of a program does.
-/

namespace Labyrinth

/-- Names, and what they are bound to. -/
abbrev Bindings := List (String × Binding)

/-- What a program does that can be noticed. -/
inductive Deed
  | printed (line : String)
  /-- The cursor has tried a step. -/
  | tried (step : Step)
  deriving DecidableEq, Repr

/-- The world of a program, and what the program has done so far. -/
structure Stage where
  world : World
  deeds : List Deed

/-- The stage after an effect. -/
def Stage.apply (g : Stage) : Effect → Stage
  | .print line => ⟨g.world, g.deeds ++ [.printed line]⟩
  | .move d => ⟨(g.world.step d).2, g.deeds ++ [.tried (.ofMove d (g.world.step d).1)]⟩
  | _ => g

/-- All that an evaluation can read and change. -/
structure Scene where
  heap : Heap
  /-- The names of the top level. -/
  globals : Bindings
  /-- The names of the innermost call, if there is one. -/
  locals : Bindings
  stage : Stage

namespace Scene

/-- The names that are bound in the innermost scope where `depth` calls are in progress. -/
def scope (scene : Scene) (depth : Nat) : Bindings :=
  if depth = 0 then scene.globals else scene.locals

/-- Binds a name in the innermost scope. -/
def bind (scene : Scene) (depth : Nat) (x : String) (b : Binding) : Scene :=
  if depth = 0 then { scene with globals := Scope.insertBinding x b scene.globals }
  else { scene with locals := Scope.insertBinding x b scene.locals }

/-- The scene before a program begins. -/
def init (w : World) : Scene := ⟨.empty, [], [], w, []⟩

theorem stage_bind (scene : Scene) (depth : Nat) (x : String) (b : Binding) :
    (scene.bind depth x b).stage = scene.stage := by
  unfold bind
  split <;> rfl

end Scene

/-- How an evaluation ends. -/
inductive Outcome (α : Type)
  | done (v : α) (scene : Scene)
  | fault (f : Fault) (scene : Scene)
  /-- The fuel does not suffice. -/
  | timeout

/-- An evaluation. -/
def Eval (α : Type) : Type := Scene → Outcome α

namespace Eval

instance : Monad Eval where
  pure v := fun scene => .done v scene
  bind a f := fun scene =>
    match a scene with
    | .done v scene => f v scene
    | .fault f scene => .fault f scene
    | .timeout => .timeout

section Bind

variable {α β : Type} {a : Eval α} {f : α → Eval β} {scene : Scene}

theorem bind_of_done {v : α} {scene' : Scene} (h : a scene = .done v scene') :
    (a >>= f) scene = f v scene' := by
  simp only [Bind.bind, h]

theorem bind_of_fault {e : Fault} {scene' : Scene} (h : a scene = .fault e scene') :
    (a >>= f) scene = .fault e scene' := by
  simp only [Bind.bind, h]

theorem bind_of_timeout (h : a scene = .timeout) : (a >>= f) scene = .timeout := by
  simp only [Bind.bind, h]

theorem bind_assoc {γ : Type} (a : Eval α) (f : α → Eval β) (g : β → Eval γ) :
    (a >>= f) >>= g = a >>= fun v => f v >>= g := by
  funext scene
  cases ha : a scene with
  | done v scene' => simp only [Bind.bind, ha]
  | fault e scene' => rw [bind_of_fault ha, bind_of_fault (bind_of_fault ha)]
  | timeout => rw [bind_of_timeout ha, bind_of_timeout (bind_of_timeout ha)]

theorem bind_pure (a : Eval α) : a >>= pure = a := by
  funext scene
  cases ha : a scene with
  | done v scene' => exact bind_of_done ha
  | fault e scene' => exact bind_of_fault ha
  | timeout => exact bind_of_timeout ha

end Bind

variable {α : Type}

/-- Raises a fault. -/
def fail (f : Fault) : Eval α := fun scene => .fault f scene

/-- Needs more fuel than there is. -/
def timeout : Eval α := fun _ => .timeout

/-- Raises the fault of a computation that has failed. -/
def lift : Except Fault α → Eval α
  | .ok v => pure v
  | .error f => fail f

/-- Computes on the heap. -/
def compute (f : Heap → Except Fault (α × Heap)) : Eval α := fun scene =>
  match f scene.heap with
  | .ok (v, heap) => .done v { scene with heap := heap }
  | .error f => .fault f scene

theorem compute_of_ok {f : Heap → Except Fault (α × Heap)} {scene : Scene} {v : α} {heap : Heap}
    (h : f scene.heap = .ok (v, heap)) :
    compute f scene = .done v { scene with heap := heap } := by
  simp only [compute, h]

theorem compute_of_error {f : Heap → Except Fault (α × Heap)} {scene : Scene} {e : Fault}
    (h : f scene.heap = .error e) : compute f scene = .fault e scene := by
  simp only [compute, h]

/-- Reads the heap. -/
def inspect (f : Heap → Except Fault α) : Eval α := compute fun h => do return (← f h, h)

/-- Changes the heap. -/
def change (f : Heap → Except Fault Heap) : Eval Unit := compute fun h => do return ((), ← f h)

/-- Whether a value counts as true. -/
def truth (v : Value) : Eval Bool := fun scene => .done (scene.heap.truthy v) scene

/-- The elements that a value has now. -/
def elements (v : Value) : Eval (List Value) := compute (Heap.elements v)

/-- Has an effect. -/
def emit (effect : Effect) : Eval Unit := fun scene =>
  .done () { scene with stage := scene.stage.apply effect }

/-- The value bound to a name in the innermost scope, or else at the top level. -/
def load (depth : Nat) (x : String) : Eval Value := fun scene =>
  match (scene.scope depth).lookup x <|> scene.globals.lookup x with
  | some b => .done b.value scene
  | none => .fault (.undefined x) scene

/-- Binds a name in the innermost scope. -/
def declare (depth : Nat) (constant : Bool) (x : String) (v : Value) : Eval Unit := fun scene =>
  .done () (scene.bind depth x ⟨v, constant⟩)

/-- Assigns to a name that is bound in the innermost scope, or else at the top level. -/
def store (depth : Nat) (x : String) (v : Value) : Eval Unit := fun scene =>
  match (scene.scope depth).lookup x with
  | some b =>
    if b.constant then .fault (.constantAssignment x) scene
    else .done () (scene.bind depth x ⟨v, false⟩)
  | none =>
    match scene.globals.lookup x with
    | some b =>
      if b.constant then .fault (.constantAssignment x) scene
      else .done () (scene.bind 0 x ⟨v, false⟩)
    | none => .fault (.undeclared x) scene

/-- The elements of a value that has to have a given number of them. -/
def unpack (count : Nat) (v : Value) : Eval (List Value) := do
  let values ← elements v
  if values.length ≠ count then fail (.unpack count values.length) else return values

/-- Does something with every name and the value for it, one after the other. -/
def forNames (act : String → Value → Eval Unit) : List String → List Value → Eval Unit
  | x :: names, v :: values => do
    act x v
    forNames act names values
  | _, _ => return ()

/-- Evaluates in a new innermost scope, and comes back to the present one. -/
def inCall (locals : Bindings) (a : Eval α) : Eval α := fun scene =>
  match a { scene with locals := locals } with
  | .done v inner => .done v { inner with locals := scene.locals }
  | .fault f inner => .fault f { inner with locals := scene.locals }
  | .timeout => .timeout

end Eval

open Labyrinth.Eval

/-! ### Expressions -/

/-- Where an evaluation takes place. -/
structure Setting where
  /-- The functions of the program. -/
  definitions : List Definition
  /-- The number of calls in progress. -/
  depth : Nat
  /-- How many rounds a loop may take. -/
  fuel : Nat
  /-- Calls a function. -/
  call : Definition → List Value → Eval Value

/-- Whether an operator yields its left operand when that has a given truth. -/
def LogicalOp.yields (truth : Bool) : LogicalOp → Bool
  | and => !truth
  | or => truth

/-- Performs an operation on the maze. -/
def Capability.perform (c : Capability) (args : List Value) : Eval Value := do
  lift (Arity.check (.exactly c.arity) c.bracedName args.length)
  match c, args with
  | .move d, _ =>
    emit (.move d)
    return .null
  | .isWall, [x, y] =>
    let column ← lift (integerArgument c.bracedName x)
    let row ← lift (integerArgument c.bracedName y)
    fun scene => .done (.bool (scene.stage.world.isWall column.toInt row.toInt)) scene
  | .isExit, [x, y] =>
    let column ← lift (integerArgument c.bracedName x)
    let row ← lift (integerArgument c.bracedName y)
    fun scene => .done (.bool (scene.stage.world.isExit column.toInt row.toInt)) scene
  | _, _ => fun scene => compute (fun h =>
      .ok (h.allocMap (Action.positionMap scene.stage.world))) scene

/-- Prints a line with the texts of several values. -/
def printLine (values : List Value) : Eval Value := do
  let text ← inspect fun h => .ok (" ".intercalate (values.map h.display))
  emit (.print text)
  return .null

mutual

/-- The value of an expression. -/
def Expr.eval (setting : Setting) : Expr → Eval Value
  | .literal value => return .ofLiteral value
  | .name x => load setting.depth x
  | .list items => do
    let values ← Expr.evalAll setting items
    compute fun h => .ok (h.allocList values.toArray)
  | .emptySet => compute (Heap.buildSet .null)
  | .setOf source => do compute (Heap.buildSet (← source.eval setting))
  | .emptyMap => compute (Heap.buildMap .null)
  | .mapOf source => do compute (Heap.buildMap (← source.eval setting))
  | .unary op operand => do
    let v ← operand.eval setting
    inspect fun h => h.unary op v
  | .binary op lhs rhs => do
    let x ← lhs.eval setting
    let y ← rhs.eval setting
    compute (Heap.binary op x y)
  | .logical op lhs rhs => do
    let v ← lhs.eval setting
    if op.yields (← truth v) then return v else rhs.eval setting
  | .call f args =>
    match setting.definitions.find? (·.name == f) with
    | some d => do setting.call d (← Expr.evalAll setting args)
    | none => fail (.undefined f)
  | .builtin .print args => do printLine (← Expr.evalAll setting args)
  | .builtin function args => do compute (Heap.builtin function (← Expr.evalAll setting args))
  | .capability c args => do c.perform (← Expr.evalAll setting args)
  | .method receiver m args => do
    let object ← receiver.eval setting
    let values ← Expr.evalAll setting args
    compute (Heap.callMethod object m values)
  | .index object i => do
    let o ← object.eval setting
    let k ← i.eval setting
    inspect fun h => h.loadIndex o k
  | .attribute object key => do
    let o ← object.eval setting
    inspect fun h => h.loadAttribute o key

/-- The values of several expressions, from left to right. -/
def Expr.evalAll (setting : Setting) : List Expr → Eval (List Value)
  | [] => return []
  | e :: rest => do
    let v ← e.eval setting
    let values ← Expr.evalAll setting rest
    return v :: values

end

/-- The value of an optional expression, which is `null` where there is none. -/
def Expr.evalOrNull (setting : Setting) : Option Expr → Eval Value
  | some e => e.eval setting
  | none => return .null

/-! ### Statements -/

/-- Where the control goes after a statement. -/
inductive Flow
  /-- To the next statement. -/
  | next
  /-- Out of the innermost loop. -/
  | break
  /-- To the next round of the innermost loop. -/
  | continue
  /-- Out of the function, with a value. -/
  | return (v : Value)
  deriving DecidableEq, Repr

namespace Eval

/-- Goes on with a loop after a round of it, unless the round has left the loop. -/
def afterRound (flow : Flow) (others : Eval Flow) : Eval Flow :=
  match flow with
  | .next => others
  | .continue => others
  | .break => return .next
  | .return v => return .return v

/-- Repeats a body as long as a test holds. -/
def repeatWhile (test : Eval Bool) (body : Eval Flow) : (fuel : Nat) → Eval Flow
  | 0 => timeout
  | fuel + 1 => do
    if ← test then
      let flow ← body
      afterRound flow (repeatWhile test body fuel)
    else return .next

/-- Runs a body for every one of several values. -/
def forEach (body : Value → Eval Flow) : List Value → Eval Flow
  | [] => return .next
  | v :: values => do
    let flow ← body v
    afterRound flow (forEach body values)

end Eval

/-- Binds the names of a pattern. -/
def Pattern.bind (depth : Nat) (constant : Bool) (v : Value) : Pattern → Eval Unit
  | single x => declare depth constant x v
  | tuple names => do forNames (declare depth constant) names (← unpack names.length v)

/-- Performs an assignment. An augmented one reads the present value before it evaluates the given
expression. -/
def Target.assign (setting : Setting) (op : Option BinaryOp) (value : Expr) : Target → Eval Unit
  | .name x =>
    match op with
    | some op => do
      let old ← load setting.depth x
      let v ← value.eval setting
      let new ← compute (Heap.binary op old v)
      store setting.depth x new
    | none => do store setting.depth x (← value.eval setting)
  | .index object i => do
    let o ← object.eval setting
    let k ← i.eval setting
    match op with
    | some op =>
      let old ← inspect fun h => h.loadIndex o k
      let v ← value.eval setting
      let new ← compute (Heap.binary op old v)
      change (Heap.storeIndex o k new)
    | none =>
      let v ← value.eval setting
      change (Heap.storeIndex o k v)
  | .tuple names => do
    let v ← value.eval setting
    forNames (store setting.depth) names (← unpack names.length v)

mutual

/-- Executes a statement. -/
def Stmt.exec (setting : Setting) : Stmt → Eval Flow
  | .comment _ => return .next
  | .function .. => return .next
  | .declare pattern value constant => do
    let v ← Expr.evalOrNull setting value
    pattern.bind setting.depth constant v
    return .next
  | .assign target op value => do
    target.assign setting op value
    return .next
  | .expr value => do
    let _ ← value.eval setting
    return .next
  | .cond arms => arms.exec setting
  | .while condition body =>
    repeatWhile (do truth (← condition.eval setting)) (Stmt.execAll setting body) setting.fuel
  | .forEach pattern iterable body => do
    let values ← elements (← iterable.eval setting)
    forEach (fun v => do
      pattern.bind setting.depth false v
      Stmt.execAll setting body) values
  | .return value => do return .return (← Expr.evalOrNull setting value)
  | .break => return .break
  | .continue => return .continue
  | .throw _ message => do
    let v ← message.eval setting
    let text ← inspect fun h => .ok (h.display v)
    fail (.raised text)

/-- Executes several statements, up to the first one that does not go on to the next. -/
def Stmt.execAll (setting : Setting) : List Stmt → Eval Flow
  | [] => return .next
  | stmt :: rest => do
    match ← stmt.exec setting with
    | .next => Stmt.execAll setting rest
    | flow => return flow

/-- Executes the first arm whose condition holds. -/
def Arms.exec (setting : Setting) : Arms → Eval Flow
  | .done => return .next
  | .otherwise body => Stmt.execAll setting body
  | .arm condition body rest => do
    if ← truth (← condition.eval setting) then Stmt.execAll setting body else rest.exec setting

end

/-! ### Programs -/

/-- The value that a function returns when it has left its body; `null` where none is given. -/
def Flow.result : Flow → Value
  | «return» v => v
  | _ => .null

section Programs

variable (definitions : List Definition) (maxCalls : Nat)

/-- Calls a function where `depth` calls are in progress already. -/
def callAt : (fuel depth : Nat) → Definition → List Value → Eval Value
  | 0, _, _, _ => timeout
  | fuel + 1, depth, d, args =>
    if d.params.length ≠ args.length then
      fail (.arity d.name (.exactly d.params.length) args.length)
    else if maxCalls ≤ depth then fail .recursionDepth
    else
      inCall (Scope.empty.bindParams d.params args).bindings do
        let flow ← Stmt.execAll ⟨definitions, depth + 1, fuel, callAt fuel (depth + 1)⟩ d.body
        return flow.result

/-- Where `depth` calls are in progress. -/
def settingAt (fuel depth : Nat) : Setting :=
  ⟨definitions, depth, fuel, callAt definitions maxCalls fuel depth⟩

end Programs

/-- What a program has done when it is over. -/
structure Transcript where
  deeds : List Deed
  ending : Ending
  /-- The world that it leaves. -/
  world : World

/-- The transcript of a program whose functions can be called from everywhere, or nothing if the
fuel does not suffice. -/
def evaluate (fuel maxCalls : Nat) (program : List Stmt) (w : World) : Option Transcript :=
  let setting := settingAt (Stmt.allDefinitions program) maxCalls fuel 0
  match Stmt.execAll setting program (.init w) with
  | .done _ scene => some ⟨scene.stage.deeds, .finished, scene.stage.world⟩
  | .fault f scene => some ⟨scene.stage.deeds, .faulted f, scene.stage.world⟩
  | .timeout => none

end Labyrinth
