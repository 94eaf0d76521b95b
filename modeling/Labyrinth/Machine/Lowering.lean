import Labyrinth.Machine.Code

/-!
# Lowering trees to code

Every tree has **code** that begins at a given position. The targets of jumps are absolute, so
the code of a loop has to know where it ends before its body is written; this is why statements
have a **width**, the number of their instructions, which is computed first.

Functions are called by their position in the table, so lowering is given the list of all
function names. A call of another name raises an error when it is reached, before its arguments
are evaluated.

## Main results

* `Stmt.length_code`: the width of a statement is the length of its code.
* `lower`: the code of a program.
-/

namespace Labyrinth

/-- Where the jumps out of the body of a loop lead. -/
structure LoopTargets where
  /-- Where the next round begins. -/
  next : Nat
  /-- What follows the loop. -/
  exit : Nat
  /-- Whether the loop keeps an iterator, which has to be dropped when it is left. -/
  iterates : Bool
  deriving DecidableEq, Repr

mutual

/-- The code of an expression, which pushes its value. -/
def Expr.code (functions : List String) (start : Nat) : Expr → List Instr
  | .literal value => [.push value]
  | .name x => [.load x]
  | .list items => Expr.codes functions start items ++ [.buildList items.length]
  | .emptySet => [.push .null, .buildSet]
  | .setOf source => source.code functions start ++ [.buildSet]
  | .emptyMap => [.push .null, .buildMap]
  | .mapOf source => source.code functions start ++ [.buildMap]
  | .unary op operand => operand.code functions start ++ [.unary op]
  | .binary op lhs rhs =>
    let left := lhs.code functions start
    left ++ rhs.code functions (start + left.length) ++ [.binary op]
  | .logical op lhs rhs =>
    let left := lhs.code functions start
    let right := rhs.code functions (start + left.length + 1)
    let exit := start + left.length + 1 + right.length
    left ++ (match op with
      | .and => .jumpIfFalseElsePop exit
      | .or => .jumpIfTrueElsePop exit) :: right
  | .call f args =>
    match functions.idxOf? f with
    | some function => Expr.codes functions start args ++ [.call function args.length]
    | none => [.callUndefined f]
  | .builtin function args => Expr.codes functions start args ++ [.builtin function args.length]
  | .capability c args => Expr.codes functions start args ++ [.capability c args.length]
  | .method receiver m args =>
    let object := receiver.code functions start
    object ++ Expr.codes functions (start + object.length) args ++ [.method m args.length]
  | .index object i =>
    let collection := object.code functions start
    collection ++ i.code functions (start + collection.length) ++ [.loadIndex]
  | .attribute object key => object.code functions start ++ [.loadAttribute key]

/-- The code of several expressions, one after the other. -/
def Expr.codes (functions : List String) (start : Nat) : List Expr → List Instr
  | [] => []
  | e :: rest =>
    let first := e.code functions start
    first ++ Expr.codes functions (start + first.length) rest

end

/-- The number of instructions in the code of an expression, wherever it begins. -/
def Expr.width (functions : List String) (e : Expr) : Nat := (e.code functions 0).length

mutual

theorem Expr.length_code_eq (functions : List String) (s t : Nat) :
    (e : Expr) → (e.code functions s).length = (e.code functions t).length
  | .literal _ => rfl
  | .name _ => rfl
  | .list items => by simp [Expr.code, Expr.length_codes_eq functions s t items]
  | .emptySet => rfl
  | .setOf e => by simp [Expr.code, Expr.length_code_eq functions s t e]
  | .emptyMap => rfl
  | .mapOf e => by simp [Expr.code, Expr.length_code_eq functions s t e]
  | .unary _ e => by simp [Expr.code, Expr.length_code_eq functions s t e]
  | .binary _ l r => by
    simp [Expr.code, Expr.length_code_eq functions s t l, Expr.length_code_eq functions _ t r]
  | .logical _ l r => by
    simp [Expr.code, Expr.length_code_eq functions s t l, Expr.length_code_eq functions _ t r]
  | .call f args => by
    simp only [Expr.code]
    split
    · simp [Expr.length_codes_eq functions s t args]
    · rfl
  | .builtin _ args => by simp [Expr.code, Expr.length_codes_eq functions s t args]
  | .capability _ args => by simp [Expr.code, Expr.length_codes_eq functions s t args]
  | .method e _ args => by
    simp [Expr.code, Expr.length_code_eq functions s t e, Expr.length_codes_eq functions _ t args]
  | .index e i => by
    simp [Expr.code, Expr.length_code_eq functions s t e, Expr.length_code_eq functions _ t i]
  | .attribute e _ => by simp [Expr.code, Expr.length_code_eq functions s t e]

theorem Expr.length_codes_eq (functions : List String) (s t : Nat) :
    (es : List Expr) → (Expr.codes functions s es).length = (Expr.codes functions t es).length
  | [] => rfl
  | e :: rest => by
    simp [Expr.codes, Expr.length_code_eq functions s t e,
      Expr.length_codes_eq functions _ t rest]

end

/-- The code of an expression has the same length wherever it begins. -/
theorem Expr.length_code (functions : List String) (start : Nat) (e : Expr) :
    (e.code functions start).length = e.width functions :=
  Expr.length_code_eq functions start 0 e

/-- The code that binds the names of a pattern to the top value. -/
def Pattern.code (constant : Bool) : Pattern → List Instr
  | single name => [.declare name constant]
  | tuple names => .unpack names.length :: names.map (.declare · constant)

/-- The code of an optional expression, which is `null` where there is none. -/
def Expr.codeOrNull (functions : List String) (start : Nat) : Option Expr → List Instr
  | some e => e.code functions start
  | none => [.push .null]

/-- The code of an assignment. An augmented one reads the present value before it evaluates the
given one. -/
def Target.code (functions : List String) (start : Nat) (op : Option BinaryOp) (value : Expr) :
    Target → List Instr
  | .name x =>
    match op with
    | some op => .load x :: value.code functions (start + 1) ++ [.binary op, .store x]
    | none => value.code functions start ++ [.store x]
  | .index object i =>
    let collection := object.code functions start
    let place := collection ++ i.code functions (start + collection.length)
    match op with
    | some op =>
      place ++ [.duplicatePair, .loadIndex] ++
        value.code functions (start + place.length + 2) ++ [.binary op, .storeIndex]
    | none => place ++ value.code functions (start + place.length) ++ [.storeIndex]
  | .tuple names =>
    value.code functions start ++ .unpack names.length :: names.map .store

mutual

/-- The number of instructions in the code of a statement; `iterates` tells whether the loop
around it keeps an iterator. -/
def Stmt.width (functions : List String) (iterates : Bool) : Stmt → Nat
  | .comment _ => 0
  | .function .. => 0
  | .declare pattern value constant =>
    (Expr.codeOrNull functions 0 value).length + (pattern.code constant).length
  | .assign target op value => (target.code functions 0 op value).length
  | .expr value => value.width functions + 1
  | .cond arms => arms.width functions iterates
  | .while condition body => condition.width functions + Stmt.widths functions false body + 2
  | .forEach pattern iterable body =>
    iterable.width functions + (pattern.code false).length + Stmt.widths functions true body + 3
  | .return value => (Expr.codeOrNull functions 0 value).length + 1
  | .break => if iterates then 2 else 1
  | .continue => 1
  | .throw _ message => message.width functions + 1

/-- The number of instructions in the code of several statements. -/
def Stmt.widths (functions : List String) (iterates : Bool) : List Stmt → Nat
  | [] => 0
  | stmt :: rest => stmt.width functions iterates + Stmt.widths functions iterates rest

/-- The number of instructions in the code of the arms of a conditional statement. -/
def Arms.width (functions : List String) (iterates : Bool) : Arms → Nat
  | .done => 0
  | .otherwise body => Stmt.widths functions iterates body
  | .arm condition body rest =>
    condition.width functions + Stmt.widths functions iterates body +
      rest.width functions iterates + 2

end

mutual

/-- The code of a statement in the body of a loop with the given targets. Outside of all loops
every target is zero; no program that has been read leaves a loop there. -/
def Stmt.code (functions : List String) (loop : LoopTargets) (start : Nat) : Stmt → List Instr
  | .comment _ => []
  | .function .. => []
  | .declare pattern value constant =>
    Expr.codeOrNull functions start value ++ pattern.code constant
  | .assign target op value => target.code functions start op value
  | .expr value => value.code functions start ++ [.pop]
  | .cond arms =>
    arms.code functions loop (start + arms.width functions loop.iterates) start
  | .while condition body =>
    let test := condition.code functions start
    let first := start + test.length + 1
    let exit := first + Stmt.widths functions false body + 1
    test ++ .jumpIfFalse exit :: Stmt.codes functions ⟨start, exit, false⟩ first body ++
      [.jump start]
  | .forEach pattern iterable body =>
    let collection := iterable.code functions start
    let head := start + collection.length + 1
    let names := pattern.code false
    let first := head + 1 + names.length
    let exit := first + Stmt.widths functions true body + 1
    collection ++ .iterStart :: .iterNext exit :: names ++
      Stmt.codes functions ⟨head, exit, true⟩ first body ++ [.jump head]
  | .return value => Expr.codeOrNull functions start value ++ [.return]
  | .break => (if loop.iterates then [.iterDrop] else []) ++ [.jump loop.exit]
  | .continue => [.jump loop.next]
  | .throw _ message => message.code functions start ++ [.throw]

/-- The code of several statements, one after the other. -/
def Stmt.codes (functions : List String) (loop : LoopTargets) (start : Nat) :
    List Stmt → List Instr
  | [] => []
  | stmt :: rest =>
    let first := stmt.code functions loop start
    first ++ Stmt.codes functions loop (start + first.length) rest

/-- The code of the arms of a conditional statement that ends at `exit`. -/
def Arms.code (functions : List String) (loop : LoopTargets) (exit start : Nat) :
    Arms → List Instr
  | .done => []
  | .otherwise body => Stmt.codes functions loop start body
  | .arm condition body rest =>
    let test := condition.code functions start
    let first := start + test.length + 1
    let taken := Stmt.codes functions loop first body
    let next := first + taken.length + 1
    test ++ .jumpIfFalse next :: taken ++ .jump exit :: rest.code functions loop exit next

end

theorem Expr.length_codeOrNull_eq (functions : List String) (s t : Nat) (e : Option Expr) :
    (Expr.codeOrNull functions s e).length = (Expr.codeOrNull functions t e).length := by
  cases e
  · rfl
  · exact Expr.length_code_eq functions s t _

theorem Target.length_code_eq (functions : List String) (s t : Nat) (op : Option BinaryOp)
    (value : Expr) (target : Target) :
    (target.code functions s op value).length = (target.code functions t op value).length := by
  rcases target with x | ⟨o, i⟩ | names <;> cases op <;>
    simp [Target.code, Expr.length_code]

mutual

/-- The width of a statement is the length of its code. -/
theorem Stmt.length_code (functions : List String) (loop : LoopTargets) (start : Nat) :
    (stmt : Stmt) →
      (stmt.code functions loop start).length = stmt.width functions loop.iterates
  | .comment _ => rfl
  | .function .. => rfl
  | .declare _ value _ => by
    simp [Stmt.code, Stmt.width, Expr.length_codeOrNull_eq functions start 0 value]
  | .assign target op value => by
    simp [Stmt.code, Stmt.width, Target.length_code_eq functions start 0 op value target]
  | .expr _ => by simp [Stmt.code, Stmt.width, Expr.length_code]
  | .cond arms => by simp [Stmt.code, Stmt.width, Arms.length_code functions loop _ _ arms]
  | .while _ body => by
    simp [Stmt.code, Stmt.width, Expr.length_code,
      Stmt.length_codes functions ⟨_, _, false⟩ _ body]
    omega
  | .forEach _ _ body => by
    simp [Stmt.code, Stmt.width, Expr.length_code,
      Stmt.length_codes functions ⟨_, _, true⟩ _ body]
    omega
  | .return value => by
    simp [Stmt.code, Stmt.width, Expr.length_codeOrNull_eq functions start 0 value]
  | .break => by
    simp only [Stmt.code, Stmt.width]
    split <;> rfl
  | .continue => rfl
  | .throw _ _ => by simp [Stmt.code, Stmt.width, Expr.length_code]

theorem Stmt.length_codes (functions : List String) (loop : LoopTargets) (start : Nat) :
    (stmts : List Stmt) →
      (Stmt.codes functions loop start stmts).length = Stmt.widths functions loop.iterates stmts
  | [] => rfl
  | stmt :: rest => by
    simp [Stmt.codes, Stmt.widths, Stmt.length_code functions loop start stmt,
      Stmt.length_codes functions loop _ rest]

theorem Arms.length_code (functions : List String) (loop : LoopTargets) (exit start : Nat) :
    (arms : Arms) →
      (arms.code functions loop exit start).length = arms.width functions loop.iterates
  | .done => rfl
  | .otherwise body => by
    simp [Arms.code, Arms.width, Stmt.length_codes functions loop start body]
  | .arm _ body rest => by
    simp [Arms.code, Arms.width, Expr.length_code, Stmt.length_codes functions loop _ body,
      Arms.length_code functions loop exit _ rest]
    omega

end

/-! ### Functions -/

/-- A function found in a program. -/
structure Definition where
  name : String
  params : List String
  body : List Stmt

mutual

/-- The functions defined in a statement, each before those in its own body. -/
def Stmt.definitions : Stmt → List Definition
  | .function name params body => ⟨name, params, body⟩ :: Stmt.allDefinitions body
  | .cond arms => arms.definitions
  | .while _ body => Stmt.allDefinitions body
  | .forEach _ _ body => Stmt.allDefinitions body
  | _ => []

/-- The functions defined in several statements. -/
def Stmt.allDefinitions : List Stmt → List Definition
  | [] => []
  | stmt :: rest => stmt.definitions ++ Stmt.allDefinitions rest

/-- The functions defined in the arms of a conditional statement. -/
def Arms.definitions : Arms → List Definition
  | .done => []
  | .otherwise body => Stmt.allDefinitions body
  | .arm _ body rest => Stmt.allDefinitions body ++ rest.definitions

end

theorem Stmt.allDefinitions_append (xs ys : List Stmt) :
    Stmt.allDefinitions (xs ++ ys) = Stmt.allDefinitions xs ++ Stmt.allDefinitions ys := by
  induction xs with
  | nil => rfl
  | cons x xs ih => simp [Stmt.allDefinitions, ih]

/-- No loop. -/
def LoopTargets.none : LoopTargets := ⟨0, 0, false⟩

/-- The code of the body of a function, which returns `null` at its end. -/
def Definition.code (functions : List String) (start : Nat) (d : Definition) : List Instr :=
  Stmt.codes functions .none start d.body ++ [.push .null, .return]

/-- The code of function bodies, one after the other, and their entries in the table. -/
def Definition.codes (functions : List String) (start : Nat) :
    List Definition → List Instr × List FunctionEntry
  | [] => ([], [])
  | d :: rest =>
    let first := d.code functions start
    let further := Definition.codes functions (start + first.length) rest
    (first ++ further.1, ⟨d.name, d.params, start⟩ :: further.2)

/-- The code of a program. -/
def lower (program : List Stmt) : Code :=
  let definitions := Stmt.allDefinitions program
  let functions := definitions.map Definition.name
  let top := Stmt.codes functions .none 0 program ++ [.halt]
  let bodies := Definition.codes functions top.length definitions
  ⟨(top ++ bodies.1).toArray, bodies.2.toArray⟩

end Labyrinth
