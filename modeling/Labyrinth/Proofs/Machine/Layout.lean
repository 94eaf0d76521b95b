import Labyrinth.Machine.Lowering
import Labyrinth.Proofs.Language.Bound
import Labyrinth.Proofs.Language.WellFormed
import Labyrinth.Proofs.Machine.Shape

/-!
# The layout of lowered code

Every tree has **shapes**, one for each instruction of its code. An expression leaves one operand
more than it finds, and a statement as many as it finds, on every path through its code.

## Main results

* `Expr.segment`, `Stmt.segment`: the code of a tree flows along its shapes.
-/

namespace Labyrinth

open Labyrinth.Braced

/-! ### Expressions -/

mutual

/-- The shapes of the instructions of an expression. -/
def Expr.shapes (functions : List String) (s : Shape) : Expr → List Shape
  | .literal _ => [s]
  | .name _ => [s]
  | .list items => Expr.allShapes functions s items ++ [s.raise items.length]
  | .emptySet => [s, s.raise 1]
  | .setOf source => source.shapes functions s ++ [s.raise 1]
  | .emptyMap => [s, s.raise 1]
  | .mapOf source => source.shapes functions s ++ [s.raise 1]
  | .unary _ operand => operand.shapes functions s ++ [s.raise 1]
  | .binary _ lhs rhs =>
    lhs.shapes functions s ++ rhs.shapes functions (s.raise 1) ++ [s.raise 2]
  | .logical _ lhs rhs => lhs.shapes functions s ++ s.raise 1 :: rhs.shapes functions s
  | .call f args =>
    match functions.idxOf? f with
    | some _ => Expr.allShapes functions s args ++ [s.raise args.length]
    | none => [s]
  | .builtin _ args => Expr.allShapes functions s args ++ [s.raise args.length]
  | .capability _ args => Expr.allShapes functions s args ++ [s.raise args.length]
  | .method receiver _ args =>
    receiver.shapes functions s ++ Expr.allShapes functions (s.raise 1) args ++
      [s.raise (args.length + 1)]
  | .index object i =>
    object.shapes functions s ++ i.shapes functions (s.raise 1) ++ [s.raise 2]
  | .attribute object _ => object.shapes functions s ++ [s.raise 1]

/-- The shapes of the instructions of several expressions. -/
def Expr.allShapes (functions : List String) (s : Shape) : List Expr → List Shape
  | [] => []
  | e :: rest => e.shapes functions s ++ Expr.allShapes functions (s.raise 1) rest

end

mutual

theorem Expr.length_shapes (functions : List String) (start : Nat) (s : Shape) :
    (e : Expr) → (e.shapes functions s).length = (e.code functions start).length
  | .literal _ => rfl
  | .name _ => rfl
  | .list items => by simp [Expr.shapes, Expr.code, Expr.length_allShapes functions start s items]
  | .emptySet => rfl
  | .setOf e => by simp [Expr.shapes, Expr.code, Expr.length_shapes functions start s e]
  | .emptyMap => rfl
  | .mapOf e => by simp [Expr.shapes, Expr.code, Expr.length_shapes functions start s e]
  | .unary _ e => by simp [Expr.shapes, Expr.code, Expr.length_shapes functions start s e]
  | .binary _ l r => by
    simp [Expr.shapes, Expr.code, Expr.length_shapes functions start s l,
      Expr.length_shapes functions (start + (l.code functions start).length) _ r]
  | .logical _ l r => by
    simp [Expr.shapes, Expr.code, Expr.length_shapes functions start s l,
      Expr.length_shapes functions (start + (l.code functions start).length + 1) _ r]
  | .call f args => by
    cases hf : functions.idxOf? f with
    | none => simp [Expr.shapes, Expr.code, hf]
    | some _ =>
      simp [Expr.shapes, Expr.code, hf, Expr.length_allShapes functions start s args]
  | .builtin _ args => by
    simp [Expr.shapes, Expr.code, Expr.length_allShapes functions start s args]
  | .capability _ args => by
    simp [Expr.shapes, Expr.code, Expr.length_allShapes functions start s args]
  | .method e _ args => by
    simp [Expr.shapes, Expr.code, Expr.length_shapes functions start s e,
      Expr.length_allShapes functions (start + (e.code functions start).length) _ args]
  | .index e i => by
    simp [Expr.shapes, Expr.code, Expr.length_shapes functions start s e,
      Expr.length_shapes functions (start + (e.code functions start).length) _ i]
  | .attribute e _ => by simp [Expr.shapes, Expr.code, Expr.length_shapes functions start s e]

theorem Expr.length_allShapes (functions : List String) (start : Nat) (s : Shape) :
    (es : List Expr) →
      (Expr.allShapes functions s es).length = (Expr.codes functions start es).length
  | [] => rfl
  | e :: rest => by
    simp [Expr.allShapes, Expr.codes, Expr.length_shapes functions start s e,
      Expr.length_allShapes functions (start + (e.code functions start).length) _ rest]

end

theorem Expr.length_shapes_eq_width (functions : List String) (s : Shape) (e : Expr) :
    (e.shapes functions s).length = e.width functions := e.length_shapes functions 0 s

section Flows

variable {names : List String} {functions : Array FunctionEntry} {accept : Nat → Shape → Prop}

/-- Every function that the lowering knows is in the table, and its entry accepts its
parameters. -/
def Entered (names : List String) (functions : Array FunctionEntry)
    (accept : Nat → Shape → Prop) : Prop :=
  ∀ name i, names.idxOf? name = some i →
    ∃ f : FunctionEntry, functions[i]? = some f ∧ accept f.entry (.entry f.params)

mutual

/-- The code of an expression leaves one operand more than it finds. -/
theorem Expr.segment (hfunctions : Entered names functions accept) {start : Nat} {s : Shape} :
    (e : Expr) → Stands accept start (e.shapes names s) →
      accept (start + (e.code names start).length) (s.raise 1) →
        Segment functions accept start s (e.code names start) (e.shapes names s)
  | .literal _, hstands, hend => .single hstands hend
  | .name _, hstands, hend => .single hstands hend
  | .list items, hstands, hend =>
    .snoc hstands (Expr.length_allShapes _ _ _ _)
      ⟨s, rfl, by simpa [Expr.code, Nat.add_assoc] using hend⟩
      (Expr.allSegment hfunctions items)
  | .emptySet, hstands, hend =>
    .cons hstands (.single hstands.tail ⟨s, rfl, hend⟩) id
  | .setOf e, hstands, hend =>
    .snoc hstands (Expr.length_shapes _ _ _ _)
      ⟨s, rfl, by simpa [Expr.code, Nat.add_assoc] using hend⟩
      (Expr.segment hfunctions e)
  | .emptyMap, hstands, hend =>
    .cons hstands (.single hstands.tail ⟨s, rfl, hend⟩) id
  | .mapOf e, hstands, hend =>
    .snoc hstands (Expr.length_shapes _ _ _ _)
      ⟨s, rfl, by simpa [Expr.code, Nat.add_assoc] using hend⟩
      (Expr.segment hfunctions e)
  | .unary _ e, hstands, hend =>
    .snoc hstands (Expr.length_shapes _ _ _ _)
      ⟨s, rfl, by simpa [Expr.code, Nat.add_assoc] using hend⟩
      (Expr.segment hfunctions e)
  | .binary _ l r, hstands, hend => by
    refine .snoc hstands ?_ ⟨s, rfl, by simpa [Expr.code, Nat.add_assoc] using hend⟩
      fun hstands hmiddle => ?_
    · simp [Expr.length_shapes names start s l,
        Expr.length_shapes names (start + (l.code names start).length) _ r]
    · refine .append hstands (Expr.length_shapes _ _ _ _) (fun hstands => ?_)
        (Expr.segment hfunctions l)
      exact Expr.segment hfunctions r hstands (by simpa [Nat.add_assoc] using hmiddle)
  | .logical op l r, hstands, hend => by
    have hexit : accept (start + (l.code names start).length + 1 +
        (r.code names (start + (l.code names start).length + 1)).length) (s.raise 1) := by
      simp only [Expr.code, List.length_append, List.length_cons, ← Nat.add_assoc] at hend
      rwa [Nat.add_right_comm]
    refine .append hstands (Expr.length_shapes _ _ _ _) (fun hstands => ?_)
      (Expr.segment hfunctions l)
    refine .cons hstands (Expr.segment hfunctions r hstands.tail hexit) fun hnext => ?_
    cases op with
    | and => exact ⟨s, rfl, hnext, hexit⟩
    | or => exact ⟨s, rfl, hnext, hexit⟩
  | .call f args, hstands, hend => by
    cases hf : names.idxOf? f with
    | none =>
      simp only [Expr.shapes, Expr.code, hf] at hstands ⊢
      exact .single hstands trivial
    | some function =>
      simp only [Expr.shapes, Expr.code, hf] at hstands hend ⊢
      refine .snoc hstands (Expr.length_allShapes _ _ _ _) ⟨⟨s, rfl, ?_⟩, hfunctions f function hf⟩
        (Expr.allSegment hfunctions args)
      simpa [Nat.add_assoc] using hend
  | .builtin _ args, hstands, hend =>
    .snoc hstands (Expr.length_allShapes _ _ _ _)
      ⟨s, rfl, by simpa [Expr.code, Nat.add_assoc] using hend⟩
      (Expr.allSegment hfunctions args)
  | .capability _ args, hstands, hend =>
    .snoc hstands (Expr.length_allShapes _ _ _ _)
      ⟨s, rfl, by simpa [Expr.code, Nat.add_assoc] using hend⟩
      (Expr.allSegment hfunctions args)
  | .method e _ args, hstands, hend => by
    refine .snoc hstands ?_ ⟨s, rfl, by simpa [Expr.code, Nat.add_assoc] using hend⟩
      fun hstands hmiddle => ?_
    · simp [Expr.length_shapes names start s e,
        Expr.length_allShapes names (start + (e.code names start).length) _ args]
    · refine .append hstands (Expr.length_shapes _ _ _ _) (fun hstands => ?_)
        (Expr.segment hfunctions e)
      exact Expr.allSegment hfunctions args hstands
        (by simpa [Nat.add_assoc] using hmiddle)
  | .index e i, hstands, hend => by
    refine .snoc hstands ?_ ⟨s, rfl, by simpa [Expr.code, Nat.add_assoc] using hend⟩
      fun hstands hmiddle => ?_
    · simp [Expr.length_shapes names start s e,
        Expr.length_shapes names (start + (e.code names start).length) _ i]
    · refine .append hstands (Expr.length_shapes _ _ _ _) (fun hstands => ?_)
        (Expr.segment hfunctions e)
      exact Expr.segment hfunctions i hstands (by simpa [Nat.add_assoc] using hmiddle)
  | .attribute e _, hstands, hend =>
    .snoc hstands (Expr.length_shapes _ _ _ _)
      ⟨s, rfl, by simpa [Expr.code, Nat.add_assoc] using hend⟩
      (Expr.segment hfunctions e)

/-- The code of several expressions leaves an operand for each of them. -/
theorem Expr.allSegment (hfunctions : Entered names functions accept) {start : Nat} {s : Shape} :
    (es : List Expr) → Stands accept start (Expr.allShapes names s es) →
      accept (start + (Expr.codes names start es).length) (s.raise es.length) →
        Segment functions accept start s (Expr.codes names start es)
          (Expr.allShapes names s es)
  | [], _, hend => .nil hend
  | e :: rest, hstands, hend => by
    refine .append hstands (Expr.length_shapes _ _ _ _) (fun hstands => ?_)
      (Expr.segment hfunctions e)
    refine Expr.allSegment hfunctions rest hstands ?_
    simpa [Expr.codes, Nat.add_assoc] using hend

end

end Flows

/-! ### Statements -/

/-- The shapes of the code of an optional expression. -/
def Expr.shapesOrNull (functions : List String) (s : Shape) : Option Expr → List Shape
  | some e => e.shapes functions s
  | none => [s]

/-- The shapes of declarations, which take their values from the stack. -/
def declareShapes (s : Shape) : List String → List Shape
  | [] => []
  | x :: names => s.raise (names.length + 1) :: declareShapes (s.bind [x]) names

/-- The shapes of assignments, which take their values from the stack. -/
def storeShapes (s : Shape) : List String → List Shape
  | [] => []
  | _ :: names => s.raise (names.length + 1) :: storeShapes s names

/-- The shapes of the code that binds the names of a pattern to the top value. -/
def Pattern.shapes (s : Shape) : Pattern → List Shape
  | single _ => [s.raise 1]
  | tuple names => s.raise 1 :: declareShapes s names

/-- The shapes of an assignment. -/
def Target.shapes (functions : List String) (s : Shape) (op : Option BinaryOp) (value : Expr) :
    Target → List Shape
  | .name _ =>
    match op with
    | some _ => s :: value.shapes functions (s.raise 1) ++ [s.raise 2, s.raise 1]
    | none => value.shapes functions s ++ [s.raise 1]
  | .index object i =>
    let place := object.shapes functions s ++ i.shapes functions (s.raise 1)
    match op with
    | some _ =>
      place ++ [s.raise 2, s.raise 4] ++ value.shapes functions (s.raise 3) ++
        [s.raise 4, s.raise 3]
    | none => place ++ value.shapes functions (s.raise 2) ++ [s.raise 3]
  | .tuple names => value.shapes functions s ++ s.raise 1 :: storeShapes s names

/-- The shape that is left by a statement. -/
def Shape.after (s : Shape) (stmt : Stmt) : Shape := s.knows (stmt.boundAfter s.bound)

/-- The shape that is left by several statements. -/
def Shape.afterAll (s : Shape) (stmts : List Stmt) : Shape :=
  s.knows (Stmt.allBoundAfter s.bound stmts)

mutual

/-- The shapes of the instructions of a statement; `iterates` tells whether the loop around it
keeps an iterator. -/
def Stmt.shapes (functions : List String) (iterates : Bool) (s : Shape) : Stmt → List Shape
  | .comment _ => []
  | .function .. => []
  | .declare pattern value _ => Expr.shapesOrNull functions s value ++ pattern.shapes s
  | .assign target op value => target.shapes functions s op value
  | .expr value => value.shapes functions s ++ [s.raise 1]
  | .cond arms => arms.shapes functions iterates s
  | .while condition body =>
    condition.shapes functions s ++ s.raise 1 :: Stmt.allShapes functions false s body ++
      [s.afterAll body]
  | .forEach pattern iterable body =>
    let inside := s.iterate.bind pattern.names
    iterable.shapes functions s ++ s.raise 1 :: s.iterate :: pattern.shapes s.iterate ++
      Stmt.allShapes functions true inside body ++ [inside.afterAll body]
  | .return value => Expr.shapesOrNull functions s value ++ [s.raise 1]
  | .break => if iterates then [s, s.drop] else [s]
  | .continue => [s]
  | .throw _ message => message.shapes functions s ++ [s.raise 1]

/-- The shapes of the instructions of several statements. -/
def Stmt.allShapes (functions : List String) (iterates : Bool) (s : Shape) :
    List Stmt → List Shape
  | [] => []
  | stmt :: rest =>
    stmt.shapes functions iterates s ++ Stmt.allShapes functions iterates (s.after stmt) rest

/-- The shapes of the instructions of the arms of a conditional statement. -/
def Arms.shapes (functions : List String) (iterates : Bool) (s : Shape) : Arms → List Shape
  | .done => []
  | .otherwise body => Stmt.allShapes functions iterates s body
  | .arm condition body rest =>
    condition.shapes functions s ++ s.raise 1 :: Stmt.allShapes functions iterates s body ++
      s.afterAll body :: rest.shapes functions iterates s

end

@[simp]
theorem Expr.length_shapesOrNull (functions : List String) (start : Nat) (s : Shape)
    (e : Option Expr) :
    (Expr.shapesOrNull functions s e).length = (Expr.codeOrNull functions start e).length := by
  cases e with
  | none => rfl
  | some e => exact Expr.length_shapes functions start s e

@[simp]
theorem length_declareShapes (s : Shape) (names : List String) :
    (declareShapes s names).length = names.length := by
  induction names generalizing s with
  | nil => rfl
  | cons x names ih => simp [declareShapes, ih]

@[simp]
theorem length_storeShapes (s : Shape) (names : List String) :
    (storeShapes s names).length = names.length := by
  induction names with
  | nil => rfl
  | cons x names ih => simp [storeShapes, ih]

@[simp]
theorem Pattern.length_shapes (s : Shape) (constant : Bool) (pattern : Pattern) :
    (pattern.shapes s).length = (pattern.code constant).length := by
  cases pattern with
  | single x => rfl
  | tuple names => simp [Pattern.shapes, Pattern.code]

mutual

/-- The first shape of an expression is the one that it is given. -/
theorem Expr.head?_shapes (functions : List String) (s : Shape) :
    (e : Expr) → (e.shapes functions s).head? = some s
  | .literal _ => rfl
  | .name _ => rfl
  | .list items => Expr.head?_allShapes functions s items
  | .emptySet => rfl
  | .setOf e => by simp [Expr.shapes, Expr.head?_shapes functions s e]
  | .emptyMap => rfl
  | .mapOf e => by simp [Expr.shapes, Expr.head?_shapes functions s e]
  | .unary _ e => by simp [Expr.shapes, Expr.head?_shapes functions s e]
  | .binary _ l _ => by simp [Expr.shapes, Expr.head?_shapes functions s l]
  | .logical _ l _ => by simp [Expr.shapes, Expr.head?_shapes functions s l]
  | .call f args => by
    cases hf : functions.idxOf? f with
    | none => simp [Expr.shapes, hf]
    | some _ => simpa only [Expr.shapes, hf] using Expr.head?_allShapes functions s args
  | .builtin _ args => Expr.head?_allShapes functions s args
  | .capability _ args => Expr.head?_allShapes functions s args
  | .method e _ _ => by simp [Expr.shapes, Expr.head?_shapes functions s e]
  | .index e _ => by simp [Expr.shapes, Expr.head?_shapes functions s e]
  | .attribute e _ => by simp [Expr.shapes, Expr.head?_shapes functions s e]

theorem Expr.head?_allShapes (functions : List String) (s : Shape) :
    (es : List Expr) → (Expr.allShapes functions s es ++ [s.raise es.length]).head? = some s
  | [] => rfl
  | e :: _ => by simp [Expr.allShapes, Expr.head?_shapes functions s e]

end

section Flows

variable {names : List String} {functions : Array FunctionEntry} {accept : Nat → Shape → Prop}

theorem Expr.accept_start {start : Nat} {s : Shape} {e : Expr}
    (h : Stands accept start (e.shapes names s)) : accept start s := by
  obtain ⟨rest, hrest⟩ := List.head?_eq_some_iff.1 (e.head?_shapes names s)
  rw [hrest] at h
  exact h.head

theorem segment_declare {constant : Bool} {xs : List String} {start : Nat} {s : Shape}
    (hstands : Stands accept start (declareShapes s xs))
    (hend : accept (start + xs.length) (s.bind xs)) :
    Segment functions accept start (s.raise xs.length) (xs.map (.declare · constant))
      (declareShapes s xs) := by
  induction xs generalizing start s with
  | nil => exact .nil hend
  | cons x xs ih =>
    refine .cons hstands (ih hstands.tail ?_) fun hnext => ⟨s.raise xs.length, rfl, hnext⟩
    rwa [Nat.add_assoc, Nat.add_comm 1]

theorem segment_store {xs : List String} {start : Nat} {s : Shape}
    (hstands : Stands accept start (storeShapes s xs)) (hend : accept (start + xs.length) s) :
    Segment functions accept start (s.raise xs.length) (xs.map .store) (storeShapes s xs) := by
  induction xs generalizing start with
  | nil => exact .nil hend
  | cons x xs ih =>
    refine .cons hstands (ih hstands.tail ?_) fun hnext => ⟨s.raise xs.length, rfl, hnext⟩
    rwa [Nat.add_assoc, Nat.add_comm 1]

/-- The code of a pattern takes one operand and binds the names. -/
theorem Pattern.segment {constant : Bool} {start : Nat} {s : Shape} (pattern : Pattern)
    (hstands : Stands accept start (pattern.shapes s))
    (hend : accept (start + (pattern.code constant).length) (s.bind pattern.names)) :
    Segment functions accept start (s.raise 1) (pattern.code constant) (pattern.shapes s) := by
  cases pattern with
  | single x => exact .single hstands ⟨s, rfl, hend⟩
  | tuple xs =>
    refine .cons hstands (segment_declare hstands.tail ?_) fun hnext => ⟨s, rfl, hnext⟩
    simpa [Pattern.code, Pattern.names, Nat.add_assoc, Nat.add_comm 1] using hend

variable (hfunctions : Entered names functions accept)
include hfunctions

theorem Expr.segmentOrNull {start : Nat} {s : Shape} {e : Option Expr}
    (hstands : Stands accept start (Expr.shapesOrNull names s e))
    (hend : accept (start + (Expr.codeOrNull names start e).length) (s.raise 1)) :
    Segment functions accept start s (Expr.codeOrNull names start e)
      (Expr.shapesOrNull names s e) := by
  cases e with
  | none => exact .single hstands hend
  | some e => exact Expr.segment hfunctions e hstands hend

/-- The code of an object and of an index leaves both of them. -/
theorem Expr.segmentPair {start : Nat} {s : Shape} {object i : Expr}
    (hstands : Stands accept start (object.shapes names s ++ i.shapes names (s.raise 1)))
    (hend : accept (start + (object.code names start ++
      i.code names (start + (object.code names start).length)).length) (s.raise 2)) :
    Segment functions accept start s
      (object.code names start ++ i.code names (start + (object.code names start).length))
      (object.shapes names s ++ i.shapes names (s.raise 1)) := by
  refine .append hstands (Expr.length_shapes _ _ _ _) (fun hstands => ?_)
    (Expr.segment hfunctions object)
  exact Expr.segment hfunctions i hstands (by simpa [Nat.add_assoc] using hend)

/-- The code of an assignment leaves as many operands as it finds. -/
theorem Target.segment {start : Nat} {s : Shape} {op : Option BinaryOp} {value : Expr}
    (target : Target) (hstands : Stands accept start (target.shapes names s op value))
    (hend : accept (start + (target.code names start op value).length) s) :
    Segment functions accept start s (target.code names start op value)
      (target.shapes names s op value) := by
  cases target with
  | name x =>
    cases op with
    | none =>
      exact .snoc hstands (Expr.length_shapes _ _ _ _)
        ⟨s, rfl, by simpa [Target.code, Nat.add_assoc] using hend⟩
        (Expr.segment hfunctions value)
    | some op =>
      refine .append (t := s.raise 2) hstands ?_ (fun hstands => ?_) fun hstands hmiddle => ?_
      · simp [Expr.length_shapes_eq_width, Expr.length_code]
      · refine .cons hstands (.single hstands.tail ⟨s, rfl, ?_⟩) fun hnext => ⟨s, rfl, hnext⟩
        simpa [Target.code, Nat.add_assoc] using hend
      · refine .cons hstands (Expr.segment hfunctions value hstands.tail ?_) id
        simpa [Nat.add_assoc, Nat.add_comm 1] using hmiddle
  | index object i =>
    cases op with
    | none =>
      refine .snoc hstands ?_ ⟨s, rfl, by simpa [Target.code, Nat.add_assoc] using hend⟩
        fun hstands hmiddle => ?_
      · simp [Expr.length_shapes_eq_width, Expr.length_code]
      · refine .append hstands ?_ (fun hstands => ?_) (Expr.segmentPair hfunctions)
        · simp [Expr.length_shapes_eq_width, Expr.length_code]
        · exact Expr.segment hfunctions value hstands (by simpa [Nat.add_assoc] using hmiddle)
    | some op =>
      refine .append (t := s.raise 4) hstands ?_ (fun hstands => ?_) fun hstands hmiddle => ?_
      · simp [Expr.length_shapes_eq_width, Expr.length_code]
      · refine .cons hstands (.single hstands.tail ⟨s, rfl, ?_⟩) fun hnext =>
          ⟨s.raise 2, rfl, hnext⟩
        simpa [Target.code, Nat.add_assoc] using hend
      refine .appendAt (t := s.raise 3) (start + (object.code names start ++
        i.code names (start + (object.code names start).length)).length + 2) ?_ hstands ?_
        (fun hstands => ?_) fun hstands hmiddle => ?_
      · simp [Nat.add_assoc]
      · simp [Expr.length_shapes_eq_width, Expr.length_code]
      · refine Expr.segment hfunctions value hstands ?_
        simpa [Nat.add_assoc, Nat.add_comm 2] using hmiddle
      refine .append hstands ?_ (fun hstands => ?_) (Expr.segmentPair hfunctions)
      · simp [Expr.length_shapes_eq_width, Expr.length_code]
      · refine .cons hstands (.single hstands.tail ⟨s.raise 2, rfl, ?_⟩) fun hnext =>
          ⟨s, rfl, hnext⟩
        simpa [Nat.add_assoc] using hmiddle
  | tuple xs =>
    refine .append hstands (Expr.length_shapes _ _ _ _) (fun hstands => ?_)
      (Expr.segment hfunctions value)
    refine .cons hstands (segment_store hstands.tail ?_) fun hnext => ⟨s, rfl, hnext⟩
    simpa [Target.code, Nat.add_assoc, Nat.add_comm 1] using hend

end Flows

section Flows

variable {names : List String} {functions : Array FunctionEntry} {accept : Nat → Shape → Prop}

mutual

theorem Stmt.length_shapes (iterates : Bool) (s : Shape) :
    (stmt : Stmt) → (stmt.shapes names iterates s).length = stmt.width names iterates
  | .comment _ => rfl
  | .function .. => rfl
  | .declare pattern value constant => by
    simp [Stmt.shapes, Stmt.width, Expr.length_shapesOrNull names 0,
      Pattern.length_shapes s constant]
  | .assign target op value => by
    rcases target with x | ⟨o, i⟩ | xs <;> cases op <;>
      simp [Stmt.shapes, Stmt.width, Target.shapes, Target.code, Expr.length_shapes_eq_width,
        Expr.length_code]
  | .expr _ => by simp [Stmt.shapes, Stmt.width, Expr.length_shapes_eq_width]
  | .cond arms => Arms.length_shapes iterates s arms
  | .while _ body => by
    simp [Stmt.shapes, Stmt.width, Expr.length_shapes_eq_width, Stmt.length_allShapes _ _ body]
    omega
  | .forEach pattern _ body => by
    simp [Stmt.shapes, Stmt.width, Expr.length_shapes_eq_width, Stmt.length_allShapes _ _ body,
      Pattern.length_shapes s.iterate false]
    omega
  | .return value => by
    simp [Stmt.shapes, Stmt.width, Expr.length_shapesOrNull names 0]
  | .break => by cases iterates <;> rfl
  | .continue => rfl
  | .throw _ _ => by simp [Stmt.shapes, Stmt.width, Expr.length_shapes_eq_width]

theorem Stmt.length_allShapes (iterates : Bool) (s : Shape) :
    (stmts : List Stmt) →
      (Stmt.allShapes names iterates s stmts).length = Stmt.widths names iterates stmts
  | [] => rfl
  | stmt :: rest => by
    simp [Stmt.allShapes, Stmt.widths, Stmt.length_shapes iterates s stmt,
      Stmt.length_allShapes iterates _ rest]

theorem Arms.length_shapes (iterates : Bool) (s : Shape) :
    (arms : Arms) → (arms.shapes names iterates s).length = arms.width names iterates
  | .done => rfl
  | .otherwise body => Stmt.length_allShapes iterates s body
  | .arm _ body rest => by
    simp [Arms.shapes, Arms.width, Expr.length_shapes_eq_width, Stmt.length_allShapes _ _ body,
      Arms.length_shapes iterates s rest]
    omega

end

/-- The jumps that the surroundings of a statement allow are accepted. -/
structure Around (accept : Nat → Shape → Prop) (loop : LoopTargets) (around : Surroundings)
    (s : Shape) : Prop where
  returns : around.inFunction = true → s.inFunction = true
  next : around.inLoop = true → accept loop.next s
  iterators : around.inLoop = true → loop.iterates = true → 1 ≤ s.iterators
  exit : around.inLoop = true → accept loop.exit (if loop.iterates then s.drop else s)

theorem Around.refine (hupward : Upward accept) {loop : LoopTargets} {around : Surroundings}
    {s t : Shape} (h : Around accept loop around s) (ht : t.Refines s) :
    Around accept loop around t := by
  refine ⟨fun hf => ?_, fun hl => ?_, fun hl hi => ?_, fun hl => ?_⟩
  · rw [ht.inFunction]
    exact h.returns hf
  · exact hupward _ _ _ (h.next hl) ht
  · rw [ht.iterators]
    exact h.iterators hl hi
  · refine hupward _ _ _ (h.exit hl) ?_
    split
    · exact ht.drop
    · exact ht

theorem Shape.refines_after (s : Shape) (stmt : Stmt) : (s.after stmt).Refines s :=
  .knows (stmt.subset_boundAfter s.bound)

theorem Shape.refines_afterAll (s : Shape) (stmts : List Stmt) : (s.afterAll stmts).Refines s :=
  .knows (Stmt.subset_allBoundAfter s.bound stmts)

/-- What is bound after all arms is bound after the first one and after the others. -/
theorem accept_arm (hupward : Upward accept) {exit : Nat} {s : Shape} {condition : Expr}
    {body : List Stmt} {rest : Arms}
    (h : accept exit
      (s.knows (((Arms.arm condition body rest).boundAfter s.bound).getD s.bound))) :
    accept exit (s.knows ((rest.boundAfter s.bound).getD s.bound)) ∧
      accept exit (s.afterAll body) := by
  simp only [Arms.boundAfter] at h
  cases hrest : rest.boundAfter s.bound with
  | none =>
    rw [hrest] at h
    exact ⟨h, hupward _ _ _ h (s.refines_afterAll body)⟩
  | some after =>
    rw [hrest] at h
    refine ⟨hupward _ _ _ h (.knows fun x hx => ?_), hupward _ _ _ h (.knows fun x hx => ?_)⟩
    · exact (mem_meet.1 hx).2
    · exact (mem_meet.1 hx).1

mutual

/-- The code of a statement leaves as many operands as it finds. -/
theorem Stmt.segment (hfunctions : Entered names functions accept) (hupward : Upward accept)
    {d : Dialect} {loop : LoopTargets} {around : Surroundings} {start : Nat} {s : Shape} :
    (stmt : Stmt) → stmt.WellFormed d around → Around accept loop around s →
      Stands accept start (stmt.shapes names loop.iterates s) →
        accept (start + (stmt.code names loop start).length) (s.after stmt) →
          Segment functions accept start s (stmt.code names loop start)
            (stmt.shapes names loop.iterates s)
  | .comment _, _, _, _, hend => .nil hend
  | .function .., _, _, _, hend => .nil hend
  | .declare pattern value constant, _, _, hstands, hend => by
    refine .append hstands (Expr.length_shapesOrNull _ _ _ _) (fun hstands => ?_)
      (Expr.segmentOrNull hfunctions)
    have hbound : accept _ (s.bind pattern.names) := hend
    exact pattern.segment hstands (by simpa [Stmt.code, Nat.add_assoc] using hbound)
  | .assign target op value, _, _, hstands, hend => target.segment hfunctions hstands hend
  | .expr value, _, _, hstands, hend => by
    have hend : accept _ s := hend
    exact .snoc hstands (Expr.length_shapes _ _ _ _)
      ⟨s, rfl, by simpa [Stmt.code, Nat.add_assoc] using hend⟩ (Expr.segment hfunctions value)
  | .cond arms, hwf, haround, hstands, hend => by
    have hlength : (Stmt.cond arms).width names loop.iterates =
        arms.width names loop.iterates := rfl
    refine Arms.segment hfunctions hupward arms hwf.2 haround hstands ?_ ?_
    · rwa [Stmt.length_code, hlength] at hend
    · rfl
  | .while condition body, hwf, haround, hstands, hend => by
    have hend : accept _ s := hend
    have hstart := Expr.accept_start hstands.append.1.append.1
    refine .snoc hstands ?_ (hupward _ _ _ hstart (s.refines_afterAll body))
      fun hstands hmiddle => ?_
    · simp [Expr.length_shapes_eq_width, Expr.length_code, Stmt.length_allShapes,
        Stmt.length_codes]
    have hexit : accept (start + (condition.code names start).length + 1 +
        Stmt.widths names false body + 1) s := by
      rw [Stmt.length_code, Stmt.width, ← Expr.length_code names start] at hend
      rwa [show start + (condition.code names start).length + 1 + Stmt.widths names false body + 1 =
        start + ((condition.code names start).length + Stmt.widths names false body + 2) by omega]
    refine .append hstands (Expr.length_shapes _ _ _ _) (fun hstands => ?_)
      (Expr.segment hfunctions condition)
    refine .cons hstands (Stmt.allSegment hfunctions hupward body hwf.2 ?_ hstands.tail ?_)
      fun hnext => ?_
    · exact ⟨haround.returns, fun _ => hstart, fun _ h => (nomatch h), fun _ => hexit⟩
    · simpa [Stmt.length_codes, Nat.add_assoc, Nat.add_comm 1] using hmiddle
    · exact ⟨s, rfl, hnext, hexit⟩
  | .forEach pattern iterable body, hwf, haround, hstands, hend => by
    have hend : accept _ s := hend
    have hhead : accept (start + (iterable.code names start).length + 1) s.iterate := by
      have := hstands.append.1.append.1.append.2.tail.head
      rwa [Expr.length_shapes] at this
    have hexit : accept (start + (iterable.code names start).length + 1 + 1 +
        (pattern.code false).length + Stmt.widths names true body + 1) s := by
      rw [Stmt.length_code, Stmt.width, ← Expr.length_code names start] at hend
      rwa [show start + (iterable.code names start).length + 1 + 1 + (pattern.code false).length +
        Stmt.widths names true body + 1 = start + ((iterable.code names start).length +
          (pattern.code false).length + Stmt.widths names true body + 3) by omega]
    have hinside : (s.iterate.bind pattern.names).Refines s.iterate :=
      .knows (subset_bindNames pattern.names s.iterate.bound)
    refine .snoc hstands ?_ (hupward _ _ _ hhead ?_) fun hstands hmiddle => ?_
    · simp [Expr.length_shapes_eq_width, Expr.length_code, Stmt.length_allShapes,
        Stmt.length_codes, Pattern.length_shapes s.iterate false]
    · exact ((s.iterate.bind pattern.names).refines_afterAll body).trans hinside
    refine .appendAt (t := s.iterate.bind pattern.names)
      (start + (iterable.code names start).length + 1 + 1 + (pattern.code false).length) ?_ hstands
      ?_ (fun hstands => ?_) fun hstands hfirst => ?_
    · simp only [List.length_append, List.length_cons]
      omega
    · simp [Expr.length_shapes_eq_width, Expr.length_code, Pattern.length_shapes s.iterate false]
    · refine Stmt.allSegment hfunctions hupward body hwf.2.2
        ⟨haround.returns, fun _ => ?_, fun _ _ => ?_, fun _ => ?_⟩
        hstands ?_
      · exact hupward _ _ _ hhead hinside
      · exact Nat.le_add_left 1 s.iterators
      · exact hupward _ _ _ hexit hinside.drop
      · simpa [Nat.add_assoc, Nat.add_comm 2] using hmiddle
    · refine .append hstands (Expr.length_shapes _ _ _ _) (fun hstands => ?_)
        (Expr.segment hfunctions iterable)
      refine .cons hstands (.cons hstands.tail (pattern.segment hstands.tail.tail ?_)
        fun hnext => ⟨s, rfl, hnext, hexit⟩) fun hnext => ⟨s, rfl, hnext⟩
      simpa [Nat.add_assoc, Nat.add_comm 1] using hfirst
  | .return value, hwf, haround, hstands, _ =>
    .snoc hstands (Expr.length_shapesOrNull _ _ _ _) ⟨haround.returns hwf.1, s, rfl⟩
      (Expr.segmentOrNull hfunctions)
  | .break, hwf, haround, hstands, _ => by
    obtain ⟨next, exit, iterates⟩ := loop
    cases iterates with
    | false => exact .single hstands (haround.exit hwf)
    | true =>
      refine .cons hstands (.single hstands.tail (haround.exit hwf)) fun hnext => ?_
      exact ⟨s.drop, (Shape.iterate_drop (haround.iterators hwf rfl)).symm, hnext⟩
  | .continue, hwf, haround, hstands, _ => .single hstands (haround.next hwf)
  | .throw _ message, _, _, hstands, _ =>
    .snoc hstands (Expr.length_shapes _ _ _ _) ⟨s, rfl⟩ (Expr.segment hfunctions message)

theorem Stmt.allSegment (hfunctions : Entered names functions accept) (hupward : Upward accept)
    {d : Dialect} {loop : LoopTargets} {around : Surroundings} {start : Nat} {s : Shape} :
    (stmts : List Stmt) → Stmt.AllWellFormed d around stmts → Around accept loop around s →
      Stands accept start (Stmt.allShapes names loop.iterates s stmts) →
        accept (start + (Stmt.codes names loop start stmts).length) (s.afterAll stmts) →
          Segment functions accept start s (Stmt.codes names loop start stmts)
            (Stmt.allShapes names loop.iterates s stmts)
  | [], _, _, _, hend => .nil hend
  | stmt :: rest, hwf, haround, hstands, hend => by
    refine .append hstands ?_ (fun hstands => ?_)
      (Stmt.segment hfunctions hupward stmt hwf.1 haround)
    · rw [Stmt.length_shapes, Stmt.length_code]
    · have hend : accept _ ((s.after stmt).afterAll rest) := hend
      refine Stmt.allSegment hfunctions hupward rest hwf.2
        (haround.refine hupward (s.refines_after stmt)) hstands ?_
      simpa [Stmt.codes, Nat.add_assoc] using hend

/-- The code of the arms of a conditional statement leaves what is bound after all of them. -/
theorem Arms.segment (hfunctions : Entered names functions accept) (hupward : Upward accept)
    {d : Dialect} {loop : LoopTargets} {around : Surroundings} {exit start : Nat} {s : Shape} :
    (arms : Arms) → arms.WellFormed d around → Around accept loop around s →
      Stands accept start (arms.shapes names loop.iterates s) →
        accept exit (s.knows ((arms.boundAfter s.bound).getD s.bound)) →
          exit = start + arms.width names loop.iterates →
            Segment functions accept start s (arms.code names loop exit start)
              (arms.shapes names loop.iterates s)
  | .done, _, _, _, hend, hexit => .nil (by rwa [hexit] at hend)
  | .otherwise body, hwf, haround, hstands, hend, hexit =>
    Stmt.allSegment hfunctions hupward body hwf haround hstands
      (by rw [Stmt.length_codes]; exact hexit ▸ hend)
  | .arm condition body rest, hwf, haround, hstands, hend, hexit => by
    obtain ⟨hrest, hbody⟩ := accept_arm hupward hend
    have hlength : (condition.shapes names s ++
        s.raise 1 :: Stmt.allShapes names loop.iterates s body).length =
          (condition.code names start).length + 1 + (Stmt.codes names loop
            (start + (condition.code names start).length + 1) body).length := by
      simp [Expr.length_shapes_eq_width, Expr.length_code, Stmt.length_allShapes,
        Stmt.length_codes, Nat.add_assoc, Nat.add_comm 1]
    -- The arms that are left are where the condition leads when it does not hold.
    have hsegment := hstands.append.2.tail
    rw [hlength, ← Nat.add_assoc, ← Nat.add_assoc] at hsegment
    replace hsegment := Arms.segment hfunctions hupward rest hwf.2.2 haround hsegment hrest
      (by simp only [hexit, Arms.width, Expr.length_code, Stmt.length_codes]; omega)
    refine .appendAt (t := s.afterAll body) (start + (condition.code names start).length + 1 +
      (Stmt.codes names loop (start + (condition.code names start).length + 1) body).length) ?_
      hstands ?_ (fun hstands => .cons hstands hsegment fun _ => hbody) fun hstands hmiddle => ?_
    · simp only [List.length_append, List.length_cons]
      omega
    · rw [hlength]
      simp only [List.length_append, List.length_cons]
      omega
    refine .append hstands (Expr.length_shapes _ _ _ _) (fun hstands => ?_)
      (Expr.segment hfunctions condition)
    refine .cons hstands
      (Stmt.allSegment hfunctions hupward body hwf.2.1 haround hstands.tail hmiddle)
      fun hnext => ?_
    exact ⟨s, rfl, hnext, hsegment.accepted⟩

end

end Flows

end Labyrinth
