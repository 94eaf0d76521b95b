import Labyrinth.Proofs.Machine.Layout

/-!
# The layout of programs

The layout of a program consists of the shapes of its top level and of those of its functions,
in the order of the code. Every instruction of a well-formed program flows along it.

## Main results

* `laid_lower`: the code of a well-formed program has a layout.
-/

namespace Labyrinth

/-- A code whose instructions all flow along a layout. -/
structure Laid (code : Code) (layout : List Shape) : Prop where
  size : code.instructions.size = layout.length
  start : Accepts layout 0 .top
  flows : ∀ (position : Nat) (instr : Instr) (s : Shape),
    code.instructions[position]? = some instr → layout[position]? = some s →
      instr.Flows code.functions (Accepts layout) (position + 1) s

/-! ### Where functions begin -/

section Heads

variable (names : List String) (iterates : Bool)

mutual

/-- A statement begins with the shape that it is given, also where it has no instructions. -/
theorem Stmt.head?_shapes (s : Shape) :
    (stmt : Stmt) → (stmt.shapes names iterates s ++ [s.after stmt]).head? = some s
  | .comment _ => rfl
  | .function .. => rfl
  | .declare _ none _ => rfl
  | .declare _ (some e) _ => by simp [Stmt.shapes, Expr.shapesOrNull, Expr.head?_shapes]
  | .assign target op value => by
    rcases target with x | ⟨o, i⟩ | xs <;> cases op <;>
      simp [Stmt.shapes, Target.shapes, Expr.head?_shapes]
  | .expr _ => by simp [Stmt.shapes, Expr.head?_shapes]
  | .cond arms => Arms.head?_shapes s arms
  | .while _ _ => by simp [Stmt.shapes, Expr.head?_shapes]
  | .forEach .. => by simp [Stmt.shapes, Expr.head?_shapes]
  | .return none => rfl
  | .return (some e) => by simp [Stmt.shapes, Expr.shapesOrNull, Expr.head?_shapes]
  | .break => by cases iterates <;> rfl
  | .continue => rfl
  | .throw _ _ => by simp [Stmt.shapes, Expr.head?_shapes]

theorem Stmt.head?_allShapes (s : Shape) :
    (stmts : List Stmt) →
      (Stmt.allShapes names iterates s stmts ++ [s.afterAll stmts]).head? = some s
  | [] => rfl
  | stmt :: rest => by
    have hrest := Stmt.head?_allShapes (s.after stmt) rest
    have hstmt := Stmt.head?_shapes s stmt
    have hafter : s.afterAll (stmt :: rest) = (s.after stmt).afterAll rest := rfl
    rw [Stmt.allShapes, hafter, List.append_assoc, List.head?_append, hrest]
    rwa [List.head?_append] at hstmt

theorem Arms.head?_shapes (s : Shape) :
    (arms : Arms) → (arms.shapes names iterates s ++
      [s.knows ((arms.boundAfter s.bound).getD s.bound)]).head? = some s
  | .done => rfl
  | .otherwise body => Stmt.head?_allShapes s body
  | .arm _ _ _ => by simp [Arms.shapes, Expr.head?_shapes]

end

end Heads

/-! ### Functions -/

/-- The shapes of the code of a function. -/
def Definition.shapes (names : List String) (d : Definition) : List Shape :=
  let after := (Shape.entry d.params).afterAll d.body
  Stmt.allShapes names false (.entry d.params) d.body ++ [after, after.raise 1]

/-- The layout of a program. -/
def layout (program : List Stmt) : List Shape :=
  let definitions := Stmt.allDefinitions program
  let names := definitions.map Definition.name
  Stmt.allShapes names false .top program ++ [Shape.top.afterAll program] ++
    definitions.flatMap (Definition.shapes names)

section Definitions

variable {names : List String} {functions : Array FunctionEntry} {accept : Nat → Shape → Prop}

theorem Definition.length_shapes (names : List String) (start : Nat) (d : Definition) :
    (d.shapes names).length = (d.code names start).length := by
  simp [Definition.shapes, Definition.code, Stmt.length_allShapes, Stmt.length_codes,
    LoopTargets.none]

theorem Definition.accept_start {start : Nat} {d : Definition}
    (h : Stands accept start (d.shapes names)) : accept start (.entry d.params) := by
  have hhead := Stmt.head?_allShapes names false (.entry d.params) d.body
  obtain ⟨rest, hrest⟩ := List.head?_eq_some_iff.1 hhead
  rw [Definition.shapes, List.append_cons, hrest, List.cons_append] at h
  exact h.head

/-- The function at an index begins where the table says. -/
theorem Definition.entry_codes {definitions : List Definition} {start i : Nat} {d : Definition}
    (hstands : Stands accept start (definitions.flatMap (Definition.shapes names)))
    (hd : definitions[i]? = some d) :
    ∃ f : FunctionEntry, (Definition.codes names start definitions).2[i]? = some f ∧
      f.params = d.params ∧ accept f.entry (.entry f.params) := by
  induction definitions generalizing start i with
  | nil => simp at hd
  | cons first rest ih =>
    rw [List.flatMap_cons] at hstands
    cases i with
    | zero =>
      cases hd
      exact ⟨_, rfl, rfl, Definition.accept_start hstands.append.1⟩
    | succ i =>
      have htail := hstands.append.2
      rw [Definition.length_shapes names start] at htail
      exact ih htail hd

/-- The code of a function flows along its shapes. -/
theorem Definition.segment (hfunctions : Entered names functions accept)
    (hupward : Upward accept) {dialect : Dialect} {d : Definition} {start : Nat}
    (hwf : Stmt.AllWellFormed dialect .function d.body)
    (hstands : Stands accept start (d.shapes names)) :
    Segment functions accept start (.entry d.params) (d.code names start) (d.shapes names) := by
  refine .append (t := (Shape.entry d.params).afterAll d.body) hstands ?_ (fun hend => ?_)
    fun hstands hend => ?_
  · simp [Stmt.length_allShapes, Stmt.length_codes, LoopTargets.none]
  · exact .cons hend (.single hend.tail ⟨rfl, _, rfl⟩) id
  · refine Stmt.allSegment hfunctions hupward d.body hwf ?_ hstands hend
    exact ⟨fun _ => rfl, fun h => (nomatch h), fun h => (nomatch h), fun h => nomatch h⟩

/-- The code of function bodies flows along their shapes. -/
theorem Definition.allFlow (hfunctions : Entered names functions accept)
    (hupward : Upward accept) {dialect : Dialect} {definitions : List Definition} {start : Nat}
    (hwf : ∀ d ∈ definitions, Stmt.AllWellFormed dialect .function d.body)
    (hstands : Stands accept start (definitions.flatMap (Definition.shapes names))) :
    AllFlow functions accept start (Definition.codes names start definitions).1
      (definitions.flatMap (Definition.shapes names)) := by
  induction definitions generalizing start with
  | nil => trivial
  | cons d rest ih =>
    obtain ⟨hd, hrest⟩ := List.forall_mem_cons.1 hwf
    rw [List.flatMap_cons] at hstands ⊢
    obtain ⟨hfirst, hothers⟩ := hstands.append
    rw [Definition.length_shapes names start] at hothers
    exact (Definition.segment hfunctions hupward hd hfirst).flow.append (ih hrest hothers)

/-- The code of the top level flows along its shapes. -/
theorem Stmt.segment_top (hfunctions : Entered names functions accept) (hupward : Upward accept)
    {dialect : Dialect} {program : List Stmt} (hwf : Stmt.AllWellFormed dialect .top program)
    (hstands : Stands accept 0
      (Stmt.allShapes names false .top program ++ [Shape.top.afterAll program])) :
    Segment functions accept 0 .top (Stmt.codes names .none 0 program ++ [Instr.halt])
      (Stmt.allShapes names false .top program ++ [Shape.top.afterAll program]) := by
  refine .snoc hstands ?_ ⟨rfl, rfl, rfl⟩ fun hstands hend => ?_
  · simp [Stmt.length_allShapes, Stmt.length_codes, LoopTargets.none]
  · refine Stmt.allSegment hfunctions hupward program hwf ?_ hstands hend
    exact ⟨fun h => (nomatch h), fun h => (nomatch h), fun h => (nomatch h), fun h => nomatch h⟩

end Definitions

mutual

/-- The bodies of the functions of a well-formed statement are well-formed. -/
theorem Stmt.wellFormed_definitions {dialect : Dialect} {around : Surroundings} :
    (stmt : Stmt) → stmt.WellFormed dialect around →
      ∀ d ∈ stmt.definitions, Stmt.AllWellFormed dialect .function d.body
  | .comment _, _ => fun _ h => nomatch h
  | .function _ _ body, hwf => List.forall_mem_cons.2
    ⟨hwf.2.2.2, Stmt.wellFormed_allDefinitions body hwf.2.2.2⟩
  | .declare .., _ => fun _ h => nomatch h
  | .assign .., _ => fun _ h => nomatch h
  | .expr _, _ => fun _ h => nomatch h
  | .cond arms, hwf => Arms.wellFormed_definitions arms hwf.2
  | .while _ body, hwf => Stmt.wellFormed_allDefinitions body hwf.2
  | .forEach _ _ body, hwf => Stmt.wellFormed_allDefinitions body hwf.2.2
  | .return _, _ => fun _ h => nomatch h
  | .break, _ => fun _ h => nomatch h
  | .continue, _ => fun _ h => nomatch h
  | .throw .., _ => fun _ h => nomatch h

theorem Stmt.wellFormed_allDefinitions {dialect : Dialect} {around : Surroundings} :
    (stmts : List Stmt) → Stmt.AllWellFormed dialect around stmts →
      ∀ d ∈ Stmt.allDefinitions stmts, Stmt.AllWellFormed dialect .function d.body
  | [], _ => fun _ h => nomatch h
  | stmt :: rest, hwf => List.forall_mem_append.2
    ⟨Stmt.wellFormed_definitions stmt hwf.1, Stmt.wellFormed_allDefinitions rest hwf.2⟩

theorem Arms.wellFormed_definitions {dialect : Dialect} {around : Surroundings} :
    (arms : Arms) → arms.WellFormed dialect around →
      ∀ d ∈ arms.definitions, Stmt.AllWellFormed dialect .function d.body
  | .done, _ => fun _ h => nomatch h
  | .otherwise body, hwf => Stmt.wellFormed_allDefinitions body hwf
  | .arm _ body rest, hwf => List.forall_mem_append.2
    ⟨Stmt.wellFormed_allDefinitions body hwf.2.1, Arms.wellFormed_definitions rest hwf.2.2⟩

end

/-- Every function that is called by its name is entered with its parameters. -/
theorem entered_lower (program : List Stmt) :
    Entered ((Stmt.allDefinitions program).map Definition.name) (lower program).functions
      (Accepts (layout program)) := by
  intro name i hi
  obtain ⟨hlt, -⟩ := List.idxOf?_eq_some_iff.1 hi
  rw [List.length_map] at hlt
  have hstands := (stands_accepts (layout program)).append.2
  obtain ⟨f, hf, -, haccept⟩ := Definition.entry_codes hstands (List.getElem?_eq_getElem hlt)
  refine ⟨f, ?_, haccept⟩
  simpa [lower, Stmt.length_allShapes, Stmt.length_codes, LoopTargets.none] using hf

/-- The code of a well-formed program has a layout. -/
theorem laid_lower {dialect : Dialect} {program : List Stmt}
    (hwf : Stmt.AllWellFormed dialect .top program) : Laid (lower program) (layout program) := by
  have hfunctions := entered_lower program
  have hupward := upward_accepts (layout program)
  obtain ⟨htop, hbodies⟩ := (stands_accepts (layout program)).append
  have hsegment := Stmt.segment_top hfunctions hupward hwf htop
  have hflow : AllFlow (lower program).functions (Accepts (layout program)) 0
      (lower program).instructions.toList (layout program) := by
    have hfunctionFlow := Definition.allFlow hfunctions hupward
      (Stmt.wellFormed_allDefinitions program hwf) hbodies
    rw [← hsegment.flow.length_eq] at hfunctionFlow
    rw [Nat.zero_add] at hfunctionFlow
    refine hsegment.flow.append ?_
    rwa [Nat.zero_add]
  refine ⟨hflow.length_eq, hsegment.accepted, fun position instr s hinstr hs => ?_⟩
  obtain ⟨t, ht, h⟩ := hflow.get (by simpa using hinstr)
  cases hs.symm.trans ht
  rwa [Nat.zero_add] at h

end Labyrinth
