import Labyrinth.Proofs.Language.WellFormed
import Labyrinth.Proofs.Machine.Contexts

/-!
# The machine follows the tree

The code of an expression follows its evaluation and leaves the value on the stack. The code of a
statement follows its execution and goes on where the control flows: behind the statement, at one of
the targets of the loop around it, or at the caller of the function.

## Main results

* `Expr.follows`, `Stmt.follows`: the code of a tree follows the tree.
* `followsCalls`: calls follow calls.
-/

namespace Labyrinth

open Labyrinth.Action

/-- A piece of code stands at a position. -/
def Code.Holds (code : Code) (start : Nat) (instrs : List Instr) : Prop :=
  ∀ (i : Nat) (instr : Instr), instrs[i]? = some instr →
    code.instructions[start + i]? = some instr

namespace Code.Holds

variable {code : Code} {start : Nat} {instr : Instr} {is js : List Instr}

theorem append (h : code.Holds start (is ++ js)) :
    code.Holds start is ∧ code.Holds (start + is.length) js := by
  refine ⟨fun i instr hi => h i instr ?_, fun i instr hi => ?_⟩
  · obtain ⟨hlt, -⟩ := List.getElem?_eq_some_iff.1 hi
    rw [List.getElem?_append_left hlt, hi]
  · rw [Nat.add_assoc]
    refine h (is.length + i) instr ?_
    rw [List.getElem?_append_right (Nat.le_add_right _ _), Nat.add_sub_cancel_left, hi]

theorem head (h : code.Holds start (instr :: is)) : code.instructions[start]? = some instr :=
  h 0 instr rfl

theorem tail (h : code.Holds start (instr :: is)) : code.Holds (start + 1) is :=
  (show code.Holds start ([instr] ++ is) from h).append.2

/-- The instruction behind a piece of code. -/
theorem last (h : code.Holds start (is ++ [instr])) :
    code.instructions[start + is.length]? = some instr := h.append.2.head

end Code.Holds

/-! ### Expressions -/

/-- So many values lie on the stack, the first one lowest. -/
def Context.AtAll (c : Context) (position count : Nat) (stack : Array Value) (values : List Value)
    (scene : Scene) (st : State) : Prop :=
  values.length = count ∧ c.At position (stack ++ values.toArray) scene st

/-- The machine follows the calls of functions. -/
def FollowsCalls (code : Code) (maxCalls : Nat) (definitions : List Definition) (fuel : Nat) :
    Prop :=
  ∀ (c : Context) (p : Nat) (stack : Array Value) (scene : Scene) (i : Nat) (d : Definition)
    (args : List Value), definitions[i]? = some d →
      code.instructions[p]? = some (.call i args.length) →
        Follows code maxCalls fuel (c.state p (stack ++ args.toArray) scene) scene
          (callAt definitions maxCalls fuel c.depth d args) fun v => c.At (p + 1) (stack.push v)

/-- The function with a given name is the one at the position of the name. -/
theorem find?_of_idxOf? {definitions : List Definition} {f : String} {i : Nat}
    (h : (definitions.map Definition.name).idxOf? f = some i) :
    ∃ d, definitions[i]? = some d ∧ definitions.find? (·.name == f) = some d := by
  induction definitions generalizing i with
  | nil => cases h
  | cons d rest ih =>
    rw [List.map_cons, List.idxOf?_cons] at h
    cases hname : d.name == f with
    | true =>
      rw [if_pos hname] at h
      cases h
      exact ⟨d, rfl, List.find?_cons_of_pos hname⟩
    | false =>
      rw [if_neg (by simp [hname])] at h
      obtain ⟨j, hj, rfl⟩ := Option.map_eq_some_iff.1 h
      obtain ⟨e, he, hfind⟩ := ih hj
      refine ⟨e, he, ?_⟩
      rwa [List.find?_cons_of_neg (by simp [hname])]

theorem find?_of_idxOf?_eq_none {definitions : List Definition} {f : String}
    (h : (definitions.map Definition.name).idxOf? f = none) :
    definitions.find? (·.name == f) = none := by
  rw [List.idxOf?_eq_none_iff] at h
  refine List.find?_eq_none.2 fun d hd hname => h ?_
  exact List.mem_map.2 ⟨d, hd, by simpa using hname⟩

section Simulation

variable {code : Code} {maxCalls fuel : Nat} {definitions : List Definition}
  {names : List String} (hnames : names = definitions.map Definition.name)
  (hcalls : FollowsCalls code maxCalls definitions fuel)

/-- A postcondition may be stated for another name of the position. -/
theorem Follows.moved {α : Type} {c : Context} {q q' : Nat} {st : State} {scene : Scene}
    {a : Eval α} {f : α → Array Value}
    (h : Follows code maxCalls fuel st scene a fun v => c.At q (f v)) (hq : q = q') :
    Follows code maxCalls fuel st scene a fun v => c.At q' (f v) := hq ▸ h

include hnames hcalls

mutual

/-- The code of an expression follows its evaluation and leaves the value on the stack. -/
theorem Expr.follows {c : Context} {start : Nat} {stack : Array Value} {scene : Scene} :
    (e : Expr) → code.Holds start (e.code names start) →
      Follows code maxCalls fuel (c.state start stack scene) scene
        (e.eval (settingAt definitions maxCalls fuel c.depth))
        fun v => c.At (start + (e.code names start).length) (stack.push v)
  | .literal value, hcode => .silent_le hcode.head (c.push_bind _ _ _ _ _) (.pure rfl)
  | .name x, hcode => .load hcode.head
  | .list items, hcode => by
    refine .bind (Expr.allFollows items hcode.append.1) ?_
    rintro values scene' _ ⟨hlength, rfl⟩
    refine .moved (.compute hcode.last ?_) (by simp [Expr.code, Nat.add_assoc])
    rw [Instr.execute, ← hlength, c.popMany_bind]
  | .emptySet, hcode => by
    refine .silent_le hcode.head (c.push_bind _ _ _ _ _) (.moved (.compute hcode.tail.head ?_) rfl)
    rw [Instr.execute, c.pop_bind]
    rfl
  | .setOf source, hcode => by
    refine .bind (Expr.follows source hcode.append.1) ?_
    rintro v scene' _ rfl
    refine .moved (.compute hcode.last ?_) (by simp [Expr.code, Nat.add_assoc])
    rw [Instr.execute, c.pop_bind]
  | .emptyMap, hcode => by
    refine .silent_le hcode.head (c.push_bind _ _ _ _ _) (.moved (.compute hcode.tail.head ?_) rfl)
    rw [Instr.execute, c.pop_bind]
    rfl
  | .mapOf source, hcode => by
    refine .bind (Expr.follows source hcode.append.1) ?_
    rintro v scene' _ rfl
    refine .moved (.compute hcode.last ?_) (by simp [Expr.code, Nat.add_assoc])
    rw [Instr.execute, c.pop_bind]
  | .unary op operand, hcode => by
    refine .bind (Expr.follows operand hcode.append.1) ?_
    rintro v scene' _ rfl
    refine .moved (.compute hcode.last ?_) (by simp [Expr.code, Nat.add_assoc])
    rw [Instr.execute, c.pop_bind]
    rfl
  | .binary op lhs rhs, hcode => by
    refine .bind (Expr.follows lhs hcode.append.1.append.1) ?_
    rintro x scene' _ rfl
    refine .bind (Expr.follows rhs hcode.append.1.append.2) ?_
    rintro y scene'' _ rfl
    have hop := hcode.last
    rw [List.length_append, ← Nat.add_assoc] at hop
    exact .moved (.binary hop) (by simp [Expr.code, Nat.add_assoc])
  | .logical op lhs rhs, hcode => by
    refine .bind (Expr.follows lhs hcode.append.1) ?_
    rintro v scene' _ rfl
    have hright := hcode.append.2.tail
    cases op with
    | and =>
      refine .bind (.jumpIfFalseElsePop hcode.append.2.head) ?_
      rintro (_ | _) scene'' _ rfl
      · exact .pure (by simp [Context.At, Expr.code, Nat.add_assoc, Nat.add_comm 1])
      · refine .moved (Expr.follows rhs hright) ?_
        simp [Expr.code, Nat.add_assoc, Nat.add_comm 1]
    | or =>
      refine .bind (.jumpIfTrueElsePop hcode.append.2.head) ?_
      rintro (_ | _) scene'' _ rfl
      · refine .moved (Expr.follows rhs hright) ?_
        simp [Expr.code, Nat.add_assoc, Nat.add_comm 1]
      · exact .pure (by simp [Context.At, Expr.code, Nat.add_assoc, Nat.add_comm 1])
  | .call f args, hcode => by
    cases hf : names.idxOf? f with
    | none =>
      simp only [Expr.code, hf] at hcode ⊢
      have hfind := find?_of_idxOf?_eq_none (hnames ▸ hf)
      simp only [Expr.eval, settingAt, hfind]
      exact .fail (Context.next_state hcode.head _ _ _ _ _)
    | some i =>
      simp only [Expr.code, hf] at hcode ⊢
      obtain ⟨d, hd, hfind⟩ := find?_of_idxOf? (hnames ▸ hf)
      simp only [Expr.eval, settingAt, hfind]
      refine .bind (Expr.allFollows args hcode.append.1) ?_
      rintro values scene' _ ⟨hlength, rfl⟩
      have hcall := hcode.last
      rw [← hlength] at hcall
      refine .moved (hcalls c _ stack scene' i d values hd hcall) (by simp [Nat.add_assoc])
  | .builtin function args, hcode => by
    have hcall := hcode.last
    cases function with
    | print =>
      refine .bind (Expr.allFollows args hcode.append.1) ?_
      rintro values scene' _ ⟨hlength, rfl⟩
      rw [← hlength] at hcall
      exact .moved (.print hcall) (by simp [Expr.code, Nat.add_assoc])
    | _ =>
      refine .bind (Expr.allFollows args hcode.append.1) ?_
      rintro values scene' _ ⟨hlength, rfl⟩
      refine .moved (.compute hcall ?_) (by simp [Expr.code, Nat.add_assoc])
      rw [← hlength]
      exact c.popMany_bind _ _ _ _ _
  | .capability cap args, hcode => by
    refine .bind (Expr.allFollows args hcode.append.1) ?_
    rintro values scene' _ ⟨hlength, rfl⟩
    have hcall := hcode.last
    rw [← hlength] at hcall
    exact .moved (.perform hcall) (by simp [Expr.code, Nat.add_assoc])
  | .method receiver m args, hcode => by
    refine .bind (Expr.follows receiver hcode.append.1.append.1) ?_
    rintro object scene' _ rfl
    refine .bind (Expr.allFollows args hcode.append.1.append.2) ?_
    rintro values scene'' _ ⟨hlength, rfl⟩
    have hcall := hcode.last
    rw [List.length_append, ← Nat.add_assoc] at hcall
    refine .moved (.compute hcall ?_) (by simp [Expr.code, Nat.add_assoc])
    rw [Instr.execute, ← hlength, c.popMany_bind, c.pop_bind]
  | .index object i, hcode => by
    refine .bind (Expr.follows object hcode.append.1.append.1) ?_
    rintro o scene' _ rfl
    refine .bind (Expr.follows i hcode.append.1.append.2) ?_
    rintro k scene'' _ rfl
    have hload := hcode.last
    rw [List.length_append, ← Nat.add_assoc] at hload
    exact .moved (.loadIndex hload) (by simp [Expr.code, Nat.add_assoc])
  | .attribute object key, hcode => by
    refine .bind (Expr.follows object hcode.append.1) ?_
    rintro o scene' _ rfl
    refine .moved (.compute hcode.last ?_) (by simp [Expr.code, Nat.add_assoc])
    rw [Instr.execute, c.pop_bind]
    rfl

/-- The code of several expressions leaves their values on the stack. -/
theorem Expr.allFollows {c : Context} {start : Nat} {stack : Array Value} {scene : Scene} :
    (es : List Expr) → code.Holds start (Expr.codes names start es) →
      Follows code maxCalls fuel (c.state start stack scene) scene
        (Expr.evalAll (settingAt definitions maxCalls fuel c.depth) es)
        (c.AtAll (start + (Expr.codes names start es).length) es.length stack)
  | [], _ => .pure ⟨rfl, by simp [Context.At, Expr.codes]⟩
  | e :: rest, hcode => by
    refine .bind (Expr.follows e hcode.append.1) ?_
    rintro v scene' _ rfl
    refine .bind (Expr.allFollows rest hcode.append.2) ?_
    rintro values scene'' _ ⟨hlength, rfl⟩
    refine .pure ⟨congrArg (· + 1) hlength, ?_⟩
    simp [Context.At, Expr.codes, Nat.add_assoc]

end

end Simulation

end Labyrinth
