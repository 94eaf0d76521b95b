import Labyrinth.Proofs.Language.Redeclared
import Labyrinth.Proofs.Machine.Constants
import Labyrinth.Proofs.Machine.ProgramLayout
import Labyrinth.Proofs.Machine.Runs

/-!
# Assignments in place of declarations

Where all names of a declaration are bound for certain, and none of them as a constant, it may as
well be an assignment. The code of the one differs from the code of the other only in instructions
beside which the layout knows the name to be bound, and there the two instructions do the same.

Which names may be constants is a matter of the frame. The frames of a program have their own parts
of its code, from which only calls and returns lead to one another.

## Main results

* `Stmt.allReplaced`: where the codes of the two trees differ.
* `interchangeable_lower`: a step of a machine is the same with either code.
-/

namespace Labyrinth

open Labyrinth.Braced

/-- The instruction declares no constants but the given ones. -/
def Instr.DeclaresIn (constants : List String) : Instr → Prop
  | declare x constant => constant = true → x ∈ constants
  | _ => True

/-- In a frame with the given constants, and beside the shape `s`, the first instruction may be
replaced by the second one. -/
def Instr.Replaceable (constants : List String) (s : Shape) (i j : Instr) : Prop :=
  (i = j ∧ i.DeclaresIn constants) ∨
    ∃ x ∈ s.bound, x ∉ constants ∧ i = .declare x false ∧ j = .store x

/-- Every instruction of a piece of code may be replaced by the one at the same position of
another piece. -/
inductive Replaced (constants : List String) : List Shape → List Instr → List Instr → Prop
  | nil : Replaced constants [] [] []
  | cons {s : Shape} {i j : Instr} {shapes : List Shape} {is js : List Instr} :
    i.Replaceable constants s j → Replaced constants shapes is js →
      Replaced constants (s :: shapes) (i :: is) (j :: js)

namespace Replaced

variable {constants : List String} {xs ys : List Shape} {is js ks ls : List Instr}

/-- A piece of code may be left as it is. -/
theorem same (hlength : xs.length = is.length) (his : ∀ i ∈ is, i.DeclaresIn constants) :
    Replaced constants xs is is := by
  induction is generalizing xs with
  | nil =>
    rw [List.eq_nil_of_length_eq_zero hlength]
    exact .nil
  | cons i is ih =>
    obtain ⟨hi, his⟩ := List.forall_mem_cons.1 his
    cases xs with
    | nil => cases hlength
    | cons x xs => exact .cons (.inl ⟨rfl, hi⟩) (ih (Nat.succ.inj hlength) his)

theorem single {s : Shape} {i : Instr} (hi : i.DeclaresIn constants) :
    Replaced constants [s] [i] [i] := .cons (.inl ⟨rfl, hi⟩) .nil

theorem append (h : Replaced constants xs is js) (h' : Replaced constants ys ks ls) :
    Replaced constants (xs ++ ys) (is ++ ks) (js ++ ls) := by
  induction h with
  | nil => exact h'
  | cons hi _ ih => exact .cons hi ih

theorem length_eq (h : Replaced constants xs is js) : js.length = is.length := by
  induction h with
  | nil => rfl
  | cons _ _ ih => exact congrArg (· + 1) ih

end Replaced

/-! ### Expressions -/

section Expressions

variable (names : List String) {constants : List String}

mutual

theorem Expr.declaresIn_code (start : Nat) :
    (e : Expr) → ∀ i ∈ e.code names start, i.DeclaresIn constants
  | .literal _ => List.forall_mem_singleton.2 trivial
  | .name _ => List.forall_mem_singleton.2 trivial
  | .list items => List.forall_mem_append.2
    ⟨Expr.declaresIn_codes start items, List.forall_mem_singleton.2 trivial⟩
  | .emptySet => List.forall_mem_cons.2 ⟨trivial, List.forall_mem_singleton.2 trivial⟩
  | .setOf e => List.forall_mem_append.2
    ⟨Expr.declaresIn_code start e, List.forall_mem_singleton.2 trivial⟩
  | .emptyMap => List.forall_mem_cons.2 ⟨trivial, List.forall_mem_singleton.2 trivial⟩
  | .mapOf e => List.forall_mem_append.2
    ⟨Expr.declaresIn_code start e, List.forall_mem_singleton.2 trivial⟩
  | .unary _ e => List.forall_mem_append.2
    ⟨Expr.declaresIn_code start e, List.forall_mem_singleton.2 trivial⟩
  | .binary _ l r => List.forall_mem_append.2
    ⟨List.forall_mem_append.2 ⟨Expr.declaresIn_code start l, Expr.declaresIn_code _ r⟩,
      List.forall_mem_singleton.2 trivial⟩
  | .logical op l r => by
    refine List.forall_mem_append.2 ⟨Expr.declaresIn_code start l, List.forall_mem_cons.2 ⟨?_, ?_⟩⟩
    · cases op <;> trivial
    · exact Expr.declaresIn_code _ r
  | .call f args => by
    unfold Expr.code
    split
    · exact List.forall_mem_append.2
        ⟨Expr.declaresIn_codes start args, List.forall_mem_singleton.2 trivial⟩
    · exact List.forall_mem_singleton.2 trivial
  | .builtin _ args => List.forall_mem_append.2
    ⟨Expr.declaresIn_codes start args, List.forall_mem_singleton.2 trivial⟩
  | .capability _ args => List.forall_mem_append.2
    ⟨Expr.declaresIn_codes start args, List.forall_mem_singleton.2 trivial⟩
  | .method e _ args => List.forall_mem_append.2
    ⟨List.forall_mem_append.2 ⟨Expr.declaresIn_code start e, Expr.declaresIn_codes _ args⟩,
      List.forall_mem_singleton.2 trivial⟩
  | .index e i => List.forall_mem_append.2
    ⟨List.forall_mem_append.2 ⟨Expr.declaresIn_code start e, Expr.declaresIn_code _ i⟩,
      List.forall_mem_singleton.2 trivial⟩
  | .attribute e _ => List.forall_mem_append.2
    ⟨Expr.declaresIn_code start e, List.forall_mem_singleton.2 trivial⟩

theorem Expr.declaresIn_codes (start : Nat) :
    (es : List Expr) → ∀ i ∈ Expr.codes names start es, i.DeclaresIn constants
  | [] => fun _ h => nomatch h
  | e :: rest => List.forall_mem_append.2
    ⟨Expr.declaresIn_code start e, Expr.declaresIn_codes _ rest⟩

end

variable {names}

theorem Expr.replaced (start : Nat) (s : Shape) (e : Expr) :
    Replaced constants (e.shapes names s) (e.code names start) (e.code names start) :=
  .same (e.length_shapes names start s) (e.declaresIn_code names start)

theorem Expr.replacedOrNull (start : Nat) (s : Shape) (e : Option Expr) :
    Replaced constants (Expr.shapesOrNull names s e) (Expr.codeOrNull names start e)
      (Expr.codeOrNull names start e) := by
  cases e with
  | none => exact .single trivial
  | some e => exact e.replaced start s

end Expressions

/-! ### Statements -/

section Statements

variable {names constants : List String}

theorem Pattern.declaresIn_code {constant : Bool} {pattern : Pattern}
    (h : constant = true → ∀ x ∈ pattern.names, x ∈ constants) :
    ∀ i ∈ pattern.code constant, i.DeclaresIn constants := by
  have hdeclare : ∀ x ∈ pattern.names, (Instr.declare x constant).DeclaresIn constants :=
    fun x hx hconstant => h hconstant x hx
  cases pattern with
  | single x => exact List.forall_mem_singleton.2 (hdeclare x List.mem_cons_self)
  | tuple xs => exact List.forall_mem_cons.2 ⟨trivial, List.forall_mem_map.2 hdeclare⟩

theorem Pattern.replaced {constant : Bool} {pattern : Pattern}
    (h : constant = true → ∀ x ∈ pattern.names, x ∈ constants) (s : Shape) :
    Replaced constants (pattern.shapes s) (pattern.code constant) (pattern.code constant) :=
  .same (pattern.length_shapes s constant) (pattern.declaresIn_code h)

theorem Pattern.replaced_plain (s : Shape) (pattern : Pattern) :
    Replaced constants (pattern.shapes s) (pattern.code false) (pattern.code false) :=
  Pattern.replaced (fun h => Bool.noConfusion h) s

/-- Names that are all bound, and not as constants, may be assigned to. -/
theorem replaced_declareShapes {s : Shape} {xs : List String} (h : xs ⊆ s.bound)
    (hfree : ∀ x ∈ xs, x ∉ constants) :
    Replaced constants (declareShapes s xs) (xs.map (.declare · false)) (xs.map .store) := by
  induction xs generalizing s with
  | nil => exact .nil
  | cons x xs ih =>
    obtain ⟨hx, hxs⟩ := List.cons_subset.1 h
    obtain ⟨hfree, hothers⟩ := List.forall_mem_cons.1 hfree
    refine .cons (.inr ⟨x, hx, hfree, rfl, rfl⟩) (ih ?_ hothers)
    exact List.Subset.trans hxs (subset_bindNames [x] s.bound)

theorem Pattern.replaced_target {s : Shape} {pattern : Pattern} (h : pattern.names ⊆ s.bound)
    (hfree : ∀ x ∈ pattern.names, x ∉ constants) (start : Nat) (value : Expr) :
    Replaced constants (value.shapes names s ++ pattern.shapes s)
      (value.code names start ++ pattern.code false)
      (pattern.target.code names start none value) := by
  cases pattern with
  | single x =>
    have hx : x ∈ s.bound := h (List.mem_singleton.2 rfl)
    have hfree : x ∉ constants := hfree x (List.mem_singleton.2 rfl)
    exact .append (value.replaced start s) (.cons (.inr ⟨x, hx, hfree, rfl, rfl⟩) .nil)
  | tuple xs =>
    refine .append (value.replaced start s) (.cons (.inl ⟨rfl, trivial⟩) ?_)
    exact replaced_declareShapes h hfree

theorem Target.declaresIn_code (start : Nat) (op : Option BinaryOp) (value : Expr)
    (target : Target) :
    ∀ i ∈ target.code names start op value, i.DeclaresIn constants := by
  have hvalue (start : Nat) : ∀ i ∈ value.code names start, i.DeclaresIn constants :=
    value.declaresIn_code names start
  have hpair : ∀ i j : Instr, i.DeclaresIn constants → j.DeclaresIn constants →
      ∀ k ∈ [i, j], k.DeclaresIn constants := by
    intro i j hi hj
    exact List.forall_mem_cons.2 ⟨hi, List.forall_mem_singleton.2 hj⟩
  rcases target with x | ⟨object, index⟩ | xs
  · cases op with
    | none => exact List.forall_mem_append.2 ⟨hvalue _, List.forall_mem_singleton.2 trivial⟩
    | some op =>
      refine List.forall_mem_append.2 ⟨?_, hpair _ _ trivial trivial⟩
      exact List.forall_mem_cons.2 ⟨trivial, hvalue _⟩
  · have hplace (start' : Nat) : ∀ i ∈ object.code names start ++ index.code names start',
        i.DeclaresIn constants :=
      List.forall_mem_append.2
        ⟨object.declaresIn_code names start, index.declaresIn_code names start'⟩
    cases op with
    | none =>
      refine List.forall_mem_append.2 ⟨?_, List.forall_mem_singleton.2 trivial⟩
      exact List.forall_mem_append.2 ⟨hplace _, hvalue _⟩
    | some op =>
      refine List.forall_mem_append.2 ⟨List.forall_mem_append.2 ⟨?_, hvalue _⟩, ?_⟩
      · exact List.forall_mem_append.2 ⟨hplace _, hpair _ _ trivial trivial⟩
      · exact hpair _ _ trivial trivial
  · refine List.forall_mem_append.2 ⟨hvalue _, List.forall_mem_cons.2 ⟨trivial, ?_⟩⟩
    exact List.forall_mem_map.2 fun _ _ => trivial

theorem Target.replaced (start : Nat) (s : Shape) (op : Option BinaryOp) (value : Expr)
    (target : Target) :
    Replaced constants (target.shapes names s op value) (target.code names start op value)
      (target.code names start op value) := by
  refine .same ?_ (target.declaresIn_code start op value)
  rw [target.length_code_eq names start 0]
  exact Stmt.length_shapes false s (.assign target op value)

mutual

/-- An assignment takes as many instructions as the declaration that it stands for. -/
theorem Stmt.width_rebound (iterates : Bool) (bound : List String) :
    (stmt : Stmt) → (stmt.rebound bound).width names iterates = stmt.width names iterates
  | .comment _ => rfl
  | .function .. => rfl
  | .declare _ none _ => rfl
  | .declare _ (some _) true => rfl
  | .declare pattern (some value) false => by
    unfold Stmt.rebound
    split
    · cases pattern <;>
        simp [Stmt.width, Pattern.target, Target.code, Expr.codeOrNull, Pattern.code]
    · rfl
  | .assign .. => rfl
  | .expr _ => rfl
  | .cond arms => Arms.width_rebound iterates bound arms
  | .while _ body => by
    simp only [Stmt.rebound, Stmt.width, Stmt.widths_reboundAll false bound body]
  | .forEach pattern _ body => by
    simp only [Stmt.rebound, Stmt.width,
      Stmt.widths_reboundAll true (bindNames pattern.names bound) body]
  | .return _ => rfl
  | .break => rfl
  | .continue => rfl
  | .throw .. => rfl

theorem Stmt.widths_reboundAll (iterates : Bool) (bound : List String) :
    (stmts : List Stmt) →
      Stmt.widths names iterates (Stmt.reboundAll bound stmts) = Stmt.widths names iterates stmts
  | [] => rfl
  | stmt :: rest => by
    simp only [Stmt.reboundAll, Stmt.widths, Stmt.width_rebound iterates bound stmt,
      Stmt.widths_reboundAll iterates _ rest]

theorem Arms.width_rebound (iterates : Bool) (bound : List String) :
    (arms : Arms) → (arms.rebound bound).width names iterates = arms.width names iterates
  | .done => rfl
  | .otherwise body => Stmt.widths_reboundAll iterates bound body
  | .arm _ body rest => by
    simp only [Arms.rebound, Arms.width, Stmt.widths_reboundAll iterates bound body,
      Arms.width_rebound iterates bound rest]

end

mutual

/-- The code of a statement differs from that of the rebound one only in what may be
replaced. -/
theorem Stmt.replaced (loop : LoopTargets) (start : Nat) (s : Shape) :
    (stmt : Stmt) → (∀ x ∈ stmt.constants, x ∈ constants) →
      (∀ x ∈ stmt.reassigned s.bound, x ∉ constants) →
        Replaced constants (stmt.shapes names loop.iterates s) (stmt.code names loop start)
          ((stmt.rebound s.bound).code names loop start)
  | .comment _, _, _ => .nil
  | .function .., _, _ => .nil
  | .declare _ none true, hconstants, _ =>
    .append (.single trivial) (Pattern.replaced (fun _ => hconstants) s)
  | .declare _ (some value) true, hconstants, _ =>
    .append (value.replaced start s) (Pattern.replaced (fun _ => hconstants) s)
  | .declare pattern none false, _, _ => .append (.single trivial) (pattern.replaced_plain s)
  | .declare pattern (some value) false, _, hfree => by
    rw [Stmt.reassigned] at hfree
    rw [Stmt.rebound]
    split
    · rename_i hall
      rw [if_pos hall] at hfree
      exact Pattern.replaced_target (subset_of_all hall) hfree start value
    · exact .append (value.replaced start s) (pattern.replaced_plain s)
  | .assign target op value, _, _ => target.replaced start s op value
  | .expr value, _, _ => .append (value.replaced start s) (.single trivial)
  | .cond arms, hconstants, hfree => by
    simp only [Stmt.rebound, Stmt.code, Arms.width_rebound]
    exact Arms.replaced loop _ start s arms hconstants hfree
  | .while condition body, hconstants, hfree => by
    simp only [Stmt.rebound, Stmt.code, Stmt.widths_reboundAll]
    refine .append (.append (condition.replaced start s) (.cons (.inl ⟨rfl, trivial⟩) ?_))
      (.single trivial)
    exact Stmt.allReplaced ⟨_, _, false⟩ _ s body hconstants hfree
  | .forEach pattern iterable body, hconstants, hfree => by
    simp only [Stmt.rebound, Stmt.code, Stmt.widths_reboundAll]
    refine .append (.append (.append (iterable.replaced start s) ?_) ?_) (.single trivial)
    · exact .cons (.inl ⟨rfl, trivial⟩)
        (.cons (.inl ⟨rfl, trivial⟩) (pattern.replaced_plain s.iterate))
    · exact Stmt.allReplaced ⟨_, _, true⟩ _ (s.iterate.bind pattern.names) body hconstants hfree
  | .return value, _, _ => .append (Expr.replacedOrNull start s value) (.single trivial)
  | .break, _, _ => by
    obtain ⟨next, exit, iterates⟩ := loop
    cases iterates with
    | false => exact .single trivial
    | true => exact .cons (.inl ⟨rfl, trivial⟩) (.single trivial)
  | .continue, _, _ => .single trivial
  | .throw _ message, _, _ => .append (message.replaced start s) (.single trivial)

theorem Stmt.allReplaced (loop : LoopTargets) (start : Nat) (s : Shape) :
    (stmts : List Stmt) → (∀ x ∈ Stmt.allConstants stmts, x ∈ constants) →
      (∀ x ∈ Stmt.allReassigned s.bound stmts, x ∉ constants) →
        Replaced constants (Stmt.allShapes names loop.iterates s stmts)
          (Stmt.codes names loop start stmts)
          (Stmt.codes names loop start (Stmt.reboundAll s.bound stmts))
  | [], _, _ => .nil
  | stmt :: rest, hconstants, hfree => by
    obtain ⟨hconstant, hconstants⟩ := List.forall_mem_append.1 hconstants
    obtain ⟨hfirst, hothers⟩ := List.forall_mem_append.1 hfree
    have hstmt := Stmt.replaced loop start s stmt hconstant hfirst
    have hrest := Stmt.allReplaced loop
      (start + (stmt.code names loop start).length) (s.after stmt) rest hconstants hothers
    simp only [Stmt.reboundAll, Stmt.codes]
    rw [hstmt.length_eq]
    exact hstmt.append hrest

theorem Arms.replaced (loop : LoopTargets) (exit start : Nat) (s : Shape) :
    (arms : Arms) → (∀ x ∈ arms.constants, x ∈ constants) →
      (∀ x ∈ arms.reassigned s.bound, x ∉ constants) →
        Replaced constants (arms.shapes names loop.iterates s) (arms.code names loop exit start)
          ((arms.rebound s.bound).code names loop exit start)
  | .done, _, _ => .nil
  | .otherwise body, hconstants, hfree => Stmt.allReplaced loop start s body hconstants hfree
  | .arm condition body rest, hconstants, hfree => by
    obtain ⟨hconstant, hconstants⟩ := List.forall_mem_append.1 hconstants
    obtain ⟨hfirst, hothers⟩ := List.forall_mem_append.1 hfree
    have hbody : Replaced constants _ (Stmt.codes names loop _ body) _ :=
      Stmt.allReplaced loop (start + (condition.code names start).length + 1) s body
        hconstant hfirst
    simp only [Arms.rebound, Arms.code]
    rw [hbody.length_eq]
    refine .append (.append (condition.replaced start s) (.cons (.inl ⟨rfl, trivial⟩) hbody)) ?_
    exact .cons (.inl ⟨rfl, trivial⟩) (Arms.replaced loop exit _ s rest hconstants hothers)

end

end Statements

/-! ### Frames -/

/-- The constants of the frames of a program, once for every instruction of its code. -/
def constantsLayout (program : List Stmt) : List (List String) :=
  let definitions := Stmt.allDefinitions program
  let names := definitions.map Definition.name
  let top := Stmt.allShapes names false .top program ++ [Shape.top.afterAll program]
  List.replicate top.length (Stmt.allConstants program) ++
    definitions.flatMap fun d => List.replicate (d.shapes names).length (Stmt.allConstants d.body)

/-- The constants of the frame to which a position belongs. -/
def constantsAt (program : List Stmt) (position : Nat) : List String :=
  ((constantsLayout program)[position]?).getD []

/-- The instruction at a position stays in its frame, and may be replaced there by another one. -/
structure Instr.ReplaceableAt (named : Nat → List String) (position : Nat) (s : Shape)
    (i j : Instr) : Prop where
  replaceable : i.Replaceable (named position) s j
  stays : i.Stays named position

/-- Every instruction of a piece of code, which begins at a position, stays in its frame, and may be
replaced there by the one at the same position of another piece. -/
inductive ReplacedAt (named : Nat → List String) :
    Nat → List Shape → List Instr → List Instr → Prop
  | nil (start : Nat) : ReplacedAt named start [] [] []
  | cons {start : Nat} {s : Shape} {i j : Instr} {shapes : List Shape} {is js : List Instr} :
    i.ReplaceableAt named start s j → ReplacedAt named (start + 1) shapes is js →
      ReplacedAt named start (s :: shapes) (i :: is) (j :: js)

section Frames

variable {named : Nat → List String} {constants : List String} {start stop : Nat}
  {xs ys : List Shape} {is js ks ls : List Instr} {functions : Array FunctionEntry}

theorem ReplacedAt.append (h : ReplacedAt named start xs is js)
    (h' : ReplacedAt named (start + is.length) ys ks ls) :
    ReplacedAt named start (xs ++ ys) (is ++ ks) (js ++ ls) := by
  induction h with
  | nil => exact h'
  | cons hi _ ih =>
    refine .cons hi (ih ?_)
    rwa [List.length_cons, ← Nat.add_assoc, Nat.add_right_comm] at h'

theorem ReplacedAt.get (h : ReplacedAt named start xs is js) {n : Nat} {s : Shape} {i : Instr}
    (hs : xs[n]? = some s) (hi : is[n]? = some i) :
    ∃ j, js[n]? = some j ∧ i.ReplaceableAt named (start + n) s j := by
  induction h generalizing n with
  | nil => cases hi
  | cons hfirst _ ih =>
    cases n with
    | zero =>
      cases hs
      cases hi
      exact ⟨_, rfl, hfirst⟩
    | succ n =>
      obtain ⟨j, hj, hij⟩ := ih hs hi
      refine ⟨j, hj, ?_⟩
      rwa [Nat.add_assoc, Nat.add_comm 1] at hij

theorem ReplacedAt.length_shapes (h : ReplacedAt named start xs is js) : xs.length = is.length := by
  induction h with
  | nil => rfl
  | cons _ _ ih => exact congrArg (· + 1) ih

theorem ReplacedAt.length_eq (h : ReplacedAt named start xs is js) : js.length = is.length := by
  induction h with
  | nil => rfl
  | cons _ _ ih => exact congrArg (· + 1) ih

/-- Jumps lead to where they are accepted. -/
theorem Instr.Flows.target {accept : Nat → Prop} {next target : Nat} {s : Shape} {i : Instr}
    (h : i.Flows functions (fun position _ => accept position) next s)
    (htarget : i.target? = some target) : accept target := by
  cases i with
  | jump =>
    cases htarget
    exact h
  | jumpIfFalse | jumpIfFalseElsePop | jumpIfTrueElsePop | iterNext =>
    cases htarget
    obtain ⟨b, -, -, h⟩ := h
    exact h
  | _ => cases htarget

theorem Instr.Replaceable.declaresIn {s : Shape} {i j : Instr} (h : i.Replaceable constants s j) :
    i.DeclaresIn constants := by
  rcases h with ⟨-, hi⟩ | ⟨x, -, -, rfl, -⟩
  · exact hi
  · exact fun hconstant => Bool.noConfusion hconstant

/-- The code of a frame ends with an instruction that leaves it for good, and is not left by a
jump. -/
theorem Replaced.at_frame (h : Replaced constants xs is js)
    (hnamed : ∀ position, start ≤ position → position < stop → named position = constants)
    {n : Nat} (hn : start ≤ n) (hstop : n + is.length = stop)
    (hflow : AllFlow functions (fun position _ => start ≤ position ∧ position < stop) n is xs)
    (hlast : ∀ i, is.getLast? = some i → i = .return ∨ i = .halt) :
    ReplacedAt named n xs is js := by
  induction h generalizing n with
  | nil => exact .nil n
  | @cons s i j shapes is js hi _ ih =>
    rw [List.length_cons] at hstop
    have hhere : named n = constants := hnamed n hn (by omega)
    refine .cons ⟨hhere.symm ▸ hi, ⟨?_, ?_⟩, ?_⟩ (ih (by omega) (by omega) hflow.2 ?_)
    · rintro x rfl
      rw [hhere]
      exact hi.declaresIn rfl
    · intro target htarget
      obtain ⟨hge, hlt⟩ := Instr.Flows.target hflow.1 htarget
      rw [hhere]
      exact hnamed target hge hlt
    · intro hreturn hhalt
      have hrest : is ≠ [] := by
        rintro rfl
        rcases hlast i rfl with h | h
        · exact hreturn h
        · exact hhalt h
      have hpos := List.length_pos_of_ne_nil hrest
      rw [hhere]
      exact hnamed (n + 1) (by omega) (by omega)
    · intro k hk
      refine hlast k ?_
      rw [List.getLast?_cons, hk]
      rfl

/-- A table in which all functions begin where a frame begins, so that no instruction is known to
lead out of the frame. -/
def entriesAt (start count : Nat) : Array FunctionEntry := Array.replicate count ⟨"", [], start⟩

theorem entered_entriesAt (names : List String) (h : start < stop) :
    Entered names (entriesAt start names.length)
      (fun position _ => start ≤ position ∧ position < stop) := by
  intro name i hi
  obtain ⟨hlt, -⟩ := List.idxOf?_eq_some_iff.1 hi
  refine ⟨⟨"", [], start⟩, ?_, Nat.le_refl start, h⟩
  rw [entriesAt, Array.getElem?_replicate, if_pos hlt]

theorem stands_frame (h : start + xs.length = stop) :
    Stands (fun position _ => start ≤ position ∧ position < stop) start xs := by
  intro i s hs
  obtain ⟨hlt, -⟩ := List.getElem?_eq_some_iff.1 hs
  omega

theorem upward_frame : Upward fun position _ => start ≤ position ∧ position < stop :=
  fun _ _ _ h _ => h

end Frames

/-! ### Programs -/

/-- The function whose body is rebound. -/
def Definition.rebound (d : Definition) : Definition :=
  { d with body := Stmt.reboundAll d.params d.body }

mutual

/-- The functions of a rebound statement are those of the statement, each one rebound. -/
theorem Stmt.definitions_rebound (bound : List String) :
    (stmt : Stmt) → (stmt.rebound bound).definitions = stmt.definitions.map Definition.rebound
  | .comment _ => rfl
  | .function _ params body => by
    simp only [Stmt.rebound, Stmt.definitions, List.map_cons, Definition.rebound,
      Stmt.allDefinitions_reboundAll params body]
  | .declare _ none _ => rfl
  | .declare _ (some _) true => rfl
  | .declare _ (some _) false => by
    unfold Stmt.rebound
    split <;> rfl
  | .assign .. => rfl
  | .expr _ => rfl
  | .cond arms => Arms.definitions_rebound bound arms
  | .while _ body => Stmt.allDefinitions_reboundAll bound body
  | .forEach pattern _ body => Stmt.allDefinitions_reboundAll (bindNames pattern.names bound) body
  | .return _ => rfl
  | .break => rfl
  | .continue => rfl
  | .throw .. => rfl

theorem Stmt.allDefinitions_reboundAll (bound : List String) :
    (stmts : List Stmt) → Stmt.allDefinitions (Stmt.reboundAll bound stmts) =
      (Stmt.allDefinitions stmts).map Definition.rebound
  | [] => rfl
  | stmt :: rest => by
    simp only [Stmt.reboundAll, Stmt.allDefinitions, List.map_append,
      Stmt.definitions_rebound bound stmt, Stmt.allDefinitions_reboundAll _ rest]

theorem Arms.definitions_rebound (bound : List String) :
    (arms : Arms) → (arms.rebound bound).definitions = arms.definitions.map Definition.rebound
  | .done => rfl
  | .otherwise body => Stmt.allDefinitions_reboundAll bound body
  | .arm _ body rest => by
    simp only [Arms.rebound, Arms.definitions, List.map_append,
      Stmt.allDefinitions_reboundAll bound body, Arms.definitions_rebound bound rest]

end

theorem Definition.replaced (names : List String) (start : Nat) {d : Definition}
    (hfree : ∀ x ∈ Stmt.allReassigned d.params d.body, x ∉ Stmt.allConstants d.body) :
    Replaced (Stmt.allConstants d.body) (d.shapes names) (d.code names start)
      (d.rebound.code names start) :=
  .append (Stmt.allReplaced .none start (.entry d.params) d.body (fun _ => id) hfree)
    (.cons (.inl ⟨rfl, trivial⟩) (.single trivial))

section Programs

variable {dialect : Dialect} {program : List Stmt} {named : Nat → List String}

/-- The code of a function, which is a frame. -/
theorem Definition.replacedAt (names : List String) {start : Nat} {d : Definition}
    (hwf : Stmt.AllWellFormed dialect .function d.body)
    (hfree : ∀ x ∈ Stmt.allReassigned d.params d.body, x ∉ Stmt.allConstants d.body)
    (hnamed : ∀ n < (d.shapes names).length, named (start + n) = Stmt.allConstants d.body) :
    ReplacedAt named start (d.shapes names) (d.code names start) (d.rebound.code names start) := by
  have hlength := d.length_shapes names start
  have hpos : 0 < (d.shapes names).length := by simp [Definition.shapes]
  have hlt : start < start + (d.shapes names).length := Nat.lt_add_of_pos_right hpos
  have hsegment := Definition.segment (entered_entriesAt names hlt) upward_frame hwf
    (stands_frame rfl)
  refine (Definition.replaced names start hfree).at_frame (fun position hge hlt => ?_)
    (Nat.le_refl start) (by omega) hsegment.flow fun i hi => ?_
  · have hn := hnamed (position - start) (by omega)
    rwa [Nat.add_sub_cancel' hge] at hn
  · rw [Definition.code, List.getLast?_append] at hi
    cases hi
    exact .inl rfl

/-- The functions begin where they begin when they are rebound, and their codes differ only in what
may be replaced. -/
theorem Definition.allReplacedAt (names : List String) {start : Nat} {definitions : List Definition}
    (hwf : ∀ d ∈ definitions, Stmt.AllWellFormed dialect .function d.body)
    (hfree : ∀ d ∈ definitions, ∀ x ∈ Stmt.allReassigned d.params d.body,
      x ∉ Stmt.allConstants d.body)
    (hnamed : ∀ n, named (start + n) = ((definitions.flatMap fun d =>
      List.replicate (d.shapes names).length (Stmt.allConstants d.body))[n]?).getD []) :
    ReplacedAt named start (definitions.flatMap (Definition.shapes names))
        (Definition.codes names start definitions).1
        (Definition.codes names start (definitions.map Definition.rebound)).1 ∧
      (Definition.codes names start (definitions.map Definition.rebound)).2 =
        (Definition.codes names start definitions).2 := by
  induction definitions generalizing start with
  | nil => exact ⟨.nil start, rfl⟩
  | cons d rest ih =>
    obtain ⟨hd, hrest⟩ := List.forall_mem_cons.1 hwf
    obtain ⟨hdfree, hfree⟩ := List.forall_mem_cons.1 hfree
    have hlength := d.length_shapes names start
    have hfirst : ReplacedAt named start (d.shapes names) (d.code names start) _ :=
      d.replacedAt names hd hdfree fun n hn => by
        rw [hnamed, List.flatMap_cons, List.getElem?_append_left (by rwa [List.length_replicate]),
          List.getElem?_replicate, if_pos hn, Option.getD_some]
    obtain ⟨hcodes, hentries⟩ := @ih (start + (d.code names start).length) hrest hfree
      fun n => by
        rw [Nat.add_assoc, hnamed, List.flatMap_cons, List.getElem?_append_right
          (by rw [List.length_replicate]; omega), List.length_replicate, hlength,
          Nat.add_sub_cancel_left]
    have heq := (Definition.replaced names start hdfree).length_eq
    simp only [List.flatMap_cons, List.map_cons, Definition.codes]
    rw [heq, hentries]
    exact ⟨hfirst.append hcodes, rfl⟩

/-- The code of the top level, which is a frame. -/
theorem Stmt.replacedAt_top (names : List String) (hwf : Stmt.AllWellFormed dialect .top program)
    (hfree : ∀ x ∈ Stmt.allReassigned [] program, x ∉ Stmt.allConstants program)
    (hnamed : ∀ n < (Stmt.allShapes names false .top program ++
      [Shape.top.afterAll program]).length,
      named n = Stmt.allConstants program) :
    ReplacedAt named 0 (Stmt.allShapes names false .top program ++ [Shape.top.afterAll program])
      (Stmt.codes names .none 0 program ++ [.halt])
      (Stmt.codes names .none 0 (Stmt.reboundAll [] program) ++ [.halt]) := by
  have hreplaced : Replaced (Stmt.allConstants program)
      (Stmt.allShapes names false .top program ++ [Shape.top.afterAll program])
      (Stmt.codes names .none 0 program ++ [.halt])
      (Stmt.codes names .none 0 (Stmt.reboundAll [] program) ++ [.halt]) :=
    .append (Stmt.allReplaced .none 0 .top program (fun _ => id) hfree) (.single trivial)
  generalize hxs : Stmt.allShapes names false .top program ++ [Shape.top.afterAll program] = xs
    at hnamed hreplaced ⊢
  have hpos : 0 < xs.length := by simp [← hxs]
  have hsegment := Stmt.segment_top
    (entered_entriesAt names hpos) upward_frame hwf (stands_frame (by rw [hxs, Nat.zero_add]))
  have hlength := hsegment.flow.length_eq
  rw [hxs] at hsegment hlength
  refine hreplaced.at_frame (fun position _ hlt => hnamed position hlt) (Nat.le_refl 0) (by omega)
    hsegment.flow fun i hi => ?_
  rw [List.getLast?_append] at hi
  cases hi
  exact .inr rfl

/-- The codes of a program and of the rebound one differ only in what may be replaced, and have the
same functions. -/
theorem replaced_lower (hwf : Stmt.AllWellFormed dialect .top program)
    (hfree : Stmt.ReassignsAll (fun constants x => x ∉ constants) program) :
    ReplacedAt (constantsAt program) 0 (layout program) (lower program).instructions.toList
        (lower (Stmt.reboundAll [] program)).instructions.toList ∧
      (lower (Stmt.reboundAll [] program)).functions = (lower program).functions := by
  have hnames : ((Stmt.allDefinitions program).map Definition.rebound).map Definition.name =
      (Stmt.allDefinitions program).map Definition.name := by
    rw [List.map_map]
    rfl
  have hnamed (n : Nat) : constantsAt program n = ((constantsLayout program)[n]?).getD [] := rfl
  simp only [constantsLayout] at hnamed
  generalize hfunctions : (Stmt.allDefinitions program).map Definition.name = names at hnames hnamed
  have htop := @Stmt.replacedAt_top _ _ (constantsAt program) names hwf hfree.top fun n hn => by
    rw [hnamed, List.getElem?_append_left (by rwa [List.length_replicate]), List.getElem?_replicate,
      if_pos hn, Option.getD_some]
  have hlength := htop.length_shapes
  have hbodies := @Definition.allReplacedAt _ (constantsAt program) names
    (Stmt.codes names .none 0 program ++ [Instr.halt]).length _
    (Stmt.wellFormed_allDefinitions program hwf) hfree.functions fun n => by
      rw [hnamed, List.getElem?_append_right (by rw [List.length_replicate]; omega),
        List.length_replicate, hlength, Nat.add_sub_cancel_left]
  simp only [lower, layout, Stmt.allDefinitions_reboundAll, hnames, hfunctions]
  rw [htop.length_eq, hbodies.2]
  refine ⟨htop.append ?_, rfl⟩
  rw [Nat.zero_add]
  exact hbodies.1

end Programs

/-! ### Steps -/

/-- An instruction depends on the code only through the functions. -/
theorem execute_congr {code code' : Code} (h : code'.functions = code.functions) (maxCalls : Nat)
    (w : World) (instr : Instr) :
    instr.execute code' maxCalls w = instr.execute code maxCalls w := by
  cases instr with
  | call function argc => simp only [Instr.execute, Action.call, h]
  | builtin function argc => cases function <;> rfl
  | _ => rfl

/-- A name that is bound in the innermost scope, and not as a constant, is assigned to by binding it
once more. -/
theorem store_eq_declare {st : State} {x : String} {b : Binding} (hb : st.scope.lookup? x = some b)
    (hconstant : b.constant = false) (v : Value) :
    Action.store x v st = Action.declare x ⟨v, false⟩ st := by
  rw [Action.store, get_bind, hb]
  simp only [hconstant]
  rfl

/-- Beside a shape that a confined state fits, an instruction does what the one does that may
replace it. -/
theorem Instr.Replaceable.execute_eq {code : Code} {L : List Shape} {named : Nat → List String}
    {constants : List String} {position : Nat} {s : Shape} {i j : Instr}
    (h : i.Replaceable constants s j)
    (hflows : i.Flows code.functions (Accepts L) position s) {st : State} (hst : At L position s st)
    (hframes : FramesConfined named st.globals constants st.frames) (maxCalls : Nat) (w : World) :
    j.execute code maxCalls w st = i.execute code maxCalls w st := by
  rcases h with ⟨rfl, -⟩ | ⟨x, hx, hfree, rfl, rfl⟩
  · rfl
  · obtain ⟨b, rfl, -⟩ := hflows
    refine stateBind_congr fun v st' hpop => ?_
    obtain ⟨-, hfits⟩ := (safe_pop st hst).2 v st' hpop
    obtain ⟨c, hc⟩ := hfits.scope.bound x hx
    have hwithin : (scopeOf st'.globals st'.frames).Within constants := by
      obtain ⟨p, stack, heap, globals, calls⟩ := st
      simp only [Action.pop] at hpop
      split at hpop
      · cases hpop
        exact hframes.scope
      · cases hpop
    have hconstant : c.constant = false := by
      cases h : c.constant with
      | false => rfl
      | true => exact absurd (hwithin x c hc h) hfree
    have hstore := store_eq_declare (st'.scope_eq ▸ hc) hconstant v
    change Except.bind _ _ = Except.bind _ _
    rw [hstore]

/-- In all states with a property, a step of a machine is the same with either code, and leads to
such a state again. -/
structure Interchangeable (code code' : Code) (P : State → Prop) : Prop where
  next_eq : ∀ {st : State}, P st → ∀ (maxCalls : Nat) (w : World),
    st.next code' maxCalls w = st.next code maxCalls w
  step : ∀ {st st' : State} {maxCalls : Nat} {w : World} {effect : Effect}, P st →
    st.next code maxCalls w = .ok (effect, st') → effect ≠ .halt → P st'

/-- The state fits the layout of a program, and its scopes bind no constants but those of their
frames. -/
structure State.FitsFrames (program : List Stmt) (st : State) : Prop where
  poised : st.Poised (layout program)
  confined : st.Confined (constantsAt program)

theorem State.FitsFrames.init {dialect : Dialect} {program : List Stmt}
    (hwf : Stmt.AllWellFormed dialect .top program) : State.init.FitsFrames program :=
  ⟨(laid_lower hwf).poised_init, .init _⟩

/-- A step is the same with the code of a program and with that of the rebound one. -/
theorem interchangeable_lower {dialect : Dialect} {program : List Stmt}
    (hwf : Stmt.AllWellFormed dialect .top program)
    (hfree : Stmt.ReassignsAll (fun constants x => x ∉ constants) program) :
    Interchangeable (lower program) (lower (Stmt.reboundAll [] program))
      (State.FitsFrames program) := by
  have hlaid := laid_lower hwf
  obtain ⟨hreplaced, hfunctions⟩ := replaced_lower hwf hfree
  have hat {st : State} {i : Instr} (hst : st.FitsFrames program)
      (hi : (lower program).instructions[st.position]? = some i) :
      ∃ s j, (layout program)[st.position]? = some s ∧ st.Fits (layout program) s ∧
        (lower (Stmt.reboundAll [] program)).instructions[st.position]? = some j ∧
          i.ReplaceableAt (constantsAt program) st.position s j := by
    obtain ⟨s, hs, hfits⟩ := hst.poised
    obtain ⟨j, hj, hij⟩ := hreplaced.get hs (by rwa [Array.getElem?_toList])
    rw [Array.getElem?_toList] at hj
    rw [Nat.zero_add] at hij
    exact ⟨s, j, hs, hfits, hj, hij⟩
  constructor
  · intro st hst maxCalls w
    obtain ⟨s₀, hs₀, -⟩ := hst.poised
    obtain ⟨hlt, -⟩ := List.getElem?_eq_some_iff.1 hs₀
    rw [← hlaid.size] at hlt
    obtain ⟨s, j, hs, hfits, hj, hij⟩ := hat hst (Array.getElem?_eq_getElem hlt)
    have hflows := hlaid.flows _ _ s (Array.getElem?_eq_getElem hlt) hs
    have hbehind : At (layout program) (st.position + 1) s
        { st with position := st.position + 1 } :=
      ⟨rfl, hfits.operands hfits.height⟩
    rw [State.next, State.next, hj, Array.getElem?_eq_getElem hlt]
    dsimp only
    rw [execute_congr hfunctions]
    exact hij.replaceable.execute_eq hflows hbehind hst.confined maxCalls w
  · intro st st' maxCalls w effect hst hnext heffect
    refine ⟨((hlaid.safe_next maxCalls w _ hst.poised).2 _ _ hnext).poised heffect, ?_⟩
    refine hst.confined.next (fun i hi => ?_) hnext heffect
    obtain ⟨s, j, -, -, -, hij⟩ := hat hst hi
    exact hij.stays

end Labyrinth
