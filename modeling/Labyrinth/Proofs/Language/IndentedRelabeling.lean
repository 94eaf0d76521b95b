import Labyrinth.Language.Indented.Grammar
import Labyrinth.Proofs.Language.Relabeling

/-!
# Positions in the indented dialect

The parsers of the indented dialect pass positions on, from expressions up to whole programs. A few
of them remember where an expression or an opening bracket stands, in order to report it later.

## Main results

* `relabels_expr`: expressions.
* `relabels_simple`: statements without a block of their own.
* `relabels_program`: whole programs.
-/

namespace Labyrinth.Indented

open Labyrinth.Parser

variable {g : Position → Position}

theorem call_relabel (callee : Expr) (args : List Expr) (q : Position) :
    call callee args (g q) = (call callee args q).mapError (SyntaxError.relabel g) := by
  unfold call
  split
  · split
    · next c _ =>
      unfold checkArity
      split
      · rfl
      · rfl
    · split
      · rfl
      · rfl
  · rfl
  · rfl

/-! ### Expressions -/

section Levels

variable {nested : Nat → Parser Expr} (hnested : ∀ room, Relabels g (nested room) (nested room))
include hnested

theorem relabels_entries (room : Nat) : Relabels g (entries nested room) (entries nested room) := by
  refine relabels_collect (.bind (relabels_eat _) fun _ => .ite ?_ (.pure _))
  refine .bind (relabels_check _) fun _ => .ite (.pure _) ?_
  exact .bind (hnested room) fun key => .bind (relabels_expectOp _) fun _ => (hnested room).map _

theorem relabels_braces (room : Nat) : Relabels g (braces nested room) (braces nested room) := by
  refine .bind (relabels_eat _) fun _ => .ite (.pure _) ?_
  refine .bind (hnested room) fun first => .bind (relabels_eat _) fun _ => .ite ?_ ?_
  · refine .bind (hnested room) fun value => .bind (relabels_entries hnested room) fun rest => ?_
    exact (relabels_expectOp _).map _
  · refine .bind (relabels_eat _) fun _ => .ite ?_ ((relabels_expectOp _).map _)
    exact (relabels_separated _ (hnested room)).map _

theorem relabels_parentheses (room : Nat) :
    Relabels g (parentheses nested room) (parentheses nested room) := by
  refine .bind (relabels_eat _) fun _ => .ite (.pure _) ?_
  refine .bind (hnested room) fun first => .bind (relabels_eat _) fun _ => .ite (.pure _) ?_
  refine .bind (relabels_collect ?_) fun rest => (relabels_expectOp _).map _
  refine .bind (relabels_eat _) fun _ => .ite ?_ (.pure _)
  exact .bind (relabels_check _) fun _ => .ite (.pure _) ((hnested room).map _)

omit hnested in
theorem relabels_word (text : String) : Relabels g (word text) (word text) := by
  have hadvance (e : Expr) : Relabels g (do advance; return e) (do advance; return e) :=
    relabels_advance.map _
  unfold word
  split
  · exact hadvance _
  · exact hadvance _
  · exact hadvance _
  · exact .ite (relabels_fail _) (hadvance _)

theorem relabels_bracketed (opening : String) (room : Nat) :
    Relabels g (bracketed nested opening room) (bracketed nested opening room) := by
  unfold bracketed
  split
  · exact .bind relabels_advance fun _ => relabels_parentheses hnested room
  · exact .bind relabels_advance fun _ => (relabels_separated _ (hnested room)).map _
  · exact .bind relabels_advance fun _ => relabels_braces hnested room
  · exact relabels_failFound _

theorem relabels_atom (room : Nat) : Relabels g (atom nested room) (atom nested room) := by
  refine .bind relabels_peek fun k => ?_
  split
  · exact relabels_advance.map _
  · exact relabels_advance.map _
  · exact relabels_word _
  · exact relabels_bracketed hnested _ room
  · exact relabels_failFound _

theorem relabels_suffix (room : Nat) (e : Expr) :
    Relabels g (suffix nested room e) (suffix nested room e) := by
  refine .bind relabels_peek fun k => ?_
  split
  · refine .bind (relabels_descend _) fun _ => .position fun q => .bind relabels_advance fun _ => ?_
    refine .bind (relabels_separated _ (hnested _)) fun args => .map (.lift ?_) _
    exact call_relabel e args q
  · refine .bind (relabels_descend _) fun _ => .bind relabels_advance fun _ => ?_
    exact .bind (hnested _) fun i => (relabels_expectOp _).map _
  · refine .bind (relabels_descend _) fun _ => .bind relabels_advance fun _ => ?_
    exact (relabels_identifier _).map _
  · exact .pure _

theorem relabels_suffixes (room : Nat) (e : Expr) :
    Relabels g (suffixes nested room e) (suffixes nested room e) := by
  induction room generalizing e with
  | zero =>
    unfold suffixes
    refine .bind (relabels_suffix hnested 0 e) fun o => ?_
    cases o with
    | none => exact .pure _
    | some e => exact .pure _
  | succ room ih =>
    unfold suffixes
    refine .bind (relabels_suffix hnested _ e) fun o => ?_
    cases o with
    | none => exact .pure _
    | some e => exact ih e

theorem relabels_postfixed (room : Nat) :
    Relabels g (postfixed nested room) (postfixed nested room) :=
  .bind (relabels_atom hnested room) fun e => relabels_suffixes hnested room e

theorem relabels_signed (room : Nat) : Relabels g (signed nested room) (signed nested room) := by
  induction room with
  | zero =>
    refine .bind (relabels_eat _) fun _ => .ite (relabels_fail _) ?_
    exact .bind (relabels_eat _) fun _ => .ite (relabels_fail _) (relabels_postfixed hnested 0)
  | succ room ih =>
    refine .bind (relabels_eat _) fun _ => .ite (ih.map _) ?_
    exact .bind (relabels_eat _) fun _ => .ite ih (relabels_postfixed hnested _)

theorem relabels_sum (room : Nat) : Relabels g (sum nested room) (sum nested room) :=
  relabels_chain (relabels_oneOf _)
    (relabels_chain (relabels_oneOf _) (relabels_signed hnested)) room

end Levels

theorem relabels_comparator : Relabels g comparator comparator := by
  have hadvance (combine : Option (Expr → Expr → Expr)) :
      Relabels g (do advance; return combine) (do advance; return combine) :=
    relabels_advance.map _
  refine .bind relabels_peek fun k => ?_
  split
  iterate 7 exact hadvance _
  · refine .bind relabels_peekSecond fun _ => .ite ?_ (.pure _)
    exact .bind relabels_advance fun _ => hadvance _
  · exact .bind relabels_advance fun _ => (relabels_eat _).map _
  · exact .pure _

section Levels

variable {nested : Nat → Parser Expr} (hnested : ∀ room, Relabels g (nested room) (nested room))
include hnested

theorem relabels_comparison (room : Nat) :
    Relabels g (comparison nested room) (comparison nested room) := by
  refine .bind (relabels_sum hnested room) fun lhs => .bind relabels_comparator fun o => ?_
  cases o with
  | none => exact .pure _
  | some combine =>
    refine .bind (relabels_sum hnested room) fun rhs => .bind relabels_comparator fun o => ?_
    cases o with
    | none => exact .pure _
    | some _ => exact relabels_fail _

theorem relabels_negation (room : Nat) :
    Relabels g (negation nested room) (negation nested room) := by
  induction room with
  | zero =>
    exact .bind (relabels_eat _) fun _ => .ite (relabels_fail _) (relabels_comparison hnested 0)
  | succ room ih =>
    exact .bind (relabels_eat _) fun _ => .ite (ih.map _) (relabels_comparison hnested _)

theorem relabels_disjunction (room : Nat) :
    Relabels g (disjunction nested room) (disjunction nested room) :=
  relabels_chain (relabels_wordOperator _ _)
    (relabels_chain (relabels_wordOperator _ _) (relabels_negation hnested)) room

end Levels

theorem relabels_exprAt (depth room : Nat) :
    Relabels g (exprAt depth room) (exprAt depth room) := by
  induction depth generalizing room with
  | zero => exact relabels_fail _
  | succ depth ih => exact .bind (relabels_descend room) fun _ => relabels_disjunction ih _

theorem relabels_expr (room : Nat) : Relabels g (expr room) (expr room) := relabels_exprAt _ _

theorem relabels_exprList (room : Nat) : Relabels g (exprList room) (exprList room) := by
  refine .bind (relabels_expr room) fun first => .bind (relabels_check _) fun _ => ?_
  refine .ite ((relabels_collect ?_).map _) (.pure _)
  refine .bind (relabels_eat _) fun _ => .ite (.bind relabels_peek fun k => ?_) (.pure _)
  split
  · exact .pure _
  · exact .pure _
  · exact (relabels_expr room).map _

/-! ### Statements on one line -/

theorem relabels_furtherNames : Relabels g furtherNames furtherNames := by
  refine relabels_collect (.bind (relabels_eat _) fun _ => .ite ?_ (.pure _))
  exact (relabels_identifier _).map _

theorem relabels_loopPattern : Relabels g loopPattern loopPattern := by
  refine .bind (relabels_identifier _) fun first => .bind (relabels_check _) fun _ => ?_
  exact .ite (relabels_furtherNames.map _) (.pure _)

theorem relabels_assignment (room : Nat) : Relabels g (assignment room) (assignment room) := by
  refine .position fun q => .bind (relabels_expr room) fun first => ?_
  refine .bind (relabels_check _) fun _ => .ite ?_ (.bind (relabels_eat _) fun _ => .ite ?_ ?_)
  · split
    · refine .bind relabels_furtherNames fun names => .bind (relabels_expectOp _) fun _ => ?_
      exact (relabels_exprList room).map _
    · exact relabels_fail _
  · refine .bind (relabels_exprList room) fun value => ?_
    split
    · exact .pure _
    · exact .pure _
    · exact relabels_failAt _ _
  · refine .bind (relabels_oneOf _) fun o => ?_
    cases o with
    | none => exact .pure _
    | some op =>
      refine .bind (relabels_expr room) fun value => ?_
      split
      · exact .pure _
      · exact .pure _
      · exact relabels_failAt _ _

theorem relabels_simple (room : Nat) (around : Surroundings) :
    Relabels g (simple room around) (simple room around) := by
  have hadvance (o : Option Stmt) : Relabels g (do advance; return o) (do advance; return o) :=
    relabels_advance.map _
  refine .bind relabels_peek fun k => ?_
  split
  · exact hadvance _
  · exact .ite (hadvance _) (relabels_fail _)
  · exact .ite (hadvance _) (relabels_fail _)
  · refine .ite (.bind relabels_advance fun _ => .bind relabels_peek fun k' => ?_) (relabels_fail _)
    split
    · exact .pure _
    · exact .pure _
    · exact .pure _
    · exact (relabels_exprList room).map _
  · refine .bind relabels_advance fun _ => .bind (relabels_identifier _) fun _ => ?_
    refine .bind (relabels_expectOp _) fun _ => .bind (relabels_expr room) fun _ => ?_
    exact (relabels_expectOp _).map _
  · exact (relabels_assignment room).map _

theorem relabels_simpleLine (room : Nat) (around : Surroundings) :
    Relabels g (simpleLine room around) (simpleLine room around) := by
  refine .bind (relabels_simple room around) fun stmt => .bind relabels_peek fun k => ?_
  split
  · exact relabels_advance.map _
  · exact .pure _
  · exact .pure _
  · exact relabels_failFound _

/-! ### Blocks -/

theorem relabels_comments : Relabels g comments comments := by
  refine relabels_collect (.bind relabels_peek fun k => ?_)
  split
  · exact relabels_advance.map _
  · exact .pure _

section Blocks

variable {inner : Surroundings → Parser (List Stmt)}
  (hinner : ∀ around, Relabels g (inner around) (inner around))
include hinner

theorem relabels_suite (room : Nat) (around : Surroundings) :
    Relabels g (suite room inner around) (suite room inner around) := by
  refine .bind relabels_peek fun k => .ite ?_ (relabels_simpleLine _ around)
  refine .bind relabels_advance fun _ => .bind relabels_comments fun leading => ?_
  refine .bind (relabels_eat _) fun _ => .ite ?_ (relabels_fail _)
  refine .bind (relabels_collect (.bind relabels_peek fun k => ?_)) fun body =>
    (relabels_eat _).map _
  split
  · exact .pure _
  · exact .pure _
  · exact (hinner around).map _

theorem relabels_block (room : Nat) (around : Surroundings) :
    Relabels g (block room inner around) (block room inner around) :=
  .bind (relabels_expectOp _) fun _ => .bind (relabels_descend room) fun _ =>
    relabels_suite hinner room around

theorem relabels_function (room : Nat) :
    Relabels g (function room inner) (function room inner) := by
  refine .bind relabels_advance fun _ => .bind (relabels_functionName _) fun name => ?_
  exact .bind (relabels_parameters _) fun params => (relabels_block hinner room _).map _

theorem relabels_forEach (room : Nat) (around : Surroundings) :
    Relabels g (forEach room inner around) (forEach room inner around) := by
  refine .bind relabels_advance fun _ => .bind relabels_loopPattern fun names => ?_
  refine .bind (relabels_expectWord _) fun _ => .bind (relabels_expr room) fun iterable => ?_
  exact (relabels_block hinner room _).map _

theorem relabels_whileLoop (room : Nat) (around : Surroundings) :
    Relabels g (whileLoop room inner around) (whileLoop room inner around) :=
  .bind relabels_advance fun _ => .bind (relabels_expr room) fun _ =>
    (relabels_block hinner room _).map _

theorem relabels_guarded (room : Nat) (around : Surroundings) :
    Relabels g (guarded room inner around) (guarded room inner around) :=
  .bind (relabels_expr room) fun _ => (relabels_block hinner room around).map _

theorem relabels_conditional (room : Nat) (around : Surroundings) :
    Relabels g (conditional room inner around) (conditional room inner around) := by
  refine .bind relabels_advance fun _ => .bind (relabels_guarded hinner room around) fun first => ?_
  refine .bind (relabels_collect (.bind (relabels_eat _) fun _ => .ite ?_ (.pure _))) fun _ => ?_
  · exact (relabels_guarded hinner room around).map _
  · refine .bind (relabels_eat _) fun _ => .ite ?_ (.bind (.pure _) fun _ => .pure _)
    exact .bind ((relabels_block hinner room around).map _) fun _ => .pure _

theorem relabels_statement (room : Nat) (around : Surroundings) :
    Relabels g (statement room inner around) (statement room inner around) := by
  refine .bind relabels_peek fun k => ?_
  split
  · exact relabels_advance.map _
  · exact relabels_advance.map _
  · exact relabels_fail _
  · exact (relabels_function hinner room).map _
  · exact (relabels_forEach hinner room around).map _
  · exact (relabels_whileLoop hinner room around).map _
  · exact (relabels_conditional hinner room around).map _
  · exact relabels_fail _
  · exact relabels_fail _
  · exact relabels_simpleLine room around

end Blocks

theorem relabels_statementAt (room : Nat) (around : Surroundings) :
    Relabels g (statementAt room around) (statementAt room around) := by
  induction room generalizing around with
  | zero => exact relabels_statement (fun _ => relabels_fail _) 0 around
  | succ room ih => exact relabels_statement ih (room + 1) around

/-- Positions matter to nothing but the positions of errors. -/
theorem relabels_program (g : Position → Position) : Relabels g program program := by
  refine .map (relabels_collect (.bind (relabels_check _) fun _ => .ite (.pure _) ?_)) _
  exact (relabels_statementAt maxNesting .top).map _

end Labyrinth.Indented
