import Labyrinth.Language.Braced.Grammar
import Labyrinth.Proofs.Language.Relabeling

/-!
# Positions in the braced dialect

The parsers of the braced dialect pass positions on, from expressions up to whole programs. A few of
them remember where a word, an expression or an opening bracket stands, in order to report it later.

## Main results

* `relabels_expr`: expressions.
* `relabels_assignment`: statements that begin with an expression.
* `relabels_program`: whole programs.
-/

namespace Labyrinth.Braced

open Labyrinth.Parser

variable {g : Position → Position}

theorem call_relabel (callee : Expr) (args : List Expr) (q : Position) :
    call callee args (g q) = (call callee args q).mapError (SyntaxError.relabel g) := by
  unfold call
  split
  · split
    · next c _ =>
      unfold checkArity
      split
      · rfl
      · rfl
    · split
      · rfl
      · rfl
      · rfl
  · rfl
  · rfl

theorem targetOf_relabel (e : Expr) (op : Option BinaryOp) (q : Position) :
    targetOf e op (g q) = (targetOf e op q).mapError (SyntaxError.relabel g) := by
  unfold targetOf
  split
  · rfl
  · rfl
  · split
    · rfl
    · rfl
  · rfl

/-! ### Expressions -/

section Levels

variable {nested : Nat → Parser Expr} (hnested : ∀ room, Relabels g (nested room) (nested room))
include hnested

theorem relabels_arguments (room : Nat) :
    Relabels g (arguments nested room) (arguments nested room) :=
  .bind (relabels_expectOp _) fun _ => relabels_separated _ (hnested room)

theorem relabels_memberCall (object : String) (room : Nat) :
    Relabels g (memberCall nested object room) (memberCall nested object room) := by
  refine .bind relabels_advance fun _ => .bind (relabels_expectOp _) fun _ => .position fun q => ?_
  refine .bind (relabels_identifier _) fun member => ?_
  split
  · exact (relabels_arguments hnested room).map _
  · exact relabels_failAt _ _

omit hnested in
theorem relabels_collection (className : String) (source : Option Expr) :
    Relabels g (collection className source) (collection className source) := by
  unfold collection
  split
  iterate 4 exact .pure _
  · exact relabels_fail _

theorem relabels_creation (room : Nat) :
    Relabels g (creation nested room) (creation nested room) := by
  have hrest (className : String) (source : Option Expr) : Relabels g (do
      expectOp ")"
      collection className source) (do
      expectOp ")"
      collection className source) :=
    .bind (relabels_expectOp _) fun _ => relabels_collection className source
  refine .bind relabels_advance fun _ => .bind (relabels_identifier _) fun _ => ?_
  refine .bind (relabels_expectOp _) fun _ => .bind (relabels_check _) fun _ => .ite ?_ ?_
  · exact .bind (.pure none) (hrest _)
  · exact .bind ((hnested room).map some) (hrest _)

theorem relabels_word (text : String) (room : Nat) :
    Relabels g (word nested text room) (word nested text room) := by
  have hadvance (e : Expr) : Relabels g (do advance; return e) (do advance; return e) :=
    relabels_advance.map _
  unfold word
  split
  · exact hadvance _
  · exact hadvance _
  · exact hadvance _
  · exact hadvance _
  · exact relabels_creation hnested room
  · exact relabels_memberCall hnested _ room
  · exact relabels_memberCall hnested _ room
  · exact .ite (relabels_fail _) (hadvance _)

theorem relabels_bracketed (opening : String) (room : Nat) :
    Relabels g (bracketed nested opening room) (bracketed nested opening room) := by
  unfold bracketed
  split
  · refine .bind relabels_advance fun _ => .bind (hnested room) fun inner => ?_
    exact (relabels_expectOp _).map _
  · exact .bind relabels_advance fun _ => (relabels_separated _ (hnested room)).map _
  · exact .bind relabels_advance fun _ => (relabels_expectOp _).map _
  · exact relabels_failFound _

theorem relabels_atom (room : Nat) : Relabels g (atom nested room) (atom nested room) := by
  refine .bind relabels_peek fun k => ?_
  split
  · exact relabels_advance.map _
  · exact relabels_advance.map _
  · exact relabels_word hnested _ room
  · exact relabels_bracketed hnested _ room
  · exact relabels_failFound _

theorem relabels_suffix (room : Nat) (e : Expr) :
    Relabels g (suffix nested room e) (suffix nested room e) := by
  refine .bind relabels_peek fun k => ?_
  split
  · refine .bind (relabels_descend _) fun _ => .position fun q => ?_
    refine .bind (relabels_arguments hnested _) fun args => .map (.lift ?_) _
    exact call_relabel e args q
  · refine .bind (relabels_descend _) fun _ => .bind relabels_advance fun _ => ?_
    exact .bind (hnested _) fun i => (relabels_expectOp _).map _
  · refine .bind (relabels_descend _) fun _ => .bind relabels_advance fun _ => ?_
    refine .bind (relabels_identifier _) fun name => .bind (relabels_check _) fun _ => ?_
    exact .ite (.pure _) (.pure _)
  · exact .pure _

theorem relabels_suffixes (room : Nat) (e : Expr) :
    Relabels g (suffixes nested room e) (suffixes nested room e) := by
  induction room generalizing e with
  | zero =>
    unfold suffixes
    refine .bind (relabels_suffix hnested 0 e) fun o => ?_
    cases o with
    | none => exact .pure _
    | some e => exact .pure _
  | succ room ih =>
    unfold suffixes
    refine .bind (relabels_suffix hnested _ e) fun o => ?_
    cases o with
    | none => exact .pure _
    | some e => exact ih e

theorem relabels_postfixed (room : Nat) :
    Relabels g (postfixed nested room) (postfixed nested room) :=
  .bind (relabels_atom hnested room) fun e => relabels_suffixes hnested room e

theorem relabels_prefixed (room : Nat) :
    Relabels g (prefixed nested room) (prefixed nested room) := by
  induction room with
  | zero =>
    refine .bind (relabels_eat _) fun _ => .ite (relabels_fail _) ?_
    refine .bind (relabels_eat _) fun _ => .ite (relabels_fail _) ?_
    exact .bind (relabels_eat _) fun _ => .ite (relabels_fail _) (relabels_postfixed hnested 0)
  | succ room ih =>
    refine .bind (relabels_eat _) fun _ => .ite (ih.map _) ?_
    refine .bind (relabels_eat _) fun _ => .ite (ih.map _) ?_
    exact .bind (relabels_eat _) fun _ => .ite ih (relabels_postfixed hnested _)

theorem relabels_sum (room : Nat) : Relabels g (sum nested room) (sum nested room) :=
  relabels_chain (relabels_oneOf _)
    (relabels_chain (relabels_oneOf _) (relabels_prefixed hnested)) room

theorem relabels_equality (room : Nat) :
    Relabels g (equality nested room) (equality nested room) :=
  relabels_chain (relabels_oneOf _)
    (relabels_chain (relabels_oneOf _) (relabels_sum hnested)) room

theorem relabels_disjunction (room : Nat) :
    Relabels g (disjunction nested room) (disjunction nested room) :=
  relabels_chain (relabels_oneOf _)
    (relabels_chain (relabels_oneOf _) (relabels_equality hnested)) room

end Levels

theorem relabels_exprAt (depth room : Nat) :
    Relabels g (exprAt depth room) (exprAt depth room) := by
  induction depth generalizing room with
  | zero => exact relabels_fail _
  | succ depth ih => exact .bind (relabels_descend room) fun _ => relabels_disjunction ih _

theorem relabels_expr (room : Nat) : Relabels g (expr room) (expr room) := relabels_exprAt _ _

/-! ### Statements without bodies -/

theorem relabels_pattern : Relabels g pattern pattern := by
  refine .bind (relabels_eat _) fun _ => .ite ?_ ((relabels_identifier _).map _)
  exact (relabels_separated _ (relabels_identifier _)).map _

theorem relabels_binding (constant : Bool) (room : Nat) :
    Relabels g (binding constant room) (binding constant room) := by
  refine .bind relabels_pattern fun names => .bind (relabels_eat _) fun _ => ?_
  exact .ite ((relabels_expr room).map _) (.ite (relabels_fail _) (.pure _))

theorem relabels_declaration (constant : Bool) (room : Nat) :
    Relabels g (declaration constant room) (declaration constant room) := by
  refine .bind relabels_advance fun _ => .bind (relabels_collect ?_) fun stmts =>
    (relabels_expectOp _).map _
  exact .bind (relabels_binding constant room) fun stmt => (relabels_eat _).map _

theorem relabels_assignment (room : Nat) : Relabels g (assignment room) (assignment room) := by
  refine .position fun q => .bind (relabels_expr room) fun first => ?_
  refine .bind (relabels_oneOf _) fun o => ?_
  cases o with
  | none => exact .pure _
  | some op =>
    refine .bind (relabels_expr room) fun value => .map (.lift ?_) _
    exact targetOf_relabel first op q

theorem relabels_thrown (room : Nat) : Relabels g (thrown room) (thrown room) := by
  refine .bind (relabels_eat _) fun _ => .ite ?_ ((relabels_expr room).map _)
  refine .bind (relabels_identifier _) fun _ => .bind (relabels_expectOp _) fun _ => ?_
  exact .bind (relabels_expr room) fun _ => (relabels_expectOp _).map _

theorem relabels_returned (room : Nat) : Relabels g (returned room) (returned room) := by
  refine .bind relabels_peek fun k => ?_
  split
  · exact .pure _
  · exact .pure _
  · exact (relabels_expr room).map _

theorem relabels_condition (room : Nat) : Relabels g (condition room) (condition room) :=
  .bind (relabels_expectOp _) fun _ => .bind (relabels_expr room) fun _ =>
    (relabels_expectOp _).map _

/-! ### Statements with bodies -/

section Blocks

variable {inner : Surroundings → Parser (List Stmt)}
  (hinner : ∀ around, Relabels g (inner around) (inner around))
include hinner

theorem relabels_braced (room : Nat) (around : Surroundings) :
    Relabels g (braced room inner around) (braced room inner around) := by
  refine .bind (relabels_expectOp _) fun _ => .bind (relabels_descend room) fun _ => ?_
  refine .bind (relabels_collect (.bind relabels_peek fun k => ?_)) fun body =>
    (relabels_expectOp _).map _
  split
  · exact .pure _
  · exact relabels_failFound _
  · exact (hinner around).map _

theorem relabels_body (room : Nat) (around : Surroundings) :
    Relabels g (body room inner around) (body room inner around) :=
  .bind (relabels_check _) fun _ => .ite (relabels_braced hinner room around)
    (.bind (relabels_descend room) fun _ => hinner around)

theorem relabels_function (room : Nat) :
    Relabels g (function room inner) (function room inner) := by
  refine .bind relabels_advance fun _ => .bind (relabels_functionName _) fun name => ?_
  exact .bind (relabels_parameters _) fun params => (relabels_braced hinner room _).map _

theorem relabels_forEach (room : Nat) (around : Surroundings) :
    Relabels g (forEach room inner around) (forEach room inner around) := by
  have hrest : Relabels g (do
      let names ← pattern
      expectWord "of"
      let iterable ← expr room
      expectOp ")"
      return Stmt.forEach names iterable (← body room inner around.loop)) (do
      let names ← pattern
      expectWord "of"
      let iterable ← expr room
      expectOp ")"
      return Stmt.forEach names iterable (← body room inner around.loop)) := by
    refine .bind relabels_pattern fun names => .bind (relabels_expectWord _) fun _ => ?_
    refine .bind (relabels_expr room) fun iterable => .bind (relabels_expectOp _) fun _ => ?_
    exact (relabels_body hinner room _).map _
  refine .bind relabels_advance fun _ => .bind (relabels_expectOp _) fun _ => ?_
  refine .bind (relabels_eat _) fun _ => .ite hrest (.bind (relabels_eat _) fun _ => .ite hrest ?_)
  exact .bind (relabels_failFound _) fun _ => hrest

theorem relabels_whileLoop (room : Nat) (around : Surroundings) :
    Relabels g (whileLoop room inner around) (whileLoop room inner around) :=
  .bind relabels_advance fun _ => .bind (relabels_condition room) fun _ =>
    (relabels_body hinner room _).map _

theorem relabels_guarded (room : Nat) (around : Surroundings) :
    Relabels g (guarded room inner around) (guarded room inner around) :=
  .bind relabels_advance fun _ => .bind (relabels_condition room) fun _ =>
    (relabels_body hinner room around).map _

theorem relabels_conditional (room : Nat) (around : Surroundings) :
    Relabels g (conditional room inner around) (conditional room inner around) := by
  refine .bind (relabels_collect ?_) fun arms => .bind (relabels_eat _) fun _ => ?_
  · refine .bind (relabels_guarded hinner room around) fun arm => ?_
    refine .bind (relabels_check _) fun _ => .bind relabels_peekSecond fun _ => ?_
    exact .ite (relabels_advance.map _) (.pure _)
  · refine .ite ?_ (.bind (.pure _) fun _ => .pure _)
    exact .bind ((relabels_body hinner room around).map _) fun _ => .pure _

theorem relabels_statement (room : Nat) (around : Surroundings) :
    Relabels g (statement room inner around) (statement room inner around) := by
  have hend (stmts : List Stmt) : Relabels g (do endStatement; return stmts)
      (do endStatement; return stmts) :=
    (relabels_expectOp _).map _
  refine .bind relabels_peek fun k => ?_
  split
  · exact relabels_advance.map _
  · exact relabels_braced hinner room around
  · exact (relabels_function hinner room).map _
  · exact relabels_declaration false room
  · exact relabels_declaration true room
  · exact relabels_declaration false room
  · exact (relabels_forEach hinner room around).map _
  · exact (relabels_whileLoop hinner room around).map _
  · exact (relabels_conditional hinner room around).map _
  · refine .ite (.bind relabels_advance fun _ => ?_) (relabels_fail _)
    exact .bind (relabels_returned room) fun _ => hend _
  · exact .ite (.bind relabels_advance fun _ => hend _) (relabels_fail _)
  · exact .ite (.bind relabels_advance fun _ => hend _) (relabels_fail _)
  · exact .bind relabels_advance fun _ => .bind (relabels_thrown room) fun _ => hend _
  · exact relabels_fail _
  · exact .bind (relabels_assignment room) fun _ => hend _

end Blocks

theorem relabels_statementAt (room : Nat) (around : Surroundings) :
    Relabels g (statementAt room around) (statementAt room around) := by
  induction room generalizing around with
  | zero => exact relabels_statement (fun _ => relabels_fail _) 0 around
  | succ room ih => exact relabels_statement ih (room + 1) around

/-- Positions matter to nothing but the positions of errors. -/
theorem relabels_program (g : Position → Position) : Relabels g program program := by
  refine .map (relabels_collect (.bind (relabels_check _) fun _ => .ite (.pure _) ?_)) _
  exact (relabels_statementAt maxNesting .top).map _

end Labyrinth.Braced
