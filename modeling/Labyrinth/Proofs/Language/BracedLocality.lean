import Labyrinth.Language.Braced.Grammar
import Labyrinth.Proofs.Language.Locality
import Labyrinth.Proofs.Language.Stream

/-!
# Locality in the braced dialect

Expressions of the braced dialect are read by local parsers, and so is everything in a statement
that comes before its semicolon or before its body.

## Main results

* `local_expr`: expressions.
* `local_bindings`, `local_assignment`, `local_thrown`, `local_returned`: statements without their
  semicolons.
* `local_condition`, `local_pattern`: heads of statements with bodies.
-/

namespace Labyrinth.Braced

open Labyrinth.Parser

/-- No operator consists of two words. -/
abbrev pivot : Option TokenKind := none

theorem call_ok_of_ok {callee e : Expr} {args : List Expr} {q : Position}
    (h : call callee args q = .ok e) (q' : Position) : call callee args q' = .ok e := by
  unfold call at h ⊢
  split at h
  · split at h
    · obtain ⟨_, harity, h⟩ := bind_eq_ok_iff.1 h
      refine bind_eq_ok_iff.2 ⟨(), ?_, h⟩
      rw [checkArity, if_pos (length_of_checkArity harity)]
    · exact h
  · exact h
  · cases h

/-! ### Expressions -/

section Levels

variable {nested : Nat → Parser Expr} (hnested : ∀ room, Local pivot 0 (nested room))
include hnested

theorem local_arguments (room : Nat) : Local pivot 0 (arguments nested room) :=
  .expectOp (m := 1) (fun _ => rfl) (local_separated (fun _ => rfl) (hnested room))

theorem local_memberCall (object : String) {text : String} (room : Nat) :
    LocalAt pivot (.name text) 0 (memberCall nested object room) := by
  refine .advance (m := 0) rfl (fun _ => rfl) (.expectOp (m := 0) (fun _ => rfl) ?_)
  refine fun k => .position (fun q => ?_) fun q q' s r => bind_ok_of_ok fun member s' => ?_
  · refine LocalAt.bind (n := 0) (local_identifier _ k) fun member => ?_
    split
    · exact (local_arguments hnested room).map _
    · exact local_failAt _ _
  · cases memberFunction? object member with
    | none => exact nofun
    | some b => exact id

omit hnested in
theorem local_collection (className : String) (source : Option Expr) :
    Local pivot 0 (collection className source) := by
  unfold collection
  split
  iterate 4 exact .pure _
  · exact local_fail _

theorem local_creation {text : String} (room : Nat) :
    LocalAt pivot (.name text) 0 (creation nested room) := by
  have hrest (className : String) (source : Option Expr) : Local pivot 1 (do
      expectOp ")"
      collection className source) :=
    .expectOp (m := 0) (fun _ => rfl) (local_collection className source)
  refine .advance (m := 0) rfl (fun _ => rfl) (.bind (n := 0) (local_identifier _) fun _ => ?_)
  refine .expectOp (m := 1) (fun _ => rfl) (.bind (n := 1) (local_check _) fun b => .ite ?_ ?_)
  · exact .bind (n := 1) (.pure none) (hrest _)
  · exact .bind (n := 1) ((hnested room).map some) (hrest _)

theorem local_word (text : String) (room : Nat) :
    LocalAt pivot (.name text) 0 (word nested text room) := by
  have hadvance (e : Expr) : LocalAt pivot (.name text) 0 (do advance; return e) :=
    .advance (m := 0) rfl (fun _ => rfl) (.pure e)
  unfold word
  split
  · exact hadvance _
  · exact hadvance _
  · exact hadvance _
  · exact hadvance _
  · exact local_creation hnested room
  · exact local_memberCall hnested _ room
  · exact local_memberCall hnested _ room
  · split
    · exact local_fail _ _
    · exact hadvance _

theorem local_bracketed (opening : String) (room : Nat) :
    LocalAt pivot (.op opening) 0 (bracketed nested opening room) := by
  unfold bracketed
  split
  · refine .advance (m := 1) rfl (fun _ => rfl) (.bind (n := 1) (hnested room) fun inner => ?_)
    exact .expectOp (m := 0) (fun _ => rfl) (.pure _)
  · refine .advance (m := 1) rfl (fun _ => rfl) ?_
    exact (local_separated (fun _ => rfl) (hnested room)).map _
  · exact .advance (m := 1) rfl (fun _ => rfl) (.expectOp (m := 0) (fun _ => rfl) (.pure _))
  · exact local_failFound _ _

theorem local_atom (room : Nat) : Local pivot 0 (atom nested room) := by
  refine .peek fun k => ?_
  split
  · exact .advance (m := 0) rfl (fun _ => rfl) (.pure _)
  · exact .advance (m := 0) rfl (fun _ => rfl) (.pure _)
  · exact local_word hnested _ room
  · exact local_bracketed hnested _ room
  · exact local_failFound _ _

theorem local_suffix (room : Nat) (e : Expr) : Local pivot 0 (suffix nested room e) := by
  refine .peek fun k => ?_
  split
  · refine .descend (.position (fun q => ?_) ?_)
    · refine LocalAt.bind (n := 0) (local_arguments hnested _ _) fun args => ?_
      exact (Local.lift _).map _
    · intro q q' s r
      exact bind_ok_of_ok fun args s' => lift_ok_of_ok fun _ hcall => call_ok_of_ok hcall q'
  · refine .descend (.advance (m := 1) rfl (fun _ => rfl) ?_)
    exact .bind (n := 1) (hnested _) fun i => .expectOp (m := 0) (fun _ => rfl) (.pure _)
  · refine .descend (.advance (m := 0) rfl (fun _ => rfl) ?_)
    refine .bind (n := 0) (local_identifier _) fun name => ?_
    refine .bind (n := 0) (local_check _) fun b => ?_
    exact .ite (.pure _) (.pure _)
  · exact Local.pure _ _

theorem local_suffixes (room : Nat) (e : Expr) : Local pivot 0 (suffixes nested room e) := by
  induction room generalizing e with
  | zero =>
    unfold suffixes
    refine .bind (n := 0) (local_suffix hnested 0 e) fun o => ?_
    cases o with
    | none => exact .pure _
    | some e => exact .pure _
  | succ room ih =>
    unfold suffixes
    refine .bind (n := 0) (local_suffix hnested _ e) fun o => ?_
    cases o with
    | none => exact .pure _
    | some e => exact ih e

theorem local_postfixed (room : Nat) : Local pivot 0 (postfixed nested room) :=
  .bind (n := 0) (local_atom hnested room) fun e => local_suffixes hnested room e

theorem local_prefixed (room : Nat) : Local pivot 0 (prefixed nested room) := by
  induction room with
  | zero =>
    refine .eat (m := 0) rfl (fun _ => rfl) (local_fail _) ?_
    refine .eat (m := 0) rfl (fun _ => rfl) (local_fail _) ?_
    exact .eat (m := 0) rfl (fun _ => rfl) (local_fail _) (local_postfixed hnested 0)
  | succ room ih =>
    refine .eat (m := 0) rfl (fun _ => rfl) (ih.map _) ?_
    refine .eat (m := 0) rfl (fun _ => rfl) (ih.map negate) ?_
    exact .eat (m := 0) rfl (fun _ => rfl) ih (local_postfixed hnested _)

theorem local_sum (room : Nat) : Local pivot 0 (sum nested room) :=
  local_chain (local_oneOf (by simp [Indented.depthAfter]))
    (local_chain (local_oneOf (by simp [Indented.depthAfter])) (local_prefixed hnested)) room

theorem local_equality (room : Nat) : Local pivot 0 (equality nested room) :=
  local_chain (local_oneOf (by simp [Indented.depthAfter]))
    (local_chain (local_oneOf (by simp [Indented.depthAfter])) (local_sum hnested)) room

theorem local_disjunction (room : Nat) : Local pivot 0 (disjunction nested room) :=
  local_chain (local_oneOf (by simp [Indented.depthAfter]))
    (local_chain (local_oneOf (by simp [Indented.depthAfter])) (local_equality hnested)) room

end Levels

theorem local_exprAt (depth room : Nat) : Local pivot 0 (exprAt depth room) := by
  induction depth generalizing room with
  | zero => exact local_fail _
  | succ depth ih => exact .bind (n := 0) (local_descend room) fun _ => local_disjunction ih _

theorem local_expr (room : Nat) : Local pivot 0 (expr room) := local_exprAt _ _

/-! ### Statements without their semicolons -/

theorem local_pattern : Local pivot 0 pattern := by
  refine .eat (m := 1) rfl (fun _ => rfl) ?_ ((local_identifier _).map _)
  exact (local_separated (fun _ => rfl) (local_identifier _)).map _

theorem local_binding (constant : Bool) (room : Nat) : Local pivot 0 (binding constant room) := by
  refine .bind (n := 0) local_pattern fun names => ?_
  refine .eat (m := 0) rfl (fun _ => rfl) ?_ (.ite ?_ (.ite (local_fail _) (.pure _)))
  · exact (local_expr room).map _
  · exact (local_expr room).map _

theorem local_bindings (constant : Bool) (room : Nat) : Local pivot 0 (collect do
    let stmt ← binding constant room
    return if ← eat (.op ",") then .more stmt else .last stmt) := by
  refine local_collect (.bind (n := 0) (local_binding constant room) fun stmt => ?_)
  exact .eat (m := 0) rfl (fun _ => rfl) (.pure _) (.pure _)

theorem targetOf_ok_of_ok {e : Expr} {op : Option BinaryOp} {q : Position} {target : Target}
    (h : targetOf e op q = .ok target) (q' : Position) : targetOf e op q' = .ok target := by
  unfold targetOf at h ⊢
  split at h
  · exact h
  · exact h
  · split at h
    · exact h
    · cases h
  · cases h

theorem local_assignment (room : Nat) : Local pivot 0 (assignment room) := by
  refine fun k => .position (fun q => ?_) fun q q' s r => ?_
  · refine LocalAt.bind (n := 0) (local_expr room k) fun first => ?_
    refine .bind (n := 0) (local_oneOf (by simp [assignments, Indented.depthAfter])) fun o => ?_
    cases o with
    | none => exact .pure _
    | some op =>
      refine .bind (n := 0) (local_expr room) fun value => ?_
      exact (Local.lift _).map _
  · refine bind_ok_of_ok fun first _ => bind_ok_of_ok fun o s₁ => ?_
    cases o with
    | none => exact id
    | some op =>
      refine bind_ok_of_ok fun value s₂ => lift_ok_of_ok fun _ htarget => ?_
      exact targetOf_ok_of_ok htarget q'

theorem local_thrown (room : Nat) : Local pivot 0 (thrown room) := by
  refine .eat (m := 0) rfl (fun _ => rfl) ?_ ((local_expr room).map _)
  refine .bind (n := 0) (local_identifier _) fun _ => .expectOp (m := 1) (fun _ => rfl) ?_
  exact .bind (n := 1) (local_expr room) fun _ => .expectOp (m := 0) (fun _ => rfl) (.pure _)

theorem local_returned (room : Nat) : Local pivot 0 (returned room) := by
  refine .peek fun k => ?_
  split
  · exact Local.pure _ _
  · exact Local.pure _ _
  · exact (local_expr room).map _ _

theorem local_condition (room : Nat) : Local pivot 0 (condition room) := by
  refine .expectOp (m := 1) (fun _ => rfl) (.bind (n := 1) (local_expr room) fun e => ?_)
  exact .expectOp (m := 0) (fun _ => rfl) (.pure _)

end Labyrinth.Braced
