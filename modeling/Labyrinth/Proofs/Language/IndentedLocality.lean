import Labyrinth.Language.Indented.Grammar
import Labyrinth.Proofs.Language.Locality
import Labyrinth.Proofs.Language.Stream

/-!
# Locality in the indented dialect

What the indented dialect has on one line is read by local parsers, from expressions up to simple
statements. Only behind the word `not` does it matter what the second one of the next tokens is.

## Main results

* `local_expr`: expressions.
* `local_simple`: statements without a block of their own.
-/

namespace Labyrinth.Indented

open Labyrinth.Parser

/-- The keyword that can begin an operator of two words. -/
abbrev pivot : Option TokenKind := some (.name "not")

theorem call_ok_of_ok {callee e : Expr} {args : List Expr} {q : Position}
    (h : call callee args q = .ok e) (q' : Position) : call callee args q' = .ok e := by
  unfold call at h ⊢
  split at h
  · split at h
    · obtain ⟨_, harity, h⟩ := bind_eq_ok_iff.1 h
      refine bind_eq_ok_iff.2 ⟨(), ?_, h⟩
      rw [checkArity, if_pos (length_of_checkArity harity)]
    · exact h
  · exact h
  · cases h

/-! ### Expressions -/

section Levels

variable {nested : Nat → Parser Expr} (hnested : ∀ room, Local pivot 0 (nested room))
include hnested

theorem local_entries (room : Nat) : Local pivot 0 (entries nested room) := by
  refine local_collect (.eat (m := 0) rfl (fun _ => rfl) ?_ (.pure _))
  refine .bind (n := 0) (local_check _) fun b => .ite (.pure _) ?_
  refine .bind (n := 0) (hnested room) fun key => .expectOp (m := 0) (fun _ => rfl) ?_
  exact (hnested room).map _

theorem local_braces (room : Nat) : Local pivot 1 (braces nested room) := by
  refine .eat (m := 0) rfl (fun _ => rfl) (.pure _) ?_
  refine .bind (n := 1) (hnested room) fun first => .eat (m := 1) rfl (fun _ => rfl) ?_ ?_
  · refine .bind (n := 1) (hnested room) fun value => ?_
    refine .bind (n := 1) (local_entries hnested room) fun rest => ?_
    exact .expectOp (m := 0) (fun _ => rfl) (.pure _)
  · refine .eat (m := 1) rfl (fun _ => rfl) ?_ (.expectOp (m := 0) (fun _ => rfl) (.pure _))
    exact (local_separated (fun _ => rfl) (hnested room)).map _

theorem local_parentheses (room : Nat) : Local pivot 1 (parentheses nested room) := by
  refine .eat (m := 0) rfl (fun _ => rfl) (.pure _) ?_
  refine .bind (n := 1) (hnested room) fun first => .eat (m := 0) rfl (fun _ => rfl) (.pure _) ?_
  refine .bind (n := 1) (local_collect ?_) fun rest => .expectOp (m := 0) (fun _ => rfl) (.pure _)
  refine .eat (m := 0) rfl (fun _ => rfl) ?_ (.pure _)
  refine .bind (n := 0) (local_check _) fun b => .ite (.pure _) ?_
  exact (hnested room).map _

omit hnested in
theorem local_word (text : String) : LocalAt pivot (.name text) 0 (word text) := by
  have hadvance (e : Expr) : LocalAt pivot (.name text) 0 (do advance; return e) :=
    .advance (m := 0) rfl (fun _ => rfl) (.pure e)
  unfold word
  split
  · exact hadvance _
  · exact hadvance _
  · exact hadvance _
  · split
    · exact local_fail _ _
    · exact hadvance _

theorem local_bracketed (opening : String) (room : Nat) :
    LocalAt pivot (.op opening) 0 (bracketed nested opening room) := by
  unfold bracketed
  split
  · exact .advance (m := 1) rfl (fun _ => rfl) (local_parentheses hnested room)
  · refine .advance (m := 1) rfl (fun _ => rfl) ?_
    exact (local_separated (fun _ => rfl) (hnested room)).map _
  · exact .advance (m := 1) rfl (fun _ => rfl) (local_braces hnested room)
  · exact local_failFound _ _

theorem local_atom (room : Nat) : Local pivot 0 (atom nested room) := by
  refine .peek fun k => ?_
  split
  · exact .advance (m := 0) rfl (fun _ => rfl) (.pure _)
  · exact .advance (m := 0) rfl (fun _ => rfl) (.pure _)
  · exact local_word _
  · exact local_bracketed hnested _ room
  · exact local_failFound _ _

theorem local_suffix (room : Nat) (e : Expr) : Local pivot 0 (suffix nested room e) := by
  refine .peek fun k => ?_
  split
  · refine .descend (.position (fun q => .advance (m := 1) rfl (fun _ => rfl) ?_) ?_)
    · refine .bind (m := 1) (n := 0) (local_separated (fun _ => rfl) (hnested _)) fun args => ?_
      exact (Local.lift _).map _
    · intro q q' s r
      exact bind_ok_of_ok fun _ _ => bind_ok_of_ok fun args s' =>
        lift_ok_of_ok fun _ hcall => call_ok_of_ok hcall q'
  · refine .descend (.advance (m := 1) rfl (fun _ => rfl) ?_)
    exact .bind (n := 1) (hnested _) fun i => .expectOp (m := 0) (fun _ => rfl) (.pure _)
  · exact .descend (.advance (m := 0) rfl (fun _ => rfl) ((local_identifier []).map _))
  · exact Local.pure _ _

theorem local_suffixes (room : Nat) (e : Expr) : Local pivot 0 (suffixes nested room e) := by
  induction room generalizing e with
  | zero =>
    unfold suffixes
    refine .bind (n := 0) (local_suffix hnested 0 e) fun o => ?_
    cases o with
    | none => exact .pure _
    | some e => exact .pure _
  | succ room ih =>
    unfold suffixes
    refine .bind (n := 0) (local_suffix hnested _ e) fun o => ?_
    cases o with
    | none => exact .pure _
    | some e => exact ih e

theorem local_postfixed (room : Nat) : Local pivot 0 (postfixed nested room) :=
  .bind (n := 0) (local_atom hnested room) fun e => local_suffixes hnested room e

theorem local_signed (room : Nat) : Local pivot 0 (signed nested room) := by
  induction room with
  | zero =>
    refine .eat (m := 0) rfl (fun _ => rfl) (local_fail _) ?_
    exact .eat (m := 0) rfl (fun _ => rfl) (local_fail _) (local_postfixed hnested 0)
  | succ room ih =>
    refine .eat (m := 0) rfl (fun _ => rfl) (ih.map negate) ?_
    exact .eat (m := 0) rfl (fun _ => rfl) ih (local_postfixed hnested _)

theorem local_sum (room : Nat) : Local pivot 0 (sum nested room) :=
  local_chain (local_oneOf (by simp [depthAfter])) (local_chain (local_oneOf (by simp [depthAfter]))
    (local_signed hnested)) room

end Levels

theorem notIn_eq (combine : Expr → Expr → Expr) (s : TokenStream) :
    (do
      if (← peekSecond) == .name "in" then
        advance
        advance
        return some combine
      else
        return none : Parser (Option (Expr → Expr → Expr))) s =
      if s.second.kind == .name "in" then .ok (some combine, s.advance.advance)
      else .ok (none, s) := by
  refine (stateBind_of_ok rfl).trans ?_
  split
  · rfl
  · rfl

/-- The second word of an operator matters if the first one comes next. -/
theorem local_notIn (combine : Expr → Expr → Expr) : LocalAt pivot (.name "not") 0 (do
    if (← peekSecond) == .name "in" then
      advance
      advance
      return some combine
    else
      return none) := by
  intro s xs a s' hs hk heq
  rw [notIn_eq] at heq
  cases xs with
  | nil => cases hk
  | cons k xs =>
    obtain rfl : k = .name "not" := hk
    rw [hs.second_kind, List.tail_cons] at heq
    split at heq
    · rename_i hin
      cases xs with
      | nil => cases hin
      | cons k' xs =>
        obtain rfl : k' = .name "in" := beq_iff_eq.1 hin
        cases heq
        refine ⟨[.name "not", .name "in"], xs, rfl, ?_, hs.advance.advance, ?_, fun t ys ht _ => ?_⟩
        · exact .cons rfl (fun _ => rfl) (.cons (n := 0) rfl (fun _ => rfl) .nil)
        · exact s.advance.defined_advance.trans s.defined_advance
        · refine ⟨t.advance.advance, ?_, ht.advance.advance, ?_⟩
          · rw [notIn_eq, ht.second_kind]
            rfl
          · exact t.advance.defined_advance.trans t.defined_advance
    · rename_i hin
      cases heq
      refine ⟨[], .name "not" :: xs, rfl, .nil, hs, rfl, fun t ys ht halike => ⟨t, ?_, ht, rfl⟩⟩
      have hsecond : xs.headD .eof = ys.tail.headD .eof := halike.second rfl
      rw [hsecond] at hin
      rw [notIn_eq, ht.second_kind]
      exact if_neg hin

theorem local_comparator : Local pivot 0 comparator := by
  have hadvance {k : TokenKind} (hk : k.isLayout = false)
      (hdepth : ∀ depth, depthAfter k depth = depth) (combine : Option (Expr → Expr → Expr)) :
      LocalAt pivot k 0 (do advance; return combine) :=
    .advance (m := 0) hk hdepth (.pure _)
  refine .peek fun k => ?_
  split
  iterate 7 exact hadvance rfl (fun _ => rfl) _
  · exact local_notIn _
  · refine .advance (m := 0) rfl (fun _ => rfl) ?_
    exact .eat (m := 0) rfl (fun _ => rfl) (.pure _) (.pure _)
  · exact Local.pure _ _

section Levels

variable {nested : Nat → Parser Expr} (hnested : ∀ room, Local pivot 0 (nested room))
include hnested

theorem local_comparison (room : Nat) : Local pivot 0 (comparison nested room) := by
  refine .bind (n := 0) (local_sum hnested room) fun lhs => ?_
  refine .bind (n := 0) local_comparator fun o => ?_
  cases o with
  | none => exact .pure _
  | some combine =>
    refine .bind (n := 0) (local_sum hnested room) fun rhs => ?_
    refine .bind (n := 0) local_comparator fun o => ?_
    cases o with
    | none => exact .pure _
    | some _ => exact local_fail _

theorem local_negation (room : Nat) : Local pivot 0 (negation nested room) := by
  induction room with
  | zero =>
    exact .eat (m := 0) rfl (fun _ => rfl) (local_fail _) (local_comparison hnested 0)
  | succ room ih =>
    exact .eat (m := 0) rfl (fun _ => rfl) (ih.map _) (local_comparison hnested _)

theorem local_disjunction (room : Nat) : Local pivot 0 (disjunction nested room) :=
  local_chain (local_wordOperator _ _) (local_chain (local_wordOperator _ _)
    (local_negation hnested)) room

end Levels

theorem local_exprAt (depth room : Nat) : Local pivot 0 (exprAt depth room) := by
  induction depth generalizing room with
  | zero => exact local_fail _
  | succ depth ih => exact .bind (n := 0) (local_descend room) fun _ => local_disjunction ih _

theorem local_expr (room : Nat) : Local pivot 0 (expr room) := local_exprAt _ _

theorem local_exprList (room : Nat) : Local pivot 0 (exprList room) := by
  refine .bind (n := 0) (local_expr room) fun first => .bind (n := 0) (local_check _) fun b => ?_
  refine .ite ((local_collect ?_).map _) (.pure _)
  refine .eat (m := 0) rfl (fun _ => rfl) (.peek fun k => ?_) (.pure _)
  split
  · exact Local.pure _ _
  · exact Local.pure _ _
  · exact ((local_expr room).map _) _

/-! ### Statements -/

theorem local_furtherNames : Local pivot 0 furtherNames :=
  local_collect (.eat (m := 0) rfl (fun _ => rfl) ((local_identifier _).map _) (.pure _))

theorem local_loopPattern : Local pivot 0 loopPattern := by
  refine .bind (n := 0) (local_identifier _) fun first => .bind (n := 0) (local_check _) fun b => ?_
  exact .ite (local_furtherNames.map _) (.pure _)

theorem local_assignment (room : Nat) : Local pivot 0 (assignment room) := by
  refine fun k => .position (fun q => ?_) fun q q' s r => ?_
  · refine LocalAt.bind (n := 0) (local_expr room k) fun first => ?_
    refine .bind (n := 0) (local_check _) fun b => .ite ?_ (.eat (m := 0) rfl (fun _ => rfl) ?_ ?_)
    · split
      · refine .bind (n := 0) local_furtherNames fun names => .expectOp (m := 0) (fun _ => rfl) ?_
        exact (local_exprList room).map _
      · exact local_fail _
    · refine .bind (n := 0) (local_exprList room) fun value => ?_
      split
      · exact .pure _
      · exact .pure _
      · exact local_failAt _ _
    · refine .bind (n := 0) (local_oneOf (by simp [augmented, depthAfter])) fun o => ?_
      cases o with
      | none => exact .pure _
      | some op =>
        refine .bind (n := 0) (local_expr room) fun value => ?_
        split
        · exact .pure _
        · exact .pure _
        · exact local_failAt _ _
  · refine bind_ok_of_ok fun first _ => bind_ok_of_ok fun b s₁ => ?_
    split
    · exact id
    · refine bind_ok_of_ok fun c s₂ => ?_
      split
      · refine bind_ok_of_ok fun value s₃ => ?_
        split
        · exact id
        · exact id
        · exact nofun
      · refine bind_ok_of_ok fun o s₃ => ?_
        cases o with
        | none => exact id
        | some op =>
          refine bind_ok_of_ok fun value s₄ => ?_
          split
          · exact id
          · exact id
          · exact nofun

theorem local_simple (room : Nat) (around : Surroundings) : Local pivot 0 (simple room around) := by
  have hadvance {text : String} (o : Option Stmt) :
      LocalAt pivot (.name text) 0 (do advance; return o) :=
    .advance (m := 0) rfl (fun _ => rfl) (.pure _)
  refine .peek fun k => ?_
  split
  · exact hadvance _
  · split
    · exact hadvance _
    · exact local_fail _ _
  · split
    · exact hadvance _
    · exact local_fail _ _
  · split
    · refine .advance (m := 0) rfl (fun _ => rfl) (.peek fun k' => ?_)
      split
      · exact Local.pure _ _
      · exact Local.pure _ _
      · exact Local.pure _ _
      · exact (local_exprList room).map _ _
    · exact local_fail _ _
  · refine .advance (m := 0) rfl (fun _ => rfl) (.bind (n := 0) (local_identifier _) fun _ => ?_)
    refine .expectOp (m := 1) (fun _ => rfl) (.bind (n := 1) (local_expr room) fun _ => ?_)
    exact .expectOp (m := 0) (fun _ => rfl) (.pure _)
  · exact (local_assignment room).map _ _

end Labyrinth.Indented
