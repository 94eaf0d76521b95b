import Labyrinth.Language.Braced.Grammar
import Labyrinth.Proofs.Language.Heights

/-!
# Heights in the braced dialect

An expression of the braced dialect may have seven chains below each other before a bracket is
opened, since comparisons of order and for equality are chains, too. With every level of brackets
the height grows by seven times the room that is left.

## Main results

* `height_exprAt`: how high an expression is that has been read with so much room.
* `heights_of_parse`: how high a program is.
-/

namespace Labyrinth.Braced

open Labyrinth.Parser

/-- How high expressions are for which there is so much room. -/
def reach (room : Nat) : Nat := 7 * (room * (room - 1)) / 2 + room

theorem reach_succ (room : Nat) : reach (room + 1) = reach room + 7 * room + 1 := by
  cases room with
  | zero => rfl
  | succ room =>
    have hsum : 7 * ((room + 1 + 1) * (room + 1)) =
        7 * ((room + 1) * room) + 2 * (7 * (room + 1)) := by ring
    rw [reach, reach, Nat.add_sub_cancel, Nat.add_sub_cancel, hsum]
    omega

theorem monotone_reach : Monotone reach :=
  monotone_nat_of_le_succ fun room => by rw [reach_succ, Nat.add_assoc]; exact Nat.le_add_right ..

/-! ### Calls -/

theorem height_call_le {callee e : Expr} {args : List Expr} {p : Position} {n : Nat}
    (hcallee : callee.height ≤ n) (hargs : Expr.heights args ≤ n)
    (h : call callee args p = .ok e) : e.height ≤ n + 1 := by
  unfold call at h
  split at h
  · split at h
    · obtain ⟨-, -, h⟩ := bind_eq_ok_iff.1 h
      cases h
      exact Nat.succ_le_succ hargs
    · split at h <;> cases h <;> exact Nat.succ_le_succ hargs
  · cases h
    simp only [Expr.height] at hcallee ⊢
    omega
  · cases h

/-! ### Expressions -/

section Levels

variable {nested : Nat → Parser Expr}
  (hnested : ∀ room, Returns (nested room) fun e => e.height ≤ reach room)
include hnested

theorem height_arguments (room : Nat) :
    Returns (arguments nested room) fun args => Expr.heights args ≤ reach room :=
  .after fun _ => (returns_separated _ (hnested room)).mono fun _ => Expr.heights_le_iff.2

theorem height_memberCall (object : String) (room : Nat) :
    Returns (memberCall nested object room) fun e => e.height ≤ reach room + 1 := by
  unfold memberCall
  refine .after fun _ => .after fun _ => .after fun p => .after fun member => ?_
  split
  · refine .bind (height_arguments hnested room) fun args hargs => .pure ?_
    exact Nat.succ_le_succ hargs
  · exact returns_failAt _ _

omit hnested in
theorem height_collection (className : String) {source : Option Expr} {n : Nat}
    (h : ∀ e ∈ source, e.height ≤ n) :
    Returns (collection className source) fun e => e.height ≤ n + 1 := by
  unfold collection
  split
  · exact .pure (Nat.le_add_left ..)
  · exact .pure (Nat.succ_le_succ (h _ rfl))
  · exact .pure (Nat.le_add_left ..)
  · exact .pure (Nat.succ_le_succ (h _ rfl))
  · exact returns_fail _

theorem height_creation (room : Nat) :
    Returns (creation nested room) fun e => e.height ≤ reach room + 1 := by
  unfold creation
  refine .after fun _ => .after fun className => .after fun _ => .after fun b => ?_
  refine .ite (fun _ => ?_) fun _ => ?_
  · refine .bind (P := fun source => source = none) (.pure rfl) ?_
    rintro _ rfl
    exact .after fun _ => height_collection className fun _ h => absurd h (Option.not_mem_none _)
  · simp only [map_eq_pure_bind, bind_assoc, pure_bind]
    refine .bind (hnested room) fun source hsource => .after fun _ => ?_
    refine height_collection className fun e he => ?_
    exact Option.mem_some_iff.1 he ▸ hsource

theorem height_word (text : String) (room : Nat) :
    Returns (word nested text room) fun e => e.height ≤ reach room + 1 := by
  unfold word
  split
  iterate 4 exact .after fun _ => .pure (Nat.le_add_left ..)
  · exact height_creation hnested room
  · exact height_memberCall hnested _ room
  · exact height_memberCall hnested _ room
  · refine .ite (fun _ => returns_fail _) fun _ => ?_
    exact .after fun _ => .pure (Nat.le_add_left ..)

theorem height_bracketed (opening : String) (room : Nat) :
    Returns (bracketed nested opening room) fun e => e.height ≤ reach room + 1 := by
  unfold bracketed
  split
  · refine .after fun _ => .bind (hnested room) fun inner hinner => .after fun _ => .pure ?_
    exact Nat.le_succ_of_le hinner
  · refine .after fun _ => .bind (returns_separated _ (hnested room)) fun items hitems => .pure ?_
    exact Nat.succ_le_succ (Expr.heights_le_iff.2 hitems)
  · exact .after fun _ => .after fun _ => .pure (Nat.le_add_left ..)
  · exact returns_failFound _

/-- What stands in brackets may be as high as an expression with the same room. -/
theorem height_atom (room : Nat) : Returns (atom nested room) fun e =>
    e.height ≤ reach room + 1 := by
  unfold atom
  refine .after fun k => ?_
  split
  · exact .after fun _ => .pure (Nat.le_add_left ..)
  · exact .after fun _ => .pure (Nat.le_add_left ..)
  · exact height_word hnested _ room
  · exact height_bracketed hnested _ room
  · exact returns_failFound _

theorem height_suffix (room : Nat) {e : Expr} {n : Nat} (he : e.height ≤ n) (hn : reach room ≤ n) :
    Returns (suffix nested room e) fun o => ∀ x ∈ o, x.height ≤ n + 1 ∧ 0 < room := by
  have hle : reach (room - 1) ≤ n := (monotone_reach (Nat.sub_le room 1)).trans hn
  unfold suffix
  refine .after fun k => ?_
  split
  · refine returns_descend fun k hk => .after fun p => ?_
    refine .bind (height_arguments hnested _) fun args hargs => ?_
    refine .bind (.lift fun x hx => height_call_le he (hargs.trans hle) hx) fun x hx => .pure ?_
    rintro _ ⟨rfl⟩
    exact ⟨hx, hk ▸ Nat.succ_pos k⟩
  · refine returns_descend fun k hk => .after fun _ => .bind (hnested _) fun i hi => ?_
    refine .after fun _ => .pure ?_
    rintro _ ⟨rfl⟩
    exact ⟨Nat.succ_le_succ (Nat.max_le.2 ⟨he, hi.trans hle⟩), hk ▸ Nat.succ_pos k⟩
  · refine returns_descend fun k hk => .after fun _ => .after fun x => .after fun b => ?_
    have hlen : (Expr.builtin .len [e]).height ≤ n + 1 := by
      simpa [Expr.height, Expr.heights] using he
    refine .ite (fun _ => .pure ?_) fun _ => .pure ?_
    · rintro _ ⟨rfl⟩
      exact ⟨hlen, hk ▸ Nat.succ_pos k⟩
    · rintro _ ⟨rfl⟩
      exact ⟨Nat.succ_le_succ he, hk ▸ Nat.succ_pos k⟩
  · exact .pure fun _ h => absurd h (Option.not_mem_none _)

theorem height_suffixes (room : Nat) {e : Expr} {n : Nat} (he : e.height ≤ n)
    (hn : reach room ≤ n) : Returns (suffixes nested room e) fun e => e.height ≤ n + room := by
  induction room generalizing e n with
  | zero =>
    unfold suffixes
    refine .bind (height_suffix hnested 0 he hn) fun o ho => ?_
    split
    · exact .pure he
    · exact absurd (ho _ rfl).2 (Nat.lt_irrefl 0)
  | succ room ih =>
    unfold suffixes
    refine .bind (height_suffix hnested _ he hn) fun o ho => ?_
    split
    · exact .pure (Nat.le_add_right_of_le he)
    · have hle := monotone_reach (Nat.le_add_right room 1)
      refine (ih (ho _ rfl).1 (by omega)).mono fun e he => ?_
      omega

theorem height_postfixed (room : Nat) :
    Returns (postfixed nested room) fun e => e.height ≤ reach room + 1 + 1 * room := by
  rw [Nat.one_mul]
  exact .bind (height_atom hnested room) fun _ he =>
    height_suffixes hnested room he (Nat.le_succ (reach room))

theorem height_prefixed (room : Nat) :
    Returns (prefixed nested room) fun e => e.height ≤ reach room + 1 + 1 * room := by
  induction room with
  | zero =>
    unfold prefixed
    refine .after fun b => .ite (fun _ => returns_fail _) fun _ => ?_
    refine .after fun c => .ite (fun _ => returns_fail _) fun _ => ?_
    exact .after fun d => .ite (fun _ => returns_fail _) fun _ => height_postfixed hnested 0
  | succ room ih =>
    have hle := monotone_reach (Nat.le_add_right room 1)
    unfold prefixed
    refine .after fun b => .ite (fun _ => .bind ih fun e he => .pure ?_) fun _ => ?_
    · rw [Expr.height]
      omega
    refine .after fun c => .ite (fun _ => .bind ih fun e he => .pure ?_) fun _ => ?_
    · have hnegate := height_negate_le e
      omega
    refine .after fun d => .ite (fun _ => ih.mono fun e he => ?_) fun _ => ?_
    · omega
    · exact height_postfixed hnested _

theorem height_disjunction (room : Nat) :
    Returns (disjunction nested room) fun e => e.height ≤ reach room + 1 + 7 * room := by
  have hmono : Monotone fun room => reach room + 1 := monotone_reach.add_const 1
  have hterm (room : Nat) :
      Returns (term nested room) fun e => e.height ≤ reach room + 1 + 2 * room :=
    returns_chain height_binary_le hmono (height_prefixed hnested) room
  have hsum (room : Nat) :
      Returns (sum nested room) fun e => e.height ≤ reach room + 1 + 3 * room :=
    returns_chain height_binary_le hmono hterm room
  have hrelation (room : Nat) :
      Returns (relation nested room) fun e => e.height ≤ reach room + 1 + 4 * room :=
    returns_chain height_binary_le hmono hsum room
  have hequality (room : Nat) :
      Returns (equality nested room) fun e => e.height ≤ reach room + 1 + 5 * room :=
    returns_chain height_binary_le hmono hrelation room
  have hconjunction (room : Nat) :
      Returns (conjunction nested room) fun e => e.height ≤ reach room + 1 + 6 * room :=
    returns_chain height_logical_le hmono hequality room
  exact returns_chain height_logical_le hmono hconjunction room

end Levels

/-- An expression is seven times as high as the room that is left, for every level of brackets. -/
theorem height_exprAt (depth room : Nat) :
    Returns (exprAt depth room) fun e => e.height ≤ reach room := by
  induction depth generalizing room with
  | zero => exact returns_fail _
  | succ depth ih =>
    refine returns_descend fun k hk => (height_disjunction ih _).mono fun e he => ?_
    subst hk
    rw [reach_succ]
    rw [Nat.add_sub_cancel] at he
    omega

theorem height_expr (room : Nat) : Returns (expr room) fun e => e.height ≤ reach room :=
  height_exprAt _ _

/-! ### Statements -/

theorem height_binding (constant : Bool) (room : Nat) :
    Returns (binding constant room) fun stmt => stmt.height ≤ reach room + 1 := by
  unfold binding
  refine .after fun names => .after fun b => .ite (fun _ => ?_) fun _ => ?_
  · exact .bind (height_expr room) fun value hvalue => .pure (Nat.succ_le_succ hvalue)
  · exact .ite (fun _ => returns_fail _) fun _ => .pure (Nat.le_add_left ..)

theorem height_declaration (constant : Bool) (room : Nat) :
    Returns (declaration constant room) fun stmts => Stmt.heights stmts ≤ reach room + 1 := by
  unfold declaration
  refine .after fun _ => .bind (returns_collect (P := fun stmt => stmt.height ≤ reach room + 1) ?_)
    fun stmts hstmts => .after fun _ => .pure (Stmt.heights_le_iff.2 hstmts)
  refine .bind (height_binding constant room) fun stmt hstmt => .after fun b => ?_
  cases b
  · exact .pure hstmt
  · exact .pure hstmt

theorem height_targetOf_le {e : Expr} {op : Option BinaryOp} {p : Position} {target : Target}
    (h : targetOf e op p = .ok target) : target.height ≤ e.height := by
  unfold targetOf at h
  split at h
  · cases h
    exact Nat.zero_le _
  · cases h
    exact Nat.le_succ _
  · split at h <;> cases h
    exact Nat.zero_le _
  · cases h

theorem height_assignment (room : Nat) :
    Returns (assignment room) fun stmt => stmt.height ≤ reach room + 1 := by
  unfold assignment
  refine .after fun p => .bind (height_expr room) fun first hfirst => .after fun o => ?_
  split
  · refine .bind (height_expr room) fun value hvalue => ?_
    refine .bind (.lift fun target => height_targetOf_le) fun target htarget => .pure ?_
    exact Nat.succ_le_succ (Nat.max_le.2 ⟨htarget.trans hfirst, hvalue⟩)
  · exact .pure (Nat.succ_le_succ hfirst)

theorem height_thrown (room : Nat) :
    Returns (thrown room) fun stmt => stmt.height ≤ reach room + 1 := by
  unfold thrown
  refine .after fun b => .ite (fun _ => .after fun className => .after fun _ => ?_) fun _ => ?_
  · exact .bind (height_expr room) fun message hmessage =>
      .after fun _ => .pure (Nat.succ_le_succ hmessage)
  · exact .bind (height_expr room) fun message hmessage => .pure (Nat.succ_le_succ hmessage)

theorem height_returned (room : Nat) :
    Returns (returned room) fun stmt => stmt.height ≤ reach room + 1 := by
  unfold returned
  refine .after fun k => ?_
  split
  · exact .pure (Nat.le_add_left ..)
  · exact .pure (Nat.le_add_left ..)
  · exact .bind (height_expr room) fun value hvalue => .pure (Nat.succ_le_succ hvalue)

theorem height_condition (room : Nat) :
    Returns (condition room) fun e => e.height ≤ reach room :=
  .after fun _ => .bind (height_expr room) fun _ he => .after fun _ => .pure he

section Blocks

variable {room : Nat} {inner : Surroundings → Parser (List Stmt)}
  (hinner : ∀ around, Returns (inner around) fun stmts =>
    Stmt.heights stmts ≤ reach (room - 1) + 1)
include hinner

/-- Statements between braces lie one level further down. -/
theorem height_braced (around : Surroundings) :
    Returns (braced room inner around) fun stmts => Stmt.heights stmts ≤ reach room := by
  unfold braced
  refine .after fun _ => returns_descend fun k hk => ?_
  refine .bind (returns_collect (P := fun stmts => Stmt.heights stmts ≤ reach (room - 1) + 1) ?_)
    fun body hbody => .after fun _ => .pure ?_
  · refine .after fun k => ?_
    split
    · exact .pure trivial
    · exact returns_failFound _
    · exact .bind (hinner around) fun stmts hstmts => .pure hstmts
  · refine (Stmt.heights_flatten_le hbody).trans ?_
    rw [hk, Nat.add_sub_cancel, reach_succ]
    omega

theorem height_body (around : Surroundings) :
    Returns (body room inner around) fun stmts => Stmt.heights stmts ≤ reach room := by
  unfold body
  refine .after fun b => .ite (fun _ => height_braced hinner around) fun _ => ?_
  refine returns_descend fun k hk => (hinner around).mono fun stmts hstmts => hstmts.trans ?_
  rw [hk, Nat.add_sub_cancel, reach_succ]
  omega

theorem height_function : Returns (function room inner) fun stmt =>
    stmt.height ≤ reach room + 1 := by
  unfold function
  refine .after fun _ => .after fun f => .after fun params => ?_
  exact .bind (height_braced hinner _) fun body hbody => .pure (Nat.succ_le_succ hbody)

theorem height_forEach (around : Surroundings) :
    Returns (forEach room inner around) fun stmt => stmt.height ≤ reach room + 1 := by
  have hrest : Returns (do
      let names ← pattern
      expectWord "of"
      let iterable ← expr room
      expectOp ")"
      return Stmt.forEach names iterable (← body room inner around.loop)) fun stmt =>
        stmt.height ≤ reach room + 1 := by
    refine .after fun names => .after fun _ => .bind (height_expr room) fun iterable hiterable => ?_
    refine .after fun _ => .bind (height_body hinner _) fun body hbody => .pure ?_
    exact Nat.succ_le_succ (Nat.max_le.2 ⟨hiterable, hbody⟩)
  unfold forEach
  refine .after fun _ => .after fun _ => .after fun b => .ite (fun _ => hrest) fun _ => ?_
  exact .after fun c => .ite (fun _ => hrest) fun _ => .after fun _ => hrest

theorem height_whileLoop (around : Surroundings) :
    Returns (whileLoop room inner around) fun stmt => stmt.height ≤ reach room + 1 := by
  unfold whileLoop
  refine .after fun _ => .bind (height_condition room) fun condition hcondition => ?_
  refine .bind (height_body hinner _) fun body hbody => .pure ?_
  exact Nat.succ_le_succ (Nat.max_le.2 ⟨hcondition, hbody⟩)

theorem height_guarded (around : Surroundings) :
    Returns (guarded room inner around) (GuardedBelow (reach room + 1)) := by
  unfold guarded
  refine .after fun _ => .bind (height_condition room) fun condition hcondition => ?_
  refine .bind (height_body hinner around) fun body hbody => .pure ?_
  exact ⟨Nat.lt_succ_of_le hcondition, Nat.lt_succ_of_le hbody⟩

theorem height_conditional (around : Surroundings) :
    Returns (conditional room inner around) fun stmt => stmt.height ≤ reach room + 1 := by
  unfold conditional
  refine .bind (returns_collect (P := GuardedBelow (reach room + 1)) ?_) fun arms harms => ?_
  · refine .bind (height_guarded hinner around) fun arm harm => .after fun b =>
      .after fun second => ?_
    exact .ite (fun _ => .after fun _ => .pure harm) fun _ => .pure harm
  have hpos : 0 < reach room + 1 := Nat.succ_pos _
  refine .after fun b => .ite (fun _ => ?_) fun _ => .pure ?_
  · simp only [map_eq_pure_bind, bind_assoc, pure_bind]
    refine .bind (height_body hinner around) fun last hlast => .pure ?_
    refine Arms.height_ofList_lt hpos harms ?_
    rintro _ ⟨rfl⟩
    exact Nat.lt_succ_of_le hlast
  · exact Arms.height_ofList_lt hpos harms fun _ h => absurd h (Option.not_mem_none _)

theorem height_statement (around : Surroundings) :
    Returns (statement room inner around) fun stmts => Stmt.heights stmts ≤ reach room + 1 := by
  have hsingle {stmt : Stmt} (h : stmt.height ≤ reach room + 1) :
      Stmt.heights [stmt] ≤ reach room + 1 := by
    rwa [Stmt.heights_singleton]
  unfold statement
  refine .after fun k => ?_
  split
  · exact .after fun _ => .pure (Nat.zero_le _)
  · exact (height_braced hinner around).mono fun _ => Nat.le_succ_of_le
  · exact .bind (height_function hinner) fun _ h => .pure (hsingle h)
  · exact height_declaration false room
  · exact height_declaration true room
  · exact height_declaration false room
  · exact .bind (height_forEach hinner around) fun _ h => .pure (hsingle h)
  · exact .bind (height_whileLoop hinner around) fun _ h => .pure (hsingle h)
  · exact .bind (height_conditional hinner around) fun _ h => .pure (hsingle h)
  · refine .ite (fun _ => .after fun _ => ?_) fun _ => returns_fail _
    exact .bind (height_returned room) fun _ h => .after fun _ => .pure (hsingle h)
  · refine .ite (fun _ => .after fun _ => .after fun _ => .pure ?_) fun _ => returns_fail _
    exact hsingle (Nat.le_add_left ..)
  · refine .ite (fun _ => .after fun _ => .after fun _ => .pure ?_) fun _ => returns_fail _
    exact hsingle (Nat.le_add_left ..)
  · exact .after fun _ => .bind (height_thrown room) fun _ h => .after fun _ => .pure (hsingle h)
  · exact returns_fail _
  · exact .bind (height_assignment room) fun _ h => .after fun _ => .pure (hsingle h)

end Blocks

theorem height_statementAt (room : Nat) (around : Surroundings) :
    Returns (statementAt room around) fun stmts => Stmt.heights stmts ≤ reach room + 1 := by
  induction room generalizing around with
  | zero => exact height_statement (fun _ => returns_fail _) around
  | succ room ih => exact height_statement ih around

/-- How high a program is. -/
theorem heights_of_parse {source : String} {body : List Stmt} (h : parse source = .ok body) :
    Stmt.heights body ≤ reach maxNesting + 1 := by
  refine run_returns (P := fun body => Stmt.heights body ≤ reach maxNesting + 1) ?_ h
  unfold program
  refine .bind (returns_collect (P := fun stmts => Stmt.heights stmts ≤ reach maxNesting + 1) ?_)
    fun xss hxss => .pure (Stmt.heights_flatten_le hxss)
  refine .after fun b => .ite (fun _ => .pure trivial) fun _ => ?_
  exact .bind (height_statementAt _ _) fun stmts hstmts => .pure hstmts

end Labyrinth.Braced
