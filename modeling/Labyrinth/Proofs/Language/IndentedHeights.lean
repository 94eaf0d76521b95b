import Labyrinth.Language.Indented.Grammar
import Labyrinth.Proofs.Language.Heights

/-!
# Heights in the indented dialect

An expression of the indented dialect may have five chains below each other before a bracket is
opened: of disjunctions, conjunctions, sums, products and suffixes. Each of them can use all the
room that there is, and what stands in the bracket has hardly less room. With every level of
brackets the height grows by five times the room that is left, which makes a square in the end.

## Main results

* `height_exprAt`: how high an expression is that has been read with so much room.
* `heights_of_parse`: how high a program is.
-/

namespace Labyrinth.Indented

open Labyrinth.Parser

/-- How high trees are for which there is so much room. -/
def reach (room : Nat) : Nat := 5 * (room * (room + 1)) / 2

theorem reach_succ (room : Nat) : reach (room + 1) = reach room + 5 * (room + 1) := by
  have hsum : 5 * ((room + 1) * (room + 1 + 1)) =
      5 * (room * (room + 1)) + 2 * (5 * (room + 1)) := by
    ring
  rw [reach, reach, hsum]
  omega

theorem monotone_reach : Monotone reach :=
  monotone_nat_of_le_succ fun room => reach_succ room ▸ Nat.le_add_right ..

/-! ### Calls -/

theorem heights_methodFor_le (name : String) (args : List Expr) :
    Expr.heights (methodFor name args).2 ≤ Expr.heights args := by
  unfold methodFor
  split <;> try split
  all_goals simp [Expr.heights]

theorem height_namedCall_le (name : String) (args : List Expr) :
    (namedCall name args).height ≤ Expr.heights args + 1 := by
  unfold namedCall
  split <;> simp [Expr.heights, Expr.height]

theorem height_call_le {callee e : Expr} {args : List Expr} {p : Position} {n : Nat}
    (hcallee : callee.height ≤ n) (hargs : Expr.heights args ≤ n)
    (h : call callee args p = .ok e) : e.height ≤ n + 1 := by
  unfold call at h
  split at h
  · split at h
    · obtain ⟨-, -, h⟩ := bind_eq_ok_iff.1 h
      cases h
      exact Nat.succ_le_succ hargs
    · split at h
      · cases h
        exact Nat.succ_le_succ hargs
      · cases h
        exact (height_namedCall_le ..).trans (Nat.succ_le_succ hargs)
  · rename_i object name
    obtain rfl : Expr.method object (methodFor name args).1 (methodFor name args).2 = e :=
      Except.ok.inj h
    have hle := heights_methodFor_le name args
    simp only [Expr.height] at hcallee ⊢
    omega
  · cases h

/-! ### Expressions -/

section Levels

variable {nested : Nat → Parser Expr}
  (hnested : ∀ room, Returns (nested room) fun e => e.height + 2 ≤ reach room)
include hnested

theorem height_entries (room : Nat) :
    Returns (entries nested room) fun es => ∀ e ∈ es, e.height + 1 ≤ reach room := by
  refine returns_collect (.after fun b => .ite (fun _ => ?_) fun _ => .pure trivial)
  refine .after fun c => .ite (fun _ => .pure trivial) fun _ => ?_
  refine .bind (hnested room) fun key hkey => .after fun _ => ?_
  refine .bind (hnested room) fun value hvalue => .pure ?_
  simp only [Next.Forall, Expr.height, Expr.heights]
  omega

theorem height_braces (room : Nat) :
    Returns (braces nested room) fun e => e.height ≤ reach room + 1 := by
  unfold braces
  refine .after fun b => .ite (fun _ => .pure (Nat.le_add_left ..)) fun _ => ?_
  refine .bind (hnested room) fun first hfirst => .after fun c => .ite (fun _ => ?_) fun _ => ?_
  · refine .bind (hnested room) fun value hvalue => .bind (height_entries hnested room) ?_
    intro rest hrest
    have hrest := Expr.heights_add_le (by omega) hrest
    refine .after fun _ => .pure ?_
    simp only [Expr.height, Expr.heights]
    omega
  · refine .after fun d => .ite (fun _ => ?_) fun _ => .after fun _ => .pure ?_
    · refine .bind (returns_separated _ (hnested room)) fun rest hrest => .pure ?_
      have hrest := Expr.heights_add_le (by omega) hrest
      simp only [Expr.height, Expr.heights]
      omega
    · simp only [Expr.height, Expr.heights]
      omega

theorem height_parentheses (room : Nat) :
    Returns (parentheses nested room) fun e => e.height ≤ reach room + 1 := by
  unfold parentheses
  refine .after fun b => .ite (fun _ => .pure (Nat.le_add_left ..)) fun _ => ?_
  refine .bind (hnested room) fun first hfirst => .after fun c =>
    .ite (fun _ => .pure ?_) fun _ => ?_
  · omega
  have hitem : Returns (do
      if ← eat (.op ",") then
        if ← check (.op ")") then return .stop else return .more (← nested room)
      else return .stop) (Next.Forall fun e => e.height + 2 ≤ reach room) := by
    refine .after fun d => .ite (fun _ => ?_) fun _ => .pure trivial
    refine .after fun e => .ite (fun _ => .pure trivial) fun _ => ?_
    exact .bind (hnested room) fun item hitem => .pure hitem
  refine .bind (returns_collect hitem) fun rest hrest => .after fun _ => .pure ?_
  have hrest := Expr.heights_add_le (by omega) hrest
  simp only [Expr.height, Expr.heights]
  omega

omit hnested in
theorem height_word (text : String) : Returns (word text) fun e => e.height = 1 := by
  unfold word
  split
  · exact .after fun _ => .pure rfl
  · exact .after fun _ => .pure rfl
  · exact .after fun _ => .pure rfl
  · exact .ite (fun _ => returns_fail _) fun _ => .after fun _ => .pure rfl

theorem height_bracketed (opening : String) (room : Nat) :
    Returns (bracketed nested opening room) fun e => e.height ≤ reach room + 1 := by
  unfold bracketed
  split
  · exact .after fun _ => height_parentheses hnested room
  · refine .after fun _ => .bind (returns_separated _ (hnested room)) fun items hitems => .pure ?_
    have hitems : Expr.heights items ≤ reach room :=
      Expr.heights_le_iff.2 fun e he => Nat.le_of_add_right_le (hitems e he)
    exact Nat.succ_le_succ hitems
  · exact .after fun _ => height_braces hnested room
  · exact returns_failFound _

/-- What stands in brackets may be almost as high as an expression with the same room. -/
theorem height_atom (room : Nat) : Returns (atom nested room) fun e =>
    e.height ≤ reach room + 1 := by
  unfold atom
  refine .after fun k => ?_
  split
  · exact .after fun _ => .pure (Nat.le_add_left ..)
  · exact .after fun _ => .pure (Nat.le_add_left ..)
  · exact (height_word _).mono fun e he => he ▸ Nat.le_add_left ..
  · exact height_bracketed hnested _ room
  · exact returns_failFound _

theorem height_suffix (room : Nat) {e : Expr} {n : Nat} (he : e.height ≤ n) (hn : reach room ≤ n) :
    Returns (suffix nested room e) fun o => ∀ x ∈ o, x.height ≤ n + 1 ∧ 0 < room := by
  have hnested (k : Nat) (hk : room = k + 1) :
      Returns (nested (room - 1)) fun e => e.height ≤ n := by
    refine (hnested _).mono fun e he => ?_
    have hle := monotone_reach (Nat.sub_le room 1)
    omega
  unfold suffix
  refine .after fun k => ?_
  split
  · refine returns_descend fun k hk => .after fun p => .after fun _ => ?_
    refine .bind (returns_separated _ (hnested k hk)) fun args hargs => ?_
    refine .bind (.lift fun x hx => height_call_le he (Expr.heights_le_iff.2 hargs) hx) ?_
    rintro x hx
    refine .pure ?_
    rintro _ ⟨rfl⟩
    exact ⟨hx, hk ▸ Nat.succ_pos k⟩
  · refine returns_descend fun k hk => .after fun _ => .bind (hnested k hk) fun i hi => ?_
    refine .after fun _ => .pure ?_
    rintro _ ⟨rfl⟩
    exact ⟨Nat.succ_le_succ (Nat.max_le.2 ⟨he, hi⟩), hk ▸ Nat.succ_pos k⟩
  · refine returns_descend fun k hk => .after fun _ => .after fun x => .pure ?_
    rintro _ ⟨rfl⟩
    exact ⟨Nat.succ_le_succ he, hk ▸ Nat.succ_pos k⟩
  · exact .pure fun _ h => absurd h (Option.not_mem_none _)

theorem height_suffixes (room : Nat) {e : Expr} {n : Nat} (he : e.height ≤ n)
    (hn : reach room ≤ n) : Returns (suffixes nested room e) fun e => e.height ≤ n + room := by
  induction room generalizing e n with
  | zero =>
    unfold suffixes
    refine .bind (height_suffix hnested 0 he hn) fun o ho => ?_
    split
    · exact .pure he
    · exact absurd (ho _ rfl).2 (Nat.lt_irrefl 0)
  | succ room ih =>
    unfold suffixes
    refine .bind (height_suffix hnested _ he hn) fun o ho => ?_
    split
    · exact .pure (Nat.le_add_right_of_le he)
    · have hle := monotone_reach (Nat.le_add_right room 1)
      refine (ih (ho _ rfl).1 (by omega)).mono fun e he => ?_
      omega

theorem height_postfixed (room : Nat) :
    Returns (postfixed nested room) fun e => e.height ≤ reach room + 1 + 1 * room := by
  rw [Nat.one_mul]
  exact .bind (height_atom hnested room) fun _ he =>
    height_suffixes hnested room he (Nat.le_succ (reach room))

theorem height_signed (room : Nat) :
    Returns (signed nested room) fun e => e.height ≤ reach room + 1 + 1 * room := by
  induction room with
  | zero =>
    unfold signed
    refine .after fun b => .ite (fun _ => returns_fail _) fun _ => ?_
    exact .after fun c => .ite (fun _ => returns_fail _) fun _ => height_postfixed hnested 0
  | succ room ih =>
    have hle := monotone_reach (Nat.le_add_right room 1)
    unfold signed
    refine .after fun b => .ite (fun _ => .bind ih fun e he => .pure ?_) fun _ => ?_
    · have hnegate := height_negate_le e
      omega
    · refine .after fun c => .ite (fun _ => ih.mono fun e he => ?_) fun _ => ?_
      · omega
      · exact height_postfixed hnested _

theorem height_sum (room : Nat) :
    Returns (sum nested room) fun e => e.height ≤ reach room + 1 + 3 * room := by
  have hmono : Monotone fun room => reach room + 1 := monotone_reach.add_const 1
  have hterm (room : Nat) :
      Returns (term nested room) fun e => e.height ≤ reach room + 1 + 2 * room :=
    returns_chain height_binary_le hmono (height_signed hnested) room
  exact returns_chain height_binary_le hmono hterm room

end Levels

/-- A comparison adds two nodes at most. -/
theorem height_comparator :
    Returns comparator fun o => ∀ combine ∈ o, ∀ lhs rhs : Expr,
      (combine lhs rhs).height ≤ max lhs.height rhs.height + 2 := by
  have hbinary (op : BinaryOp) : ∀ combine ∈ some (Expr.binary op), ∀ lhs rhs : Expr,
      (combine lhs rhs).height ≤ max lhs.height rhs.height + 2 := by
    rintro _ ⟨rfl⟩ lhs rhs
    exact Nat.le_succ_of_le (height_binary_le op lhs rhs)
  have hmember (lhs rhs : Expr) : (membership lhs rhs).height ≤ max lhs.height rhs.height + 1 := by
    simp only [membership, Expr.height, Expr.heights]
    omega
  unfold comparator
  refine .after fun k => ?_
  split
  iterate 6 exact .after fun _ => .pure (hbinary _)
  · refine .after fun _ => .pure ?_
    rintro _ ⟨rfl⟩ lhs rhs
    exact Nat.le_succ_of_le (hmember lhs rhs)
  · refine .after fun second => .ite (fun _ => .after fun _ => .after fun _ => .pure ?_) fun _ => ?_
    · rintro _ ⟨rfl⟩ lhs rhs
      exact Nat.succ_le_succ (hmember lhs rhs)
    · exact .pure fun _ h => absurd h (Option.not_mem_none _)
  · exact .after fun _ => .after fun b => .pure (hbinary _)
  · exact .pure fun _ h => absurd h (Option.not_mem_none _)

section Levels

variable {nested : Nat → Parser Expr}
  (hnested : ∀ room, Returns (nested room) fun e => e.height + 2 ≤ reach room)
include hnested

theorem height_comparison (room : Nat) :
    Returns (comparison nested room) fun e => e.height ≤ reach room + 3 + 3 * room := by
  unfold comparison
  refine .bind (height_sum hnested room) fun lhs hl => .bind height_comparator fun o ho => ?_
  split
  · exact .pure (by omega)
  · rename_i combine
    refine .bind (height_sum hnested room) fun rhs hr => .after fun o' => ?_
    split
    · have hle := ho combine rfl lhs rhs
      exact .pure (by omega)
    · exact returns_fail _

theorem height_negation (room : Nat) :
    Returns (negation nested room) fun e => e.height ≤ reach room + 3 + 3 * room := by
  induction room with
  | zero =>
    unfold negation
    exact .after fun b => .ite (fun _ => returns_fail _) fun _ => height_comparison hnested 0
  | succ room ih =>
    have hle := monotone_reach (Nat.le_add_right room 1)
    unfold negation
    refine .after fun b => .ite (fun _ => ?_) fun _ => height_comparison hnested _
    refine .bind ih fun e he => .pure ?_
    rw [Expr.height]
    omega

theorem height_disjunction (room : Nat) :
    Returns (disjunction nested room) fun e => e.height ≤ reach room + 3 + 5 * room := by
  have hmono : Monotone fun room => reach room + 3 := monotone_reach.add_const 3
  have hconjunction (room : Nat) :
      Returns (conjunction nested room) fun e => e.height ≤ reach room + 3 + 4 * room :=
    returns_chain height_logical_le hmono (height_negation hnested) room
  exact returns_chain height_logical_le hmono hconjunction room

end Levels

/-- An expression is five times as high as the room that is left, for every level of brackets. -/
theorem height_exprAt (depth room : Nat) :
    Returns (exprAt depth room) fun e => e.height + 2 ≤ reach room := by
  induction depth generalizing room with
  | zero => exact returns_fail _
  | succ depth ih =>
    refine returns_descend fun k hk => (height_disjunction ih _).mono fun e he => ?_
    subst hk
    rw [reach_succ]
    rw [Nat.add_sub_cancel] at he
    omega

theorem height_expr (room : Nat) : Returns (expr room) fun e => e.height + 2 ≤ reach room :=
  height_exprAt _ _

theorem height_exprList (room : Nat) : Returns (exprList room) fun e =>
    e.height + 1 ≤ reach room := by
  unfold exprList
  refine .bind (height_expr room) fun first hfirst => .after fun b => .ite (fun _ => ?_) fun _ => ?_
  · refine .bind (returns_collect (P := fun e => e.height + 2 ≤ reach room) ?_) fun rest hrest => ?_
    · refine .after fun c => .ite (fun _ => .after fun k => ?_) fun _ => .pure trivial
      split
      · exact .pure trivial
      · exact .pure trivial
      · exact .bind (height_expr room) fun e he => .pure he
    · have hrest := Expr.heights_add_le (by omega) hrest
      refine .pure ?_
      simp only [Expr.height, Expr.heights]
      omega
  · exact .pure (Nat.le_of_succ_le hfirst)

/-! ### Statements -/

theorem height_assignment (room : Nat) :
    Returns (assignment room) fun stmt => stmt.height ≤ reach room := by
  unfold assignment
  refine .after fun p => .bind (height_expr room) fun first hfirst => .after fun b => ?_
  refine .ite (fun _ => ?_) fun _ => .after fun c => .ite (fun _ => ?_) fun _ => .after fun o => ?_
  · split
    · refine .after fun names => .after fun _ => .bind (height_exprList room) fun value hvalue => ?_
      exact .pure hvalue
    · exact returns_fail _
  · refine .bind (height_exprList room) fun value hvalue => ?_
    split
    · exact .pure hvalue
    · refine .pure ?_
      simp only [Stmt.height, Target.height, Expr.height] at hfirst ⊢
      omega
    · exact returns_failAt _ _
  · split
    · refine .bind (height_expr room) fun value hvalue => ?_
      split
      · refine .pure ?_
        simp only [Stmt.height, Target.height]
        omega
      · refine .pure ?_
        simp only [Stmt.height, Target.height, Expr.height] at hfirst ⊢
        omega
      · exact returns_failAt _ _
    · exact .pure (Nat.le_of_succ_le hfirst)

/-- How high statements are for which there is so much room. Some statements need no room at all. -/
def stmtReach (room : Nat) : Nat := max 1 (reach room)

theorem height_simple (room : Nat) (around : Surroundings) :
    Returns (simple room around) fun o => ∀ stmt ∈ o, stmt.height ≤ stmtReach room := by
  have hsome (stmt : Stmt) (hstmt : stmt.height ≤ stmtReach room) :
      ∀ x ∈ some stmt, x.height ≤ stmtReach room := by
    rintro _ ⟨rfl⟩
    exact hstmt
  have hone : 1 ≤ stmtReach room := Nat.le_max_left ..
  have hreach : reach room ≤ stmtReach room := Nat.le_max_right ..
  unfold simple
  refine .after fun k => ?_
  split
  · exact .after fun _ => .pure fun _ h => absurd h (Option.not_mem_none _)
  · exact .ite (fun _ => .after fun _ => .pure (hsome _ hone)) fun _ => returns_fail _
  · exact .ite (fun _ => .after fun _ => .pure (hsome _ hone)) fun _ => returns_fail _
  · refine .ite (fun _ => .after fun _ => .after fun k' => ?_) fun _ => returns_fail _
    split
    · exact .pure (hsome _ hone)
    · exact .pure (hsome _ hone)
    · exact .pure (hsome _ hone)
    · refine .bind (height_exprList room) fun value hvalue => .pure (hsome _ ?_)
      exact hvalue.trans hreach
  · refine .after fun _ => .after fun className => .after fun _ => ?_
    refine .bind (height_expr room) fun message hmessage => .after fun _ => .pure (hsome _ ?_)
    rw [Stmt.height]
    omega
  · refine .bind (height_assignment room) fun stmt hstmt => .pure (hsome _ ?_)
    exact hstmt.trans hreach

theorem height_simpleLine (room : Nat) (around : Surroundings) :
    Returns (simpleLine room around) fun stmts => Stmt.heights stmts ≤ stmtReach room := by
  unfold simpleLine
  refine .bind (height_simple room around) fun o ho => .after fun k => ?_
  have hle : Stmt.heights o.toList ≤ stmtReach room :=
    Stmt.heights_le_iff.2 fun stmt hstmt => ho stmt (Option.mem_toList.1 hstmt)
  split
  · exact .after fun _ => .pure hle
  · exact .pure hle
  · exact .pure hle
  · exact returns_failFound _

theorem height_comments : Returns comments fun stmts => ∀ stmt ∈ stmts, stmt.height = 1 := by
  refine returns_collect (.after fun k => ?_)
  split
  · exact .after fun _ => .pure rfl
  · exact .pure trivial

section Blocks

variable {room : Nat} {inner : Surroundings → Parser (List Stmt)}
  (hinner : ∀ around, Returns (inner around) fun stmts => Stmt.heights stmts ≤ stmtReach (room - 1))
include hinner

theorem height_suite (around : Surroundings) :
    Returns (suite room inner around) fun stmts => Stmt.heights stmts ≤ stmtReach (room - 1) := by
  unfold suite
  refine .after fun k => .ite (fun _ => .after fun _ => ?_) fun _ => height_simpleLine _ _
  refine .bind height_comments fun leading hleading => .after fun b =>
    .ite (fun _ => ?_) fun _ => ?_
  · refine .bind (returns_collect (P := fun stmts => Stmt.heights stmts ≤ stmtReach (room - 1))
      (.after fun k => ?_)) fun body hbody => .after fun _ => .pure ?_
    · split
      · exact .pure trivial
      · exact .pure trivial
      · exact .bind (hinner around) fun stmts hstmts => .pure hstmts
    · refine Stmt.heights_append_le ?_ (Stmt.heights_flatten_le hbody)
      exact Stmt.heights_le_iff.2 fun stmt hstmt =>
        (hleading stmt hstmt).trans_le (Nat.le_max_left ..)
  · exact returns_fail _

/-- A block lies one level further down, so its statements leave room for one more node. -/
theorem height_block (around : Surroundings) :
    Returns (block room inner around) fun stmts => Stmt.heights stmts + 1 ≤ reach room := by
  unfold block
  refine .after fun _ => returns_descend fun k hk => (height_suite hinner around).mono ?_
  intro stmts hstmts
  subst hk
  rw [stmtReach, Nat.add_sub_cancel] at hstmts
  rw [reach_succ]
  omega

theorem height_function : Returns (function room inner) fun stmt => stmt.height ≤ reach room := by
  unfold function
  refine .after fun _ => .after fun f => .after fun params => ?_
  exact .bind (height_block hinner _) fun body hbody => .pure hbody

theorem height_forEach (around : Surroundings) :
    Returns (forEach room inner around) fun stmt => stmt.height ≤ reach room := by
  unfold forEach
  refine .after fun _ => .after fun pattern => .after fun _ => ?_
  refine .bind (height_expr room) fun iterable hiterable => ?_
  refine .bind (height_block hinner _) fun body hbody => .pure ?_
  rw [Stmt.height]
  omega

theorem height_whileLoop (around : Surroundings) :
    Returns (whileLoop room inner around) fun stmt => stmt.height ≤ reach room := by
  unfold whileLoop
  refine .after fun _ => .bind (height_expr room) fun condition hcondition => ?_
  refine .bind (height_block hinner _) fun body hbody => .pure ?_
  rw [Stmt.height]
  omega

theorem height_guarded (around : Surroundings) :
    Returns (guarded room inner around) (GuardedBelow (reach room)) := by
  unfold guarded
  refine .bind (height_expr room) fun condition hcondition => ?_
  refine .bind (height_block hinner around) fun body hbody => .pure ⟨?_, hbody⟩
  exact Nat.lt_of_succ_lt hcondition

theorem height_conditional (around : Surroundings) :
    Returns (conditional room inner around) fun stmt => stmt.height ≤ reach room := by
  unfold conditional
  refine .after fun _ => .bind (height_guarded hinner around) fun first hfirst => ?_
  refine .bind (returns_collect (P := GuardedBelow (reach room)) ?_) fun further hfurther => ?_
  · refine .after fun b => .ite (fun _ => ?_) fun _ => .pure trivial
    exact .bind (height_guarded hinner around) fun arm harm => .pure harm
  have hpos : 0 < reach room := Nat.zero_lt_of_lt hfirst.1
  have harms := List.forall_mem_cons.2 ⟨hfirst, hfurther⟩
  refine .after fun b => .ite (fun _ => ?_) fun _ => .pure ?_
  · simp only [map_eq_pure_bind, bind_assoc, pure_bind]
    refine .bind (height_block hinner around) fun last hlast => .pure ?_
    refine Arms.height_ofList_lt hpos harms ?_
    rintro _ ⟨rfl⟩
    exact hlast
  · exact Arms.height_ofList_lt hpos harms fun _ h => absurd h (Option.not_mem_none _)

theorem height_statement (around : Surroundings) :
    Returns (statement room inner around) fun stmts => Stmt.heights stmts ≤ stmtReach room := by
  have hone : 1 ≤ stmtReach room := Nat.le_max_left ..
  have hsingle {p : Parser Stmt} (hp : Returns p fun stmt => stmt.height ≤ reach room) :
      Returns (do return [← p]) fun stmts => Stmt.heights stmts ≤ stmtReach room := by
    refine .bind hp fun stmt hstmt => .pure ?_
    rw [Stmt.heights_singleton]
    exact hstmt.trans (Nat.le_max_right ..)
  unfold statement
  refine .after fun k => ?_
  split
  · refine .after fun _ => .pure ?_
    rwa [Stmt.heights_singleton]
  · exact .after fun _ => .pure (Nat.zero_le _)
  · exact returns_fail _
  · exact hsingle (height_function hinner)
  · exact hsingle (height_forEach hinner around)
  · exact hsingle (height_whileLoop hinner around)
  · exact hsingle (height_conditional hinner around)
  · exact returns_fail _
  · exact returns_fail _
  · exact height_simpleLine room around

end Blocks

theorem height_statementAt (room : Nat) (around : Surroundings) :
    Returns (statementAt room around) fun stmts => Stmt.heights stmts ≤ stmtReach room := by
  induction room generalizing around with
  | zero => exact height_statement (fun _ => returns_fail _) around
  | succ room ih => exact height_statement ih around

/-- How high a program is. -/
theorem heights_of_parse {source : String} {body : List Stmt} (h : parse source = .ok body) :
    Stmt.heights body ≤ reach maxNesting := by
  refine run_returns (P := fun body => Stmt.heights body ≤ stmtReach maxNesting) ?_ h
  unfold program
  refine .bind (returns_collect (P := fun stmts => Stmt.heights stmts ≤ stmtReach maxNesting) ?_)
    fun xss hxss => .pure (Stmt.heights_flatten_le hxss)
  refine .after fun b => .ite (fun _ => .pure trivial) fun _ => ?_
  exact .bind (height_statementAt _ _) fun stmts hstmts => .pure hstmts

end Labyrinth.Indented
