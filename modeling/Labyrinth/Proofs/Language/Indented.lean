import Labyrinth.Language.Indented.Grammar
import Labyrinth.Proofs.Language.Stream

/-!
# Trees of the indented dialect

Every tree that is read from a source in the indented dialect is well-formed, and its functions
have different names. There is a lemma for every rule of the grammar, in the order of the rules.

## Main results

* `wellFormed_of_parse`: the guarantees of the grammar.
-/

namespace Labyrinth.Indented

open Labyrinth.Parser

/-! ### Calls -/

theorem wellFormed_methodFor {receiver : Expr} {name : String} {args : List Expr}
    (hr : receiver.WellFormed) (hname : IsName name) (hargs : ∀ e ∈ args, e.WellFormed) :
    (Expr.method receiver (methodFor name args).1 (methodFor name args).2).WellFormed := by
  have hall := Expr.allWellFormed_iff.2 hargs
  unfold methodFor
  split <;> try split
  all_goals refine ⟨?_, hr, ?_⟩
  all_goals first | exact hall | simp_all [Expr.AllWellFormed]

theorem wellFormed_namedCall {name : String} {args : List Expr} (hname : IsName name)
    (hrange : name ≠ "range") (hargs : ∀ e ∈ args, e.WellFormed) :
    (namedCall name args).WellFormed := by
  unfold namedCall
  split
  · trivial
  · rename_i source
    exact hargs source List.mem_cons_self
  · trivial
  · rename_i source
    exact ⟨fun _ h => (nomatch h), hargs source List.mem_cons_self, trivial⟩
  · exact ⟨hname, hrange, Expr.allWellFormed_iff.2 hargs⟩

theorem wellFormed_call {callee e : Expr} {args : List Expr} {p : Position}
    (hcallee : callee.WellFormed) (hargs : ∀ e ∈ args, e.WellFormed)
    (h : call callee args p = .ok e) : e.WellFormed := by
  have hall := Expr.allWellFormed_iff.2 hargs
  unfold call at h
  split at h
  · split at h
    · obtain ⟨_, harity, h⟩ := bind_eq_ok_iff.1 h
      cases h
      exact ⟨length_of_checkArity harity, hall⟩
    · split at h
      · cases h
        exact hall
      · rename_i hbuiltin
        cases h
        refine wellFormed_namedCall hcallee ?_ hargs
        rintro rfl
        cases hbuiltin
  · cases h
    exact wellFormed_methodFor hcallee.2 hcallee.1 hargs
  · cases h

/-! ### Expressions -/

section Levels

variable {nested : Nat → Parser Expr} (hnested : ∀ room, Keeps (nested room) Expr.WellFormed)
include hnested

theorem keeps_entries (room : Nat) :
    Keeps (entries nested room) fun es => ∀ e ∈ es, e.WellFormed := by
  refine keeps_collect Expr.WellFormed (.bind (keeps_eat _) fun b _ => ?_)
  refine .ite (fun _ => ?_) fun _ => .pure trivial
  refine .bind (keeps_check _) fun c _ => .ite (fun _ => .pure trivial) fun _ => ?_
  refine .bind (hnested _) fun key hkey => .bind (keeps_expectOp _) fun _ _ => ?_
  exact .bind (hnested _) fun value hvalue => .pure ⟨hkey, hvalue, trivial⟩

theorem keeps_braces (room : Nat) : Keeps (braces nested room) Expr.WellFormed := by
  unfold braces
  refine .bind (keeps_eat _) fun b _ => .ite (fun _ => .pure trivial) fun _ => ?_
  refine .bind (hnested _) fun first hfirst => .bind (keeps_eat _) fun c _ => ?_
  refine .ite (fun _ => ?_) fun _ => ?_
  · refine .bind (hnested _) fun value hvalue =>
      .bind (keeps_entries hnested _) fun rest hrest => ?_
    refine .bind (keeps_expectOp _) fun _ _ => .pure ?_
    exact ⟨⟨hfirst, hvalue, trivial⟩, Expr.allWellFormed_iff.2 hrest⟩
  · refine .bind (keeps_eat _) fun d _ => .ite (fun _ => ?_) fun _ => ?_
    · refine .bind (keeps_separated _ (hnested _)) fun rest hrest => .pure ?_
      exact ⟨hfirst, Expr.allWellFormed_iff.2 hrest⟩
    · exact .bind (keeps_expectOp _) fun _ _ => .pure ⟨hfirst, trivial⟩

theorem keeps_parentheses (room : Nat) : Keeps (parentheses nested room) Expr.WellFormed := by
  unfold parentheses
  refine .bind (keeps_eat _) fun b _ => .ite (fun _ => .pure trivial) fun _ => ?_
  refine .bind (hnested _) fun first hfirst => .bind (keeps_eat _) fun c _ => ?_
  refine .ite (fun _ => .pure hfirst) fun _ => ?_
  refine .bind (keeps_collect Expr.WellFormed ?_) fun rest hrest => ?_
  · refine .bind (keeps_eat _) fun d _ => .ite (fun _ => ?_) fun _ => .pure trivial
    refine .bind (keeps_check _) fun e _ => .ite (fun _ => .pure trivial) fun _ => ?_
    exact .bind (hnested _) fun item hitem => .pure hitem
  · refine .bind (keeps_expectOp _) fun _ _ => .pure ?_
    exact ⟨hfirst, Expr.allWellFormed_iff.2 hrest⟩

omit hnested in
theorem keeps_word {text : String} (htext : IsName text) : Keeps (word text) Expr.WellFormed := by
  unfold word
  split
  · exact .bind keeps_advance fun _ _ => .pure fun h => nomatch h
  · exact .bind keeps_advance fun _ _ => .pure fun h => nomatch h
  · exact .bind keeps_advance fun _ _ => .pure fun h => nomatch h
  · refine .ite (fun _ => keeps_fail _) fun _ => ?_
    exact .bind keeps_advance fun _ _ => .pure htext

theorem keeps_bracketed (opening : String) (room : Nat) :
    Keeps (bracketed nested opening room) Expr.WellFormed := by
  unfold bracketed
  split
  · exact .bind keeps_advance fun _ _ => keeps_parentheses hnested _
  · refine .bind keeps_advance fun _ _ => .bind (keeps_separated _ (hnested _)) fun es hes => ?_
    exact .pure (Expr.allWellFormed_iff.2 hes)
  · exact .bind keeps_advance fun _ _ => keeps_braces hnested _
  · exact keeps_failFound _

theorem keeps_atom (room : Nat) : Keeps (atom nested room) Expr.WellFormed := by
  unfold atom
  refine .bind keeps_peek fun k hk => ?_
  split
  · exact .bind keeps_advance fun _ _ => .pure fun h => hk (Literal.int.inj h)
  · exact .bind keeps_advance fun _ _ => .pure fun h => nomatch h
  · exact keeps_word hk
  · exact keeps_bracketed hnested _ _
  · exact keeps_failFound _

theorem keeps_suffix (room : Nat) {e : Expr} (he : e.WellFormed) :
    Keeps (suffix nested room e) fun o => ∀ x, o = some x → x.WellFormed := by
  unfold suffix
  refine .bind keeps_peek fun k _ => ?_
  split
  · refine .bind (keeps_descend _) fun _ _ => .bind keeps_position fun p _ => ?_
    refine .bind keeps_advance fun _ _ => .bind (keeps_separated _ (hnested _)) fun args hargs => ?_
    refine .bind (.lift fun x hx => wellFormed_call he hargs hx) fun x hx => .pure ?_
    rintro _ ⟨rfl⟩
    exact hx
  · refine .bind (keeps_descend _) fun _ _ => .bind keeps_advance fun _ _ => ?_
    refine .bind (hnested _) fun i hi => .bind (keeps_expectOp _) fun _ _ => .pure ?_
    rintro _ ⟨rfl⟩
    exact ⟨he, hi⟩
  · refine .bind (keeps_descend _) fun _ _ => .bind keeps_advance fun _ _ => ?_
    refine .bind (keeps_identifier _) fun x hx => .pure ?_
    rintro _ ⟨rfl⟩
    exact ⟨hx, he⟩
  · exact .pure fun _ h => nomatch h

theorem keeps_suffixes (room : Nat) {e : Expr} (he : e.WellFormed) :
    Keeps (suffixes nested room e) Expr.WellFormed := by
  induction room generalizing e with
  | zero =>
    unfold suffixes
    refine .bind (keeps_suffix hnested _ he) fun o ho => ?_
    split
    · exact .pure he
    · exact .pure (ho _ rfl)
  | succ room ih =>
    unfold suffixes
    refine .bind (keeps_suffix hnested _ he) fun o ho => ?_
    split
    · exact .pure he
    · exact ih (ho _ rfl)

theorem keeps_postfixed (room : Nat) : Keeps (postfixed nested room) Expr.WellFormed :=
  .bind (keeps_atom hnested _) fun _ he => keeps_suffixes hnested _ he

theorem keeps_signed (room : Nat) : Keeps (signed nested room) Expr.WellFormed := by
  induction room with
  | zero =>
    unfold signed
    refine .bind (keeps_eat _) fun b _ => .ite (fun _ => keeps_fail _) fun _ => ?_
    refine .bind (keeps_eat _) fun c _ => .ite (fun _ => keeps_fail _) fun _ => ?_
    exact keeps_postfixed hnested _
  | succ room ih =>
    unfold signed
    refine .bind (keeps_eat _) fun b _ => .ite (fun _ => ?_) fun _ => ?_
    · exact .bind ih fun e he => .pure (wellFormed_negate he)
    · refine .bind (keeps_eat _) fun c _ => .ite (fun _ => ih) fun _ => ?_
      exact keeps_postfixed hnested _

theorem keeps_term (room : Nat) : Keeps (term nested room) Expr.WellFormed :=
  keeps_chain (keeps_oneOf _) (keeps_signed hnested) (fun _ _ _ _ => .binary) room

theorem keeps_sum (room : Nat) : Keeps (sum nested room) Expr.WellFormed :=
  keeps_chain (keeps_oneOf _) (keeps_term hnested) (fun _ _ _ _ => .binary) room

end Levels

theorem keeps_comparator :
    Keeps comparator fun o => ∀ combine, o = some combine →
      ∀ lhs rhs : Expr, lhs.WellFormed → rhs.WellFormed → (combine lhs rhs).WellFormed := by
  have hbinary : ∀ (op : BinaryOp) (combine : Expr → Expr → Expr),
      some (Expr.binary op) = some combine → ∀ lhs rhs : Expr, lhs.WellFormed →
        rhs.WellFormed → (combine lhs rhs).WellFormed := by
    rintro op _ ⟨rfl⟩ lhs rhs hl hr
    exact ⟨hl, hr⟩
  have hmember : ∀ lhs rhs : Expr, lhs.WellFormed → rhs.WellFormed →
      (membership lhs rhs).WellFormed := fun lhs rhs hl hr =>
    ⟨fun _ h => (nomatch h), hr, hl, trivial⟩
  unfold comparator
  refine .bind keeps_peek fun k _ => ?_
  split
  iterate 6 exact .bind keeps_advance fun _ _ => .pure (hbinary _)
  · refine .bind keeps_advance fun _ _ => .pure ?_
    rintro _ ⟨rfl⟩
    exact hmember
  · refine .bind keeps_peekSecond fun second _ => .ite (fun _ => ?_) fun _ => ?_
    · refine .bind keeps_advance fun _ _ => .bind keeps_advance fun _ _ => .pure ?_
      rintro _ ⟨rfl⟩
      exact hmember
    · exact .pure fun _ h => nomatch h
  · refine .bind keeps_advance fun _ _ => .bind (keeps_eat _) fun b _ => .pure ?_
    exact hbinary _
  · exact .pure fun _ h => nomatch h

section Levels

variable {nested : Nat → Parser Expr} (hnested : ∀ room, Keeps (nested room) Expr.WellFormed)
include hnested

theorem keeps_comparison (room : Nat) : Keeps (comparison nested room) Expr.WellFormed := by
  unfold comparison
  refine .bind (keeps_sum hnested _) fun lhs hl => .bind keeps_comparator fun o ho => ?_
  split
  · exact .pure hl
  · rename_i combine
    refine .bind (keeps_sum hnested _) fun rhs hr => .bind keeps_comparator fun o' _ => ?_
    split
    · exact .pure (ho combine rfl lhs rhs hl hr)
    · exact keeps_fail _

theorem keeps_negation (room : Nat) : Keeps (negation nested room) Expr.WellFormed := by
  induction room with
  | zero =>
    unfold negation
    refine .bind (keeps_eat _) fun b _ => .ite (fun _ => keeps_fail _) fun _ => ?_
    exact keeps_comparison hnested _
  | succ room ih =>
    unfold negation
    refine .bind (keeps_eat _) fun b _ => .ite (fun _ => ?_) fun _ => keeps_comparison hnested _
    exact .bind ih fun e he => .pure he

theorem keeps_conjunction (room : Nat) : Keeps (conjunction nested room) Expr.WellFormed :=
  keeps_chain (O := fun _ => True) ((keeps_wordOperator _ _).mono fun _ _ _ _ => trivial)
    (keeps_negation hnested) (fun _ _ _ _ => .logical) room

theorem keeps_disjunction (room : Nat) : Keeps (disjunction nested room) Expr.WellFormed :=
  keeps_chain (O := fun _ => True) ((keeps_wordOperator _ _).mono fun _ _ _ _ => trivial)
    (keeps_conjunction hnested) (fun _ _ _ _ => .logical) room

end Levels

theorem keeps_exprAt (depth room : Nat) : Keeps (exprAt depth room) Expr.WellFormed := by
  induction depth generalizing room with
  | zero => exact keeps_fail _
  | succ depth ih => exact .bind (keeps_descend _) fun _ _ => keeps_disjunction ih _

theorem keeps_expr (room : Nat) : Keeps (expr room) Expr.WellFormed := keeps_exprAt _ _

theorem keeps_exprList (room : Nat) : Keeps (exprList room) Expr.WellFormed := by
  unfold exprList
  refine .bind (keeps_expr _) fun first hfirst => .bind (keeps_check _) fun b _ => ?_
  refine .ite (fun _ => ?_) fun _ => .pure hfirst
  refine .bind (keeps_collect Expr.WellFormed ?_) fun rest hrest => ?_
  · refine .bind (keeps_eat _) fun c _ => .ite (fun _ => ?_) fun _ => .pure trivial
    refine .bind keeps_peek fun k _ => ?_
    split
    · exact .pure trivial
    · exact .pure trivial
    · exact .bind (keeps_expr _) fun e he => .pure he
  · exact .pure ⟨hfirst, Expr.allWellFormed_iff.2 hrest⟩

/-! ### Statements on one line -/

theorem keeps_furtherNames : Keeps furtherNames fun names => ∀ x ∈ names, IsName x := by
  refine keeps_collect _ (.bind (keeps_eat _) fun b _ => .ite (fun _ => ?_) fun _ => .pure trivial)
  exact .bind (keeps_identifier _) fun x hx => .pure hx

theorem keeps_loopPattern : Keeps loopPattern Pattern.WellFormed := by
  unfold loopPattern
  refine .bind (keeps_identifier _) fun first hfirst => .bind (keeps_check _) fun b _ => ?_
  refine .ite (fun _ => ?_) fun _ => .pure (by simpa [Pattern.WellFormed, Pattern.names])
  refine .bind keeps_furtherNames fun names hnames => .pure ?_
  exact List.forall_mem_cons.2 ⟨hfirst, hnames⟩

/-- A declaration of the indented dialect, which always has a value and is never constant. -/
theorem wellFormed_declare {around : Surroundings} {names : Pattern} {value : Expr}
    (hnames : names.WellFormed) (hvalue : value.WellFormed) :
    (Stmt.declare names (some value) false).WellFormed .indented around := by
  refine ⟨hnames, ?_, fun h => (nomatch h), fun h => nomatch h⟩
  rintro _ ⟨rfl⟩
  exact hvalue

theorem some_mem_assignable {op : BinaryOp} (h : ∃ spelling, (spelling, op) ∈ augmented) :
    some op ∈ assignable := by
  obtain ⟨spelling, hmem⟩ := h
  revert hmem
  simp only [augmented, assignable, List.mem_cons, List.not_mem_nil, Prod.mk.injEq]
  grind

theorem keeps_assignment (room : Nat) (around : Surroundings) :
    Keeps (assignment room) (Simple .indented around) := by
  unfold assignment
  refine .bind keeps_position fun p _ => .bind (keeps_expr _) fun first hfirst => ?_
  refine .bind (keeps_check _) fun b _ => .ite (fun _ => ?_) fun _ => ?_
  · split
    · refine .bind keeps_furtherNames fun names hnames => .bind (keeps_expectOp _) fun _ _ => ?_
      refine .bind (keeps_exprList _) fun value hvalue => .pure ?_
      exact ⟨wellFormed_declare (List.forall_mem_cons.2 ⟨hfirst, hnames⟩) hvalue, rfl⟩
    · exact keeps_fail _
  · refine .bind (keeps_eat _) fun c _ => .ite (fun _ => ?_) fun _ => ?_
    · refine .bind (keeps_exprList _) fun value hvalue => ?_
      split
      · refine .pure ⟨wellFormed_declare ?_ hvalue, rfl⟩
        exact List.forall_mem_singleton.2 hfirst
      · exact .pure ⟨⟨by decide, hfirst, hvalue⟩, rfl⟩
      · exact keeps_failAt _ _
    · refine .bind (keeps_oneOf _) fun o ho => ?_
      split
      · rename_i op
        have hop := some_mem_assignable (ho op rfl)
        refine .bind (keeps_expr _) fun value hvalue => ?_
        split
        · exact .pure ⟨⟨hop, hfirst, hvalue⟩, rfl⟩
        · exact .pure ⟨⟨hop, hfirst, hvalue⟩, rfl⟩
        · exact keeps_failAt _ _
      · exact .pure ⟨hfirst, rfl⟩

theorem keeps_simple (room : Nat) (around : Surroundings) :
    Keeps (simple room around) fun o => ∀ stmt ∈ o, Simple .indented around stmt := by
  have hsome : ∀ stmt : Stmt, Simple .indented around stmt →
      ∀ x ∈ some stmt, Simple .indented around x := by
    rintro stmt hstmt _ ⟨rfl⟩
    exact hstmt
  have hnone : ∀ x ∈ (none : Option Stmt), Simple .indented around x := fun _ h => nomatch h
  unfold simple
  refine .bind keeps_peek fun k _ => ?_
  split
  · exact .bind keeps_advance fun _ _ => .pure hnone
  · refine .ite (fun h => ?_) fun _ => keeps_fail _
    exact .bind keeps_advance fun _ _ => .pure (hsome _ ⟨h, rfl⟩)
  · refine .ite (fun h => ?_) fun _ => keeps_fail _
    exact .bind keeps_advance fun _ _ => .pure (hsome _ ⟨h, rfl⟩)
  · refine .ite (fun h => ?_) fun _ => keeps_fail _
    have hbare : Simple .indented around (.return none) := ⟨⟨h, fun _ h => nomatch h⟩, rfl⟩
    refine .bind keeps_advance fun _ _ => .bind keeps_peek fun k' _ => ?_
    split
    · exact .pure (hsome _ hbare)
    · exact .pure (hsome _ hbare)
    · exact .pure (hsome _ hbare)
    · refine .bind (keeps_exprList _) fun value hvalue => .pure (hsome _ ⟨⟨h, ?_⟩, rfl⟩)
      rintro _ ⟨rfl⟩
      exact hvalue
  · refine .bind keeps_advance fun _ _ => .bind (keeps_identifier _) fun className hclass => ?_
    refine .bind (keeps_expectOp _) fun _ _ => .bind (keeps_expr _) fun message hmessage => ?_
    refine .bind (keeps_expectOp _) fun _ _ => .pure (hsome _ ?_)
    exact ⟨⟨hclass, hmessage⟩, rfl⟩
  · exact .bind (keeps_assignment _ _) fun stmt hstmt => .pure (hsome _ hstmt)

theorem keeps_simpleLine (room : Nat) (around : Surroundings) :
    Keeps (simpleLine room around) fun stmts => ∀ stmt ∈ stmts, Simple .indented around stmt := by
  unfold simpleLine
  refine .bind (keeps_simple _ _) fun o ho => .bind keeps_peek fun k _ => ?_
  have hlist : ∀ stmt ∈ o.toList, Simple .indented around stmt := fun stmt h =>
    ho stmt (Option.mem_toList.1 h)
  split
  · exact .bind keeps_advance fun _ _ => .pure hlist
  · exact .pure hlist
  · exact .pure hlist
  · exact keeps_failFound _

theorem defines_simpleLine (room : Nat) (around : Surroundings) :
    DefinesStmts .indented around (simpleLine room around) :=
  defines_of_simple (keeps_simpleLine _ _)

/-! ### Blocks -/

theorem keeps_comments (around : Surroundings) :
    Keeps comments fun stmts => ∀ stmt ∈ stmts, Simple .indented around stmt := by
  refine keeps_collect _ (.bind keeps_peek fun k hk => ?_)
  split
  · exact .bind keeps_advance fun _ _ => .pure ⟨hk, rfl⟩
  · exact .pure trivial

section Blocks

variable {room : Nat} {inner : Surroundings → Parser (List Stmt)}
  (hinner : ∀ around, DefinesStmts .indented around (inner around))
include hinner

theorem defines_suite (around : Surroundings) :
    DefinesStmts .indented around (suite room inner around) := by
  unfold suite
  refine .after keeps_peek fun k _ => .ite (fun _ => ?_) fun _ => defines_simpleLine _ _
  refine .after keeps_advance fun _ _ => .after (keeps_comments around) fun leading hleading => ?_
  refine .after (keeps_eat _) fun b _ => .ite (fun _ => ?_) fun _ => defines_fail _
  refine .bind (defines_collectStmts .indented around ?_) ?_
  · refine .after keeps_peek fun k _ => ?_
    split
    · exact .pure ⟨trivial, rfl⟩
    · exact .pure ⟨trivial, rfl⟩
    · exact .map (hinner around) fun _ _ hstmts => hstmts
  · rintro body _ ⟨hbody, rfl⟩
    refine .after (keeps_eat _) fun _ _ => .pure ?_
    obtain ⟨hwf, hnames⟩ := wellFormed_simple hleading
    refine ⟨Stmt.allWellFormed_append hwf hbody, ?_⟩
    rw [Stmt.functionNames_append, hnames, List.append_nil, List.nil_append]

theorem defines_block (around : Surroundings) :
    DefinesStmts .indented around (block room inner around) := by
  unfold block
  refine .after (keeps_expectOp _) fun _ _ => .after (keeps_descend _) fun _ _ => ?_
  exact defines_suite hinner around

theorem defines_function (around : Surroundings) :
    DefinesStmt .indented around (function room inner) := by
  unfold function
  refine .after keeps_advance fun _ _ => .bind (defines_functionName _) ?_
  rintro f _ ⟨hf, rfl⟩
  refine .after (keeps_parameters _) fun params ⟨hnames, hnodup⟩ => ?_
  refine .map (defines_block hinner _) ?_
  rintro body _ ⟨hbody, rfl⟩
  exact ⟨⟨hf, hnames, hnodup, hbody⟩, (Stmt.functionNames_function _ _ _).symm⟩

theorem defines_forEach (around : Surroundings) :
    DefinesStmt .indented around (forEach room inner around) := by
  unfold forEach
  refine .after keeps_advance fun _ _ => .after keeps_loopPattern fun pattern hpattern => ?_
  refine .after (keeps_expectWord _) fun _ _ => .after (keeps_expr _) fun iterable hiterable => ?_
  refine .map (defines_block hinner _) ?_
  rintro body _ ⟨hbody, rfl⟩
  exact ⟨⟨hpattern, hiterable, hbody⟩, (Stmt.functionNames_forEach _ _ _).symm⟩

theorem defines_whileLoop (around : Surroundings) :
    DefinesStmt .indented around (whileLoop room inner around) := by
  unfold whileLoop
  refine .after keeps_advance fun _ _ => .after (keeps_expr _) fun condition hcondition => ?_
  refine .map (defines_block hinner _) ?_
  rintro body _ ⟨hbody, rfl⟩
  exact ⟨⟨hcondition, hbody⟩, (Stmt.functionNames_while _ _).symm⟩

theorem defines_guarded (around : Surroundings) :
    Defines (guarded room inner around) fun arm xs =>
      GuardedWellFormed .indented around arm ∧ xs = Stmt.functionNames arm.2 := by
  unfold guarded
  refine .after (keeps_expr _) fun condition hcondition => .map (defines_block hinner _) ?_
  rintro body _ ⟨hbody, rfl⟩
  exact ⟨⟨hcondition, hbody⟩, rfl⟩

theorem defines_conditional (around : Surroundings) :
    DefinesStmt .indented around (conditional room inner around) := by
  unfold conditional
  refine .after keeps_advance fun _ _ => .bind (defines_guarded hinner around) ?_
  rintro first _ ⟨hfirst, rfl⟩
  refine .bind (defines_collect (GuardedWellFormed .indented around)
    (fun arm => Stmt.functionNames arm.2) ?_) ?_
  · refine .after (keeps_eat _) fun b _ => .ite (fun _ => ?_) fun _ => .pure ⟨trivial, rfl⟩
    exact .map (defines_guarded hinner around) fun _ _ harm => harm
  rintro further _ ⟨hfurther, rfl⟩
  have harms := List.forall_mem_cons.2 ⟨hfirst, hfurther⟩
  obtain ⟨condition, body⟩ := first
  refine .after (keeps_eat _) fun b _ => .ite (fun _ => ?_) fun _ => .pure ?_
  · simp only [map_eq_pure_bind, bind_assoc, pure_bind]
    refine .map (defines_block hinner _) ?_
    rintro last _ ⟨hlast, rfl⟩
    refine ⟨⟨⟨_, _, _, rfl⟩, Arms.wellFormed_ofList harms ?_⟩, ?_⟩
    · rintro _ ⟨rfl⟩
      exact hlast
    · simp [Stmt.functionNames_cond]
  · refine ⟨⟨⟨_, _, _, rfl⟩, Arms.wellFormed_ofList harms fun _ h => nomatch h⟩, ?_⟩
    simp [Stmt.functionNames_cond]

theorem defines_statement (around : Surroundings) :
    DefinesStmts .indented around (statement room inner around) := by
  unfold statement
  refine .after keeps_peek fun k hk => ?_
  split
  · exact .after keeps_advance fun _ _ => .pure ⟨⟨hk, trivial⟩, rfl⟩
  · exact .after keeps_advance fun _ _ => .pure ⟨trivial, rfl⟩
  · exact defines_fail _
  · exact defines_singleton (defines_function hinner around)
  · exact defines_singleton (defines_forEach hinner around)
  · exact defines_singleton (defines_whileLoop hinner around)
  · exact defines_singleton (defines_conditional hinner around)
  · exact defines_fail _
  · exact defines_fail _
  · exact defines_simpleLine _ _

end Blocks

theorem defines_statementAt (room : Nat) (around : Surroundings) :
    DefinesStmts .indented around (statementAt room around) := by
  induction room generalizing around with
  | zero => exact defines_statement (fun _ => defines_fail _) around
  | succ room ih => exact defines_statement ih around

theorem defines_program : DefinesStmts .indented .top program := by
  unfold program
  refine .map (defines_collectStmts _ _ ?_) fun _ _ hstmts => hstmts
  refine .after (keeps_check _) fun b _ => .ite (fun _ => .pure ⟨trivial, rfl⟩) fun _ => ?_
  exact .map (defines_statementAt _ _) fun _ _ hstmts => hstmts

/-- Every tree that is read is well-formed, and its functions have different names. -/
theorem wellFormed_of_parse {source : String} {body : List Stmt} (h : parse source = .ok body) :
    Stmt.AllWellFormed .indented .top body ∧ (Stmt.functionNames body).Nodup := by
  obtain ⟨_, ⟨hwf, rfl⟩, hnodup⟩ := run_defines defines_program (fun _ hts => lexical_tokens hts) h
  exact ⟨hwf, hnodup⟩

end Labyrinth.Indented
