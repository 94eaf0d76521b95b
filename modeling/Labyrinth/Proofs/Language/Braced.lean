import Labyrinth.Language.Braced.Grammar
import Labyrinth.Proofs.Language.Stream

/-!
# Trees of the braced dialect

Every tree that is read from a source in the braced dialect is well-formed, and its functions
have different names. There is a lemma for every rule of the grammar, in the order of the rules.

## Main results

* `wellFormed_of_parse`: the guarantees of the grammar.
-/

namespace Labyrinth.Braced

open Labyrinth.Parser

/-! ### Calls -/

theorem isName_of_methodFor {name other : String} {arity : Nat} (hname : IsName name)
    (h : methodFor name arity = .other other) : IsName other := by
  unfold methodFor at h
  split at h <;> try split at h
  all_goals cases h
  all_goals exact hname

theorem wellFormed_call {callee e : Expr} {args : List Expr} {p : Position}
    (hcallee : callee.WellFormed) (hargs : ∀ e ∈ args, e.WellFormed)
    (h : call callee args p = .ok e) : e.WellFormed := by
  have hall := Expr.allWellFormed_iff.2 hargs
  unfold call at h
  split at h
  · split at h
    · obtain ⟨_, harity, h⟩ := bind_eq_ok_iff.1 h
      cases h
      exact ⟨length_of_checkArity harity, hall⟩
    · split at h
      · cases h
        exact hall
      · cases h
        exact hall
      · rename_i hrange
        cases h
        exact ⟨hcallee, hrange, hall⟩
  · cases h
    exact ⟨fun _ => isName_of_methodFor hcallee.1, hcallee.2, hall⟩
  · cases h

theorem keeps_collection {className : String} {source : Option Expr}
    (hsource : Expr.OptionWellFormed source) :
    Keeps (collection className source) Expr.WellFormed := by
  unfold collection
  split
  · exact .pure trivial
  · rename_i e
    exact .pure (show e.WellFormed from hsource e rfl)
  · exact .pure trivial
  · rename_i e
    exact .pure (show e.WellFormed from hsource e rfl)
  · exact keeps_fail _

/-! ### Expressions -/

section Levels

variable {nested : Nat → Parser Expr} (hnested : ∀ room, Keeps (nested room) Expr.WellFormed)
include hnested

theorem keeps_arguments (room : Nat) :
    Keeps (arguments nested room) fun es => ∀ e ∈ es, e.WellFormed :=
  .bind (keeps_expectOp _) fun _ _ => keeps_separated _ (hnested _)

theorem keeps_memberCall (object : String) (room : Nat) :
    Keeps (memberCall nested object room) Expr.WellFormed := by
  unfold memberCall
  refine .bind keeps_advance fun _ _ => .bind (keeps_expectOp _) fun _ _ => ?_
  refine .bind keeps_position fun p _ => .bind (keeps_identifier _) fun member _ => ?_
  split
  · refine .bind (keeps_arguments hnested _) fun args hargs => .pure ?_
    exact Expr.allWellFormed_iff.2 hargs
  · exact keeps_failAt _ _

theorem keeps_creation (room : Nat) : Keeps (creation nested room) Expr.WellFormed := by
  unfold creation
  refine .bind keeps_advance fun _ _ => .bind (keeps_identifier _) fun className _ => ?_
  refine .bind (keeps_expectOp _) fun _ _ => .bind (keeps_check _) fun b _ => ?_
  refine .ite (fun _ => ?_) fun _ => ?_
  · exact .bind (.pure fun _ h => nomatch h) fun source hsource =>
      .bind (keeps_expectOp _) fun _ _ => keeps_collection hsource
  · simp only [map_eq_pure_bind, bind_assoc, pure_bind]
    refine .bind (hnested _) fun source hsource => .bind (keeps_expectOp _) fun _ _ => ?_
    refine keeps_collection ?_
    rintro _ ⟨rfl⟩
    exact hsource

theorem keeps_word {text : String} (htext : IsName text) (room : Nat) :
    Keeps (word nested text room) Expr.WellFormed := by
  unfold word
  split
  iterate 4 exact .bind keeps_advance fun _ _ => .pure fun h => nomatch h
  · exact keeps_creation hnested _
  · exact keeps_memberCall hnested _ _
  · exact keeps_memberCall hnested _ _
  · refine .ite (fun _ => keeps_fail _) fun _ => ?_
    exact .bind keeps_advance fun _ _ => .pure htext

theorem keeps_bracketed (opening : String) (room : Nat) :
    Keeps (bracketed nested opening room) Expr.WellFormed := by
  unfold bracketed
  split
  · refine .bind keeps_advance fun _ _ => .bind (hnested _) fun e he => ?_
    exact .bind (keeps_expectOp _) fun _ _ => .pure he
  · refine .bind keeps_advance fun _ _ => .bind (keeps_separated _ (hnested _)) fun es hes => ?_
    exact .pure (Expr.allWellFormed_iff.2 hes)
  · exact .bind keeps_advance fun _ _ => .bind (keeps_expectOp _) fun _ _ => .pure trivial
  · exact keeps_failFound _

theorem keeps_atom (room : Nat) : Keeps (atom nested room) Expr.WellFormed := by
  unfold atom
  refine .bind keeps_peek fun k hk => ?_
  split
  · exact .bind keeps_advance fun _ _ => .pure fun h => hk (Literal.int.inj h)
  · exact .bind keeps_advance fun _ _ => .pure fun h => nomatch h
  · exact keeps_word hnested hk _
  · exact keeps_bracketed hnested _ _
  · exact keeps_failFound _

theorem keeps_suffix (room : Nat) {e : Expr} (he : e.WellFormed) :
    Keeps (suffix nested room e) fun o => Expr.OptionWellFormed o := by
  unfold suffix
  refine .bind keeps_peek fun k _ => ?_
  split
  · refine .bind (keeps_descend _) fun _ _ => .bind keeps_position fun p _ => ?_
    refine .bind (keeps_arguments hnested _) fun args hargs => ?_
    refine .bind (.lift fun x hx => wellFormed_call he hargs hx) fun x hx => .pure ?_
    rintro _ ⟨rfl⟩
    exact hx
  · refine .bind (keeps_descend _) fun _ _ => .bind keeps_advance fun _ _ => ?_
    refine .bind (hnested _) fun i hi => .bind (keeps_expectOp _) fun _ _ => .pure ?_
    rintro _ ⟨rfl⟩
    exact ⟨he, hi⟩
  · refine .bind (keeps_descend _) fun _ _ => .bind keeps_advance fun _ _ => ?_
    refine .bind (keeps_identifier _) fun x hx => ?_
    have hlen : Expr.OptionWellFormed (some (.builtin .len [e])) := by
      rintro _ ⟨rfl⟩
      exact ⟨he, trivial⟩
    have hattribute : Expr.OptionWellFormed (some (.attribute e x)) := by
      rintro _ ⟨rfl⟩
      exact ⟨hx, he⟩
    refine .bind (keeps_check _) fun b _ => .ite (fun _ => .pure hlen) fun _ => .pure hattribute
  · exact .pure fun _ h => nomatch h

theorem keeps_suffixes (room : Nat) {e : Expr} (he : e.WellFormed) :
    Keeps (suffixes nested room e) Expr.WellFormed := by
  induction room generalizing e with
  | zero =>
    unfold suffixes
    refine .bind (keeps_suffix hnested _ he) fun o ho => ?_
    split
    · exact .pure he
    · exact .pure (ho _ rfl)
  | succ room ih =>
    unfold suffixes
    refine .bind (keeps_suffix hnested _ he) fun o ho => ?_
    split
    · exact .pure he
    · exact ih (ho _ rfl)

theorem keeps_postfixed (room : Nat) : Keeps (postfixed nested room) Expr.WellFormed :=
  .bind (keeps_atom hnested _) fun _ he => keeps_suffixes hnested _ he

theorem keeps_prefixed (room : Nat) : Keeps (prefixed nested room) Expr.WellFormed := by
  induction room with
  | zero =>
    unfold prefixed
    refine .bind (keeps_eat _) fun b _ => .ite (fun _ => keeps_fail _) fun _ => ?_
    refine .bind (keeps_eat _) fun c _ => .ite (fun _ => keeps_fail _) fun _ => ?_
    refine .bind (keeps_eat _) fun c _ => .ite (fun _ => keeps_fail _) fun _ => ?_
    exact keeps_postfixed hnested _
  | succ room ih =>
    unfold prefixed
    refine .bind (keeps_eat _) fun b _ => .ite (fun _ => ?_) fun _ => ?_
    · exact .bind ih fun e he => .pure he
    · refine .bind (keeps_eat _) fun c _ => .ite (fun _ => ?_) fun _ => ?_
      · exact .bind ih fun e he => .pure (wellFormed_negate he)
      · refine .bind (keeps_eat _) fun d _ => .ite (fun _ => ih) fun _ => ?_
        exact keeps_postfixed hnested _

theorem keeps_term (room : Nat) : Keeps (term nested room) Expr.WellFormed :=
  keeps_chain (keeps_oneOf _) (keeps_prefixed hnested) (fun _ _ _ _ => .binary) room

theorem keeps_sum (room : Nat) : Keeps (sum nested room) Expr.WellFormed :=
  keeps_chain (keeps_oneOf _) (keeps_term hnested) (fun _ _ _ _ => .binary) room

theorem keeps_relation (room : Nat) : Keeps (relation nested room) Expr.WellFormed :=
  keeps_chain (keeps_oneOf _) (keeps_sum hnested) (fun _ _ _ _ => .binary) room

theorem keeps_equality (room : Nat) : Keeps (equality nested room) Expr.WellFormed :=
  keeps_chain (keeps_oneOf _) (keeps_relation hnested) (fun _ _ _ _ => .binary) room

theorem keeps_conjunction (room : Nat) : Keeps (conjunction nested room) Expr.WellFormed :=
  keeps_chain (keeps_oneOf _) (keeps_equality hnested) (fun _ _ _ _ => .logical) room

theorem keeps_disjunction (room : Nat) : Keeps (disjunction nested room) Expr.WellFormed :=
  keeps_chain (keeps_oneOf _) (keeps_conjunction hnested) (fun _ _ _ _ => .logical) room

end Levels

theorem keeps_exprAt (depth room : Nat) : Keeps (exprAt depth room) Expr.WellFormed := by
  induction depth generalizing room with
  | zero => exact keeps_fail _
  | succ depth ih => exact .bind (keeps_descend _) fun _ _ => keeps_disjunction ih _

theorem keeps_expr (room : Nat) : Keeps (expr room) Expr.WellFormed := keeps_exprAt _ _

/-! ### Statements without bodies -/

theorem keeps_pattern : Keeps pattern Pattern.WellFormed := by
  unfold pattern
  refine .bind (keeps_eat _) fun b _ => .ite (fun _ => ?_) fun _ => ?_
  · exact .bind (keeps_separated _ (keeps_identifier _)) fun names hnames => .pure hnames
  · exact .bind (keeps_identifier _) fun x hx => .pure (List.forall_mem_singleton.2 hx)

theorem keeps_binding (constant : Bool) (room : Nat) (around : Surroundings) :
    Keeps (binding constant room) (Simple .braced around) := by
  unfold binding
  refine .bind keeps_pattern fun names hnames => .bind (keeps_eat _) fun b _ => ?_
  refine .ite (fun _ => ?_) fun _ => .ite (fun _ => keeps_fail _) fun hplain => ?_
  · refine .bind (keeps_expr _) fun value hvalue => .pure ⟨⟨hnames, ?_, ?_, fun _ => rfl⟩, rfl⟩
    · rintro _ ⟨rfl⟩
      exact hvalue
    · exact fun h => nomatch h
  · obtain ⟨rfl, hsingle⟩ : constant = false ∧ isSingle names = true := by simpa using hplain
    refine .pure ⟨⟨hnames, fun _ h => (nomatch h), fun _ => ⟨rfl, rfl, ?_⟩, fun _ => rfl⟩, rfl⟩
    cases names with
    | single x => exact ⟨x, rfl⟩
    | tuple xs => cases hsingle

theorem keeps_declaration (constant : Bool) (room : Nat) (around : Surroundings) :
    Keeps (declaration constant room) fun stmts => ∀ stmt ∈ stmts, Simple .braced around stmt := by
  unfold declaration
  refine .bind keeps_advance fun _ _ => .bind (keeps_collect (Simple .braced around) ?_) ?_
  · refine .bind (keeps_binding _ _ around) fun stmt hstmt =>
      .bind (keeps_eat _) fun b _ => .pure ?_
    cases b
    · exact hstmt
    · exact hstmt
  · exact fun stmts hstmts => .bind (keeps_expectOp _) fun _ _ => .pure hstmts

theorem isName_of_namesOf? {items : List Expr} {names : List String}
    (hitems : ∀ e ∈ items, e.WellFormed)
    (h : namesOf? items = some names) : ∀ x ∈ names, IsName x := by
  induction items generalizing names with
  | nil =>
    cases h
    exact fun x hx => nomatch hx
  | cons item items ih =>
    obtain ⟨hitem, hitems⟩ := List.forall_mem_cons.1 hitems
    simp only [namesOf?, List.mapM_cons, Option.pure_def, Option.bind_eq_bind,
      Option.bind_eq_some_iff] at h
    obtain ⟨x, hx, xs, hxs, h⟩ := h
    cases h
    refine List.forall_mem_cons.2 ⟨?_, ih hitems hxs⟩
    split at hx
    · cases hx
      exact hitem
    · cases hx

theorem wellFormed_targetOf {e : Expr} {op : Option BinaryOp} {p : Position} {target : Target}
    (he : e.WellFormed) (h : targetOf e op p = .ok target) : target.WellFormed op := by
  unfold targetOf at h
  split at h
  · cases h
    exact he
  · cases h
    exact he
  · split at h
    · rename_i hnames
      cases h
      exact ⟨rfl, isName_of_namesOf? (Expr.allWellFormed_iff.1 he) hnames⟩
    · cases h
  · cases h

theorem mem_assignable {op : Option BinaryOp} (h : ∃ spelling, (spelling, op) ∈ assignments) :
    op ∈ assignable := by
  obtain ⟨spelling, hmem⟩ := h
  revert hmem
  simp only [assignments, assignable, List.mem_cons, List.not_mem_nil, Prod.mk.injEq]
  grind

theorem keeps_assignment (room : Nat) (around : Surroundings) :
    Keeps (assignment room) (Simple .braced around) := by
  unfold assignment
  refine .bind keeps_position fun p _ => .bind (keeps_expr _) fun first hfirst => ?_
  refine .bind (keeps_oneOf _) fun o ho => ?_
  split
  · rename_i op
    refine .bind (keeps_expr _) fun value hvalue => ?_
    refine .bind (.lift fun target => wellFormed_targetOf hfirst) fun target htarget => ?_
    exact .pure ⟨⟨mem_assignable (ho op rfl), htarget, hvalue⟩, rfl⟩
  · exact .pure ⟨hfirst, rfl⟩

theorem isName_error : IsName "Error" :=
  ⟨'E', ['r', 'r', 'o', 'r'], rfl, by decide, by simp; decide⟩

theorem keeps_thrown (room : Nat) (around : Surroundings) :
    Keeps (thrown room) (Simple .braced around) := by
  unfold thrown
  refine .bind (keeps_eat _) fun b _ => .ite (fun _ => ?_) fun _ => ?_
  · refine .bind (keeps_identifier _) fun className hclass => .bind (keeps_expectOp _) fun _ _ => ?_
    refine .bind (keeps_expr _) fun message hmessage => .bind (keeps_expectOp _) fun _ _ => ?_
    exact .pure ⟨⟨hclass, hmessage⟩, rfl⟩
  · exact .bind (keeps_expr _) fun message hmessage => .pure ⟨⟨isName_error, hmessage⟩, rfl⟩

theorem keeps_returned (room : Nat) {around : Surroundings} (h : around.inFunction = true) :
    Keeps (returned room) (Simple .braced around) := by
  have hbare : Simple .braced around (.return none) := ⟨⟨h, fun _ h => nomatch h⟩, rfl⟩
  unfold returned
  refine .bind keeps_peek fun k _ => ?_
  split
  · exact .pure hbare
  · exact .pure hbare
  · refine .bind (keeps_expr _) fun value hvalue => .pure ⟨⟨h, ?_⟩, rfl⟩
    rintro _ ⟨rfl⟩
    exact hvalue

theorem keeps_condition (room : Nat) : Keeps (condition room) Expr.WellFormed := by
  unfold condition
  refine .bind (keeps_expectOp _) fun _ _ => .bind (keeps_expr _) fun e he => ?_
  exact .bind (keeps_expectOp _) fun _ _ => .pure he

/-! ### Statements with bodies -/

section Blocks

variable {room : Nat} {inner : Surroundings → Parser (List Stmt)}
  (hinner : ∀ around, DefinesStmts .braced around (inner around))
include hinner

theorem defines_braced (around : Surroundings) :
    DefinesStmts .braced around (braced room inner around) := by
  unfold braced
  refine .after (keeps_expectOp _) fun _ _ => .after (keeps_descend _) fun _ _ => ?_
  refine .bind (defines_collectStmts .braced around ?_) ?_
  · refine .after keeps_peek fun k _ => ?_
    split
    · exact .pure ⟨trivial, rfl⟩
    · exact defines_failFound _
    · exact .map (hinner around) fun _ _ hstmts => hstmts
  · rintro body _ ⟨hbody, rfl⟩
    exact .after (keeps_expectOp _) fun _ _ => .pure ⟨hbody, List.append_nil _⟩

theorem defines_body (around : Surroundings) :
    DefinesStmts .braced around (body room inner around) := by
  unfold body
  refine .after (keeps_check _) fun b _ => .ite (fun _ => defines_braced hinner around) fun _ => ?_
  exact .after (keeps_descend _) fun _ _ => hinner around

theorem defines_function (around : Surroundings) :
    DefinesStmt .braced around (function room inner) := by
  unfold function
  refine .after keeps_advance fun _ _ => .bind (defines_functionName _) ?_
  rintro f _ ⟨hf, rfl⟩
  refine .after (keeps_parameters _) fun params ⟨hnames, hnodup⟩ => ?_
  refine .map (defines_braced hinner _) ?_
  rintro body _ ⟨hbody, rfl⟩
  exact ⟨⟨hf, hnames, hnodup, hbody⟩, (Stmt.functionNames_function _ _ _).symm⟩

theorem defines_forEach (around : Surroundings) :
    DefinesStmt .braced around (forEach room inner around) := by
  have hrest : DefinesStmt .braced around (do
      let names ← pattern
      expectWord "of"
      let iterable ← expr room
      expectOp ")"
      return .forEach names iterable (← body room inner around.loop)) := by
    refine .after keeps_pattern fun names hnames => .after (keeps_expectWord _) fun _ _ => ?_
    refine .after (keeps_expr _) fun iterable hiterable => .after (keeps_expectOp _) fun _ _ => ?_
    refine .map (defines_body hinner _) ?_
    rintro body _ ⟨hbody, rfl⟩
    exact ⟨⟨hnames, hiterable, hbody⟩, (Stmt.functionNames_forEach _ _ _).symm⟩
  unfold forEach
  refine .after keeps_advance fun _ _ => .after (keeps_expectOp _) fun _ _ => ?_
  refine .after (keeps_eat _) fun b _ => .ite (fun _ => hrest) fun _ => ?_
  refine .after (keeps_eat _) fun c _ => .ite (fun _ => hrest) fun _ => ?_
  exact .after (P := fun _ => True) (keeps_failFound _) fun _ _ => hrest

theorem defines_whileLoop (around : Surroundings) :
    DefinesStmt .braced around (whileLoop room inner around) := by
  unfold whileLoop
  refine .after keeps_advance fun _ _ => .after (keeps_condition _) fun test htest => ?_
  refine .map (defines_body hinner _) ?_
  rintro body _ ⟨hbody, rfl⟩
  exact ⟨⟨htest, hbody⟩, (Stmt.functionNames_while _ _).symm⟩

theorem defines_guarded (around : Surroundings) :
    Defines (guarded room inner around) fun arm xs =>
      GuardedWellFormed .braced around arm ∧ xs = Stmt.functionNames arm.2 := by
  unfold guarded
  refine .after keeps_advance fun _ _ => .after (keeps_condition _) fun test htest => ?_
  refine .map (defines_body hinner _) ?_
  rintro body _ ⟨hbody, rfl⟩
  exact ⟨⟨htest, hbody⟩, rfl⟩

omit hinner in
theorem ne_nil_of_arms {around : Surroundings} {s s' : TokenStream}
    {arms : List (Expr × List Stmt)}
    (h : (collect do
      let arm ← guarded room inner around
      if (← check (.name "else")) && (← peekSecond) == .name "if" then
        advance
        return .more arm
      else
        return .last arm) s = .ok (arms, s')) : arms ≠ [] := by
  refine ne_nil_of_collect (fun s s' hitem => ?_) h
  obtain ⟨arm, s₁, -, hitem⟩ := stateBind_eq_ok_iff.1 hitem
  obtain ⟨b, s₂, -, hitem⟩ := stateBind_eq_ok_iff.1 hitem
  obtain ⟨k, s₃, -, hitem⟩ := stateBind_eq_ok_iff.1 hitem
  split at hitem
  · obtain ⟨_, s₄, -, hitem⟩ := stateBind_eq_ok_iff.1 hitem
    cases hitem
  · cases hitem

theorem defines_conditional (around : Surroundings) :
    DefinesStmt .braced around (conditional room inner around) := by
  unfold conditional
  refine .bind (.and (defines_collect (GuardedWellFormed .braced around)
    (fun arm => Stmt.functionNames arm.2) ?_) fun _ _ _ => ne_nil_of_arms) ?_
  · refine .bind (defines_guarded hinner around) ?_
    rintro arm _ ⟨harm, rfl⟩
    refine .after (keeps_check _) fun b _ => .after keeps_peekSecond fun k _ => ?_
    refine .ite (fun _ => ?_) fun _ => .pure ⟨harm, List.append_nil _⟩
    exact .after keeps_advance fun _ _ => .pure ⟨harm, List.append_nil _⟩
  rintro arms _ ⟨hne, harms, rfl⟩
  have hfirst : ∀ last, ∃ condition body rest,
      Arms.ofList arms last = .arm condition body rest := by
    intro last
    cases arms with
    | nil => exact absurd rfl hne
    | cons arm arms => exact ⟨_, _, _, rfl⟩
  refine .after (keeps_eat _) fun b _ => .ite (fun _ => ?_) fun _ => .pure ?_
  · simp only [map_eq_pure_bind, bind_assoc, pure_bind]
    refine .map (defines_body hinner _) ?_
    rintro last _ ⟨hlast, rfl⟩
    refine ⟨⟨hfirst _, Arms.wellFormed_ofList harms ?_⟩, ?_⟩
    · rintro _ ⟨rfl⟩
      exact hlast
    · simp [Stmt.functionNames_cond]
  · refine ⟨⟨hfirst _, Arms.wellFormed_ofList harms fun _ h => nomatch h⟩, ?_⟩
    simp [Stmt.functionNames_cond]

theorem defines_statement (around : Surroundings) :
    DefinesStmts .braced around (statement room inner around) := by
  have hend : ∀ {p : Parser Stmt}, Keeps p (Simple .braced around) →
      DefinesStmts .braced around (do
        let stmt ← p
        endStatement
        return [stmt]) := by
    intro p hp
    refine defines_of_simple (.bind hp fun stmt hstmt => .bind (keeps_expectOp _) fun _ _ => ?_)
    exact .pure (List.forall_mem_singleton.2 hstmt)
  unfold statement
  refine .after keeps_peek fun k _ => ?_
  split
  · exact .after keeps_advance fun _ _ => .pure ⟨trivial, rfl⟩
  · exact defines_braced hinner around
  · exact defines_singleton (defines_function hinner around)
  · exact defines_of_simple (keeps_declaration _ _ _)
  · exact defines_of_simple (keeps_declaration _ _ _)
  · exact defines_of_simple (keeps_declaration _ _ _)
  · exact defines_singleton (defines_forEach hinner around)
  · exact defines_singleton (defines_whileLoop hinner around)
  · exact defines_singleton (defines_conditional hinner around)
  · refine .ite (fun h => ?_) fun _ => defines_fail _
    exact .after keeps_advance fun _ _ => hend (keeps_returned _ h)
  · refine .ite (fun h => ?_) fun _ => defines_fail _
    refine .after keeps_advance fun _ _ => .after (keeps_expectOp _) fun _ _ => ?_
    exact .pure ⟨⟨h, trivial⟩, rfl⟩
  · refine .ite (fun h => ?_) fun _ => defines_fail _
    refine .after keeps_advance fun _ _ => .after (keeps_expectOp _) fun _ _ => ?_
    exact .pure ⟨⟨h, trivial⟩, rfl⟩
  · exact .after keeps_advance fun _ _ => hend (keeps_thrown _ _)
  · exact defines_fail _
  · exact hend (keeps_assignment _ _)

end Blocks

theorem defines_statementAt (room : Nat) (around : Surroundings) :
    DefinesStmts .braced around (statementAt room around) := by
  induction room generalizing around with
  | zero => exact defines_statement (fun _ => defines_fail _) around
  | succ room ih => exact defines_statement ih around

theorem defines_program : DefinesStmts .braced .top program := by
  unfold program
  refine .map (defines_collectStmts _ _ ?_) fun _ _ hstmts => hstmts
  refine .after (keeps_check _) fun b _ => .ite (fun _ => .pure ⟨trivial, rfl⟩) fun _ => ?_
  exact .map (defines_statementAt _ _) fun _ _ hstmts => hstmts

/-- Every tree that is read is well-formed, and its functions have different names. -/
theorem wellFormed_of_parse {source : String} {body : List Stmt} (h : parse source = .ok body) :
    Stmt.AllWellFormed .braced .top body ∧ (Stmt.functionNames body).Nodup := by
  obtain ⟨_, ⟨hwf, rfl⟩, hnodup⟩ := run_defines defines_program (fun _ hts => lexical_tokens hts) h
  exact ⟨hwf, hnodup⟩

end Labyrinth.Braced
