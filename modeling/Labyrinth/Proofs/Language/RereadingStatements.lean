import Labyrinth.Proofs.Language.Rereading
import Labyrinth.Proofs.Language.Stream

/-!
# Printed statements are read again

From the tokens of a printable statement the grammar reads the statement itself, with an assignment
where a declaration of bound names has been printed as one. Comments have no tokens.

Statements stand in lists, and a list is read by the loop of a block or of the whole program. Both
loops **gather** statements: they stop where the list ends, and read a statement everywhere else.

## Main results

* `Stmt.Gathered.cons`: the statements of a list are gathered one after the other.
* `Stmt.gathered`: every list of printable statements is gathered from its tokens.
-/

namespace Labyrinth

open Labyrinth.Parser Labyrinth.Braced

/-! ### Functions to be defined -/

/-- The names of the functions defined in a statement. -/
def Stmt.ownNames (stmt : Stmt) : List String := stmt.definitions.map Definition.name

/-- The names of the functions defined in the arms of a conditional statement. -/
def Arms.ownNames (arms : Arms) : List String := arms.definitions.map Definition.name

theorem Stmt.functionNames_cons (stmt : Stmt) (rest : List Stmt) :
    Stmt.functionNames (stmt :: rest) = stmt.ownNames ++ Stmt.functionNames rest := by
  rw [Stmt.functionNames, Stmt.allDefinitions, List.map_append]
  rfl

/-! ### Statements in a list -/

/-- The parser of the statements in a body, with the given room for it. -/
def innerAt : Nat → Surroundings → Parser (List Stmt)
  | 0, _ => fail .nestingTooDeep
  | room + 1, around => statementAt room around

theorem statementAt_eq (room : Nat) (around : Surroundings) :
    statementAt room around = statement room (innerAt room) around := by
  cases room <;> rfl

/-- A token with which a statement can begin where another one has ended. -/
def TokenKind.BeginsStmt (k : TokenKind) : Prop := k ≠ .op "\x7d" ∧ k ≠ .eof ∧ k ≠ .name "else"

/-- A statement that is **reread** from its tokens: either it has none and vanishes, or it is what
the grammar reads from them, unless an alternative follows. -/
def Stmt.Reread (around : Surroundings) (bound : List String) (stmt : Stmt) : Prop :=
  (stmt.kinds bound = [] ∧ stmt.ownNames = [] ∧ (stmt.rebound bound).uncommented = []) ∨
    (∃ k ks, stmt.kinds bound = k :: ks ∧ k.BeginsStmt) ∧
      ∀ room rest ahead, (View.mk rest ahead).next ≠ .name "else" →
        Yields (statement room (innerAt room) around)
          ⟨stmt.kinds bound ++ rest, stmt.ownNames ++ ahead⟩ ⟨rest, ahead⟩
          (stmt.rebound bound).uncommented

/-- A round that **gathers** statements up to the given tokens. -/
structure Gathers (round : Parser (Next (List Stmt))) (p : Parser (List Stmt))
    (rest : List TokenKind) : Prop where
  more : ∀ v v' stmts, v.next.BeginsStmt → Yields p v v' stmts → Yields round v v' (.more stmts)
  stop : ∀ ahead, Yields round ⟨rest, ahead⟩ ⟨rest, ahead⟩ .stop

/-- A list of statements that is **gathered** from its tokens. -/
structure Stmt.Gathered (around : Surroundings) (bound : List String)
    (stmts : List Stmt) : Prop where
  next : ∀ rest ahead, (View.mk rest ahead).next ≠ .name "else" →
    (View.mk (Stmt.allKinds bound stmts ++ rest) ahead).next ≠ .name "else"
  yields : ∀ room round rest ahead, (View.mk rest ahead).next ≠ .name "else" →
    Gathers round (statementAt room around) rest →
    ∃ pieces, pieces.flatten = Stmt.allUncommented (Stmt.reboundAll bound stmts) ∧
      Yields (collect round) ⟨Stmt.allKinds bound stmts ++ rest, Stmt.functionNames stmts ++ ahead⟩
        ⟨rest, ahead⟩ pieces

namespace Stmt.Gathered

variable {around : Surroundings} {bound : List String} {stmt : Stmt} {stmts : List Stmt}

theorem nil : Stmt.Gathered around bound [] where
  next _ _ hnext := hnext
  yields _ _ _ ahead _ hround := ⟨[], rfl, .collect_stop (hround.stop ahead)⟩

/-- The statements of a list are gathered one after the other. -/
theorem cons (h : stmt.Reread around bound)
    (hrest : Stmt.Gathered around (stmt.boundAfter bound) stmts) :
    Stmt.Gathered around bound (stmt :: stmts) := by
  rcases h with ⟨hkinds, hnames, hstmt⟩ | ⟨⟨k, ks, hkinds, hk⟩, hread⟩
  · refine ⟨fun rest ahead hnext => ?_, fun room round rest ahead hnext hround => ?_⟩
    · rw [Stmt.allKinds, hkinds, List.nil_append]
      exact hrest.next rest ahead hnext
    · rw [Stmt.allKinds, Stmt.functionNames_cons, Stmt.reboundAll, Stmt.allUncommented, hkinds,
        hnames, hstmt]
      exact hrest.yields room round rest ahead hnext hround
  · refine ⟨fun rest ahead _ => ?_, fun room round rest ahead hnext hround => ?_⟩
    · rw [Stmt.allKinds, hkinds]
      exact hk.2.2
    · obtain ⟨pieces, hpieces, hyields⟩ := hrest.yields room round rest ahead hnext hround
      have hfirst := hread room (Stmt.allKinds (stmt.boundAfter bound) stmts ++ rest)
        (Stmt.functionNames stmts ++ ahead) (hrest.next rest _ hnext)
      rw [← statementAt_eq] at hfirst
      refine ⟨(stmt.rebound bound).uncommented :: pieces, ?_, ?_⟩
      · rw [List.flatten_cons, hpieces]
        rfl
      · rw [Stmt.allKinds, Stmt.functionNames_cons, List.append_assoc, List.append_assoc]
        refine .collect_more (hround.more _ _ _ ?_ hfirst) ?_ hyields
        · rw [hkinds]
          exact hk
        · rw [hkinds]
          simp

end Stmt.Gathered

/-! ### Bodies -/

section Bodies

variable {around : Surroundings} {bound : List String} {stmts : List Stmt}

/-- The loop of a block gathers statements up to the closing brace. -/
theorem gathers_braced (p : Parser (List Stmt)) (rest : List TokenKind) :
    Gathers
      (do
        match ← peek with
        | .op "\x7d" => return .stop
        | .eof => failFound (.expected "\x7d")
        | _ => return .more (← p))
      p (.op "\x7d" :: rest) where
  more v v' stmts hv hp := by
    refine .bind yields_peek ?_
    split
    · rename_i heq
      exact absurd heq hv.1
    · rename_i heq
      exact absurd heq hv.2.1
    · exact Yields.map hp
  stop ahead := .bind yields_peek .pure

/-- Statements in braces. -/
theorem yields_braced (h : Stmt.Gathered around bound stmts) (room : Nat) (rest : List TokenKind)
    (ahead : List String) :
    Yields (braced room (innerAt room) around)
      ⟨inBraces (Stmt.allKinds bound stmts) ++ rest, Stmt.functionNames stmts ++ ahead⟩
        ⟨rest, ahead⟩
      (Stmt.allUncommented (Stmt.reboundAll bound stmts)) := by
  simp only [inBraces, List.cons_append, List.append_assoc, List.nil_append]
  refine .bind yields_expectOp (leads_descend fun r hr => ?_)
  subst hr
  obtain ⟨pieces, hpieces, hyields⟩ :=
    h.yields r _ (.op "\x7d" :: rest) ahead nofun (gathers_braced _ rest)
  rw [← hpieces]
  exact .bind hyields (.bind yields_expectOp (.here rfl))

/-- The body of a statement, which is always printed in braces. -/
theorem yields_body (h : Stmt.Gathered around bound stmts) (room : Nat) (rest : List TokenKind)
    (ahead : List String) :
    Yields (body room (innerAt room) around)
      ⟨inBraces (Stmt.allKinds bound stmts) ++ rest, Stmt.functionNames stmts ++ ahead⟩
        ⟨rest, ahead⟩
      (Stmt.allUncommented (Stmt.reboundAll bound stmts)) :=
  .bind (yields_check_of_eq rfl) (yields_braced h room rest ahead)

end Bodies

/-! ### Names and patterns -/

theorem yields_names {names : List String} (h : ∀ x ∈ names, IsFree x) (rest : List TokenKind)
    (ahead : List String) :
    Yields (separated "]" (identifier keywords)) ⟨namesKinds names ++ .op "]" :: rest, ahead⟩
      ⟨rest, ahead⟩ names :=
  yields_separated (by decide) (fun x _ => ⟨.name x, [], rfl, nofun⟩)
    (fun x hx _ _ => yields_identifier (h x hx).1) rest

theorem yields_pattern {p : Pattern} (h : p.Printable) (rest : List TokenKind)
    (ahead : List String) :
    Yields pattern ⟨p.kinds ++ rest, ahead⟩ ⟨rest, ahead⟩ p := by
  cases p with
  | single x =>
    have hx : Yields (identifier keywords) ⟨.name x :: rest, ahead⟩ ⟨rest, ahead⟩ x :=
      yields_identifier (h x List.mem_cons_self).1
    exact .bind (yields_eat_of_ne nofun) (Yields.map hx)
  | tuple names =>
    simp only [Pattern.kinds, List.cons_append, List.append_assoc, List.nil_append]
    exact .bind yields_eat (Yields.map (yields_names h rest ahead))

/-- The parameters of a function. -/
theorem yields_parameters {params : List String} (h : ∀ x ∈ params, IsFree x)
    (hnodup : params.Nodup)
    (rest : List TokenKind) (ahead : List String) :
    Yields (parameters keywords) ⟨parenthesized (namesKinds params) ++ rest, ahead⟩ ⟨rest, ahead⟩
      params := by
  simp only [parenthesized, List.cons_append, List.append_assoc, List.nil_append]
  refine .bind yields_expectOp (.bind ?_ (.bind yields_expectOp .pure))
  -- what is said of all parameters holds of those behind the ones that have been read before
  suffices hfold : ∀ before, (before ++ params).Nodup →
      Yields (fold _ before) ⟨namesKinds params ++ .op ")" :: rest, ahead⟩ ⟨.op ")" :: rest, ahead⟩
        (before ++ params) from hfold [] hnodup
  clear hnodup
  induction params with
  | nil =>
    intro before _
    rw [List.append_nil]
    exact .fold_stop (.bind (yields_check_of_eq rfl) .pure)
  | cons x params ih =>
    intro before hnodup
    obtain ⟨hx, h⟩ := List.forall_mem_cons.1 h
    have hnew : before.contains x = false := by
      have hdisjoint := (List.nodup_append.1 hnodup).2.2
      simpa using fun hmem => hdisjoint x hmem x List.mem_cons_self rfl
    have happend : before ++ x :: params = before ++ [x] ++ params :=
      List.append_cons before x params
    have hparen (ks : List TokenKind) : (View.mk (.name x :: ks) ahead).next ≠ .op ")" := by
      simp [View.next]
    rw [happend] at hnodup ⊢
    cases params with
    | nil =>
      rw [List.append_nil]
      refine .fold_last (.bind (yields_check_of_ne (hparen _)) (.bind (yields_identifier hx.1) ?_))
      rw [hnew]
      exact .bind (yields_eat_of_ne (by simp [View.next])) .pure
    | cons y params =>
      refine .fold_more (.bind (yields_check_of_ne (hparen _))
        (.bind (yields_identifier hx.1) ?_)) ?_
        (ih h (before ++ [x]) hnodup)
      · rw [hnew]
        exact .bind yields_eat .pure
      · exact Nat.lt_succ_of_le (Nat.le_succ _)

/-! ### Expressions and assignments -/

variable {value : Expr} {op : Option BinaryOp} {room : Nat}
  {inner : Surroundings → Parser (List Stmt)} {around : Surroundings} {v v' : View}

/-- A statement that begins with an expression. -/
theorem yields_statement_of_begins {stmts : List Stmt} {n : Nat} (h : v.next.Begins n)
    (hassignment : Yields (do let stmt ← assignment room; endStatement; return [stmt]) v v' stmts) :
    Yields (statement room inner around) v v' stmts := by
  unfold statement
  refine .bind yields_peek ?_
  split
  case h_15 => exact hassignment
  all_goals
    rename_i heq
    rw [heq] at h
    revert h
    simp [TokenKind.Begins, leaders]

theorem TokenKind.Begins.beginsStmt {k : TokenKind} {n : Nat} (h : k.Begins n) : k.BeginsStmt := by
  refine ⟨?_, ?_, ?_⟩
  all_goals
    rintro rfl
    revert h
    simp [TokenKind.Begins, leaders]

/-- A statement that begins with an expression and is read like it. -/
theorem reread_of_begins {stmt : Stmt} {bound : List String} {ks : List TokenKind} {n : Nat}
    (hkinds : stmt.kinds bound = ks) (hks : BeginsAt n ks) (hnames : stmt.ownNames = [])
    (hread : ∀ room rest ahead,
      Yields (do let stmt ← assignment room; endStatement; return [stmt]) ⟨ks ++ rest, ahead⟩
        ⟨rest, ahead⟩ (stmt.rebound bound).uncommented) : stmt.Reread around bound := by
  obtain ⟨k, tail, rfl, hk⟩ := hks
  refine .inr ⟨⟨k, tail, hkinds, hk.beginsStmt⟩, fun room rest ahead _ => ?_⟩
  rw [hkinds, hnames]
  exact yields_statement_of_begins hk (hread room rest ahead)

theorem reread_expr {bound : List String} (h : value.Reread) :
    (Stmt.expr value).Reread around bound := by
  refine reread_of_begins rfl (h.begins.append _) rfl fun room rest ahead => ?_
  simp only [Stmt.kinds, List.append_assoc, List.cons_append, List.nil_append]
  refine .bind (leads_position fun p => .bind (h.yields (room + 1) room rfl) ?_)
    (.bind yields_expectOp .pure)
  refine .bind (yields_oneOf_none fun op b hmem heq => ?_) (.here rfl)
  obtain rfl : ";" = op := TokenKind.op.inj heq
  simp [assignments] at hmem

/-- A place, read as an expression. -/
def Target.expr : Target → Expr
  | name x => .name x
  | index object i => .index object i
  | tuple names => .list (names.map .name)

theorem Target.kinds_expr (target : Target) : target.expr.kinds = target.kinds := by
  cases target with
  | name | index => rfl
  | tuple names =>
    have heach : Expr.eachKinds (names.map .name) = names.map fun x => [.name x] := by
      rw [Expr.eachKinds_eq, List.map_map]
      rfl
    rw [Target.expr, Expr.kinds, heach]
    rfl

theorem targetOf_expr {target : Target} (h : target.WellFormed op) (p : Position) :
    targetOf target.expr op p = .ok target := by
  cases target with
  | name | index => cases op <;> rfl
  | tuple names =>
    obtain ⟨rfl, -⟩ := h
    have hnames : namesOf? (names.map .name) = some names := by
      induction names with
      | nil => rfl
      | cons x names ih =>
        rw [namesOf?] at ih
        rw [List.map_cons, namesOf?, List.mapM_cons, ih]
        rfl
    simp only [Target.expr, targetOf, hnames]

theorem Target.reread {target : Target} (hwf : target.WellFormed op) (hp : target.Printable) :
    target.expr.Reread := by
  cases target with
  | name x => exact Expr.reread_name hp
  | index object i => exact Expr.reread (.index object i) hwf hp
  | tuple names =>
    refine Expr.reread_list fun e he => ?_
    obtain ⟨x, hx, rfl⟩ := List.mem_map.1 he
    exact Expr.reread_name (hp x hx)

theorem lookup_assignments (h : op ∈ assignable) :
    assignments.lookup (assignmentText op) = some op := by
  simp only [assignable, List.mem_cons, List.not_mem_nil, or_false] at h
  rcases h with rfl | rfl | rfl | rfl | rfl | rfl
  all_goals rfl

theorem grip_assignmentText (h : op ∈ assignable) : grip (.op (assignmentText op)) = 0 := by
  simp only [assignable, List.mem_cons, List.not_mem_nil, or_false] at h
  rcases h with rfl | rfl | rfl | rfl | rfl | rfl
  all_goals rfl

/-- An assignment to a place. -/
theorem yields_assignment {target : Target} (hop : op ∈ assignable) (hwf : target.WellFormed op)
    (htarget : target.expr.Reread) (hvalue : value.Reread) (room : Nat) (rest : List TokenKind)
    (ahead : List String) :
    Yields (do let stmt ← assignment room; endStatement; return [stmt])
      ⟨target.kinds ++ .op (assignmentText op) :: (value.kinds ++ [.op ";"]) ++ rest, ahead⟩
      ⟨rest, ahead⟩ [.assign target op value] := by
  rw [← target.kinds_expr, List.append_assoc, List.cons_append, List.append_assoc]
  refine .bind (leads_position fun p => ?_) (.bind yields_expectOp .pure)
  refine .bind (htarget.yields (room + 1) room (grip_assignmentText hop)) ?_
  refine .bind (yields_oneOf (lookup_assignments hop)) ?_
  refine .bind (hvalue.yields (room + 1) room rfl) ?_
  rw [targetOf_expr hwf]
  exact .bind (a := target) (.of_ok fun s hs => ⟨s, rfl, hs⟩) (.here rfl)

theorem reread_assign {bound : List String} {target : Target} (hop : op ∈ assignable)
    (hwf : target.WellFormed op) (htarget : target.expr.Reread) (hvalue : value.Reread) :
    (Stmt.assign target op value).Reread around bound :=
  reread_of_begins rfl ((target.kinds_expr ▸ htarget.begins).append _) rfl
    fun room rest ahead => yields_assignment hop hwf htarget hvalue room rest ahead

/-! ### Declarations -/

/-- A declaration, which consists of a single binding. -/
theorem yields_declaration (word : String) {names : Pattern} {constant : Bool}
    {initial : Option Expr} {ks rest : List TokenKind} {ahead : List String}
    (h : Yields (binding constant room) ⟨ks ++ .op ";" :: rest, ahead⟩ ⟨.op ";" :: rest, ahead⟩
      (.declare names initial constant)) :
    Yields (declaration constant room) ⟨.name word :: (ks ++ [.op ";"]) ++ rest, ahead⟩
      ⟨rest, ahead⟩
      [.declare names initial constant] := by
  rw [List.cons_append, List.append_assoc]
  refine .bind yields_advance (.bind (.collect_last (.bind h ?_)) (.bind yields_expectOp .pure))
  exact .bind (yields_eat_of_ne (by simp [View.next])) .pure

theorem yields_binding {names : Pattern} (hnames : names.Printable) (hvalue : value.Reread)
    (constant : Bool) (room : Nat) (rest : List TokenKind) (ahead : List String) :
    Yields (binding constant room)
      ⟨names.kinds ++ .op "=" :: value.kinds ++ .op ";" :: rest, ahead⟩ ⟨.op ";" :: rest, ahead⟩
      (.declare names (some value) constant) := by
  rw [List.append_assoc, List.cons_append]
  refine .bind (yields_pattern hnames _ ahead) (.bind yields_eat ?_)
  exact .bind (hvalue.yields (room + 1) room rfl) (.here rfl)

/-- A declaration of a value, with the word in front of it. -/
theorem yields_declare {names : Pattern} (hnames : names.Printable) (hvalue : value.Reread)
    (constant : Bool) (room : Nat) (rest : List TokenKind) (ahead : List String) :
    Yields (statement room inner around)
      ⟨.name (if constant then "const" else "let") ::
        (names.kinds ++ .op "=" :: (value.kinds ++ [.op ";"])) ++ rest, ahead⟩ ⟨rest, ahead⟩
      [.declare names (some value) constant] := by
  have hread (word : String) :=
    yields_declaration word (yields_binding hnames hvalue constant room rest ahead)
  simp only [List.append_assoc, List.cons_append] at hread ⊢
  cases constant with
  | true => exact .bind yields_peek (hread "const")
  | false => exact .bind yields_peek (hread "let")

theorem beginsStmt_name {x : String} (h : x ≠ "else") : (TokenKind.name x).BeginsStmt :=
  ⟨nofun, nofun, fun heq => h (TokenKind.name.inj heq)⟩

theorem Pattern.kinds_target (p : Pattern) : p.target.kinds = p.kinds := by
  cases p <;> rfl

theorem Pattern.wellFormed_target {p : Pattern} (h : p.WellFormed) : p.target.WellFormed none := by
  cases p with
  | single x => exact h x List.mem_cons_self
  | tuple names => exact ⟨rfl, h⟩

theorem Pattern.printable_target {p : Pattern} (h : p.Printable) : p.target.Printable := by
  cases p with
  | single x => exact h x List.mem_cons_self
  | tuple names => exact h

/-- A declaration of a value, which is read as an assignment where it has been printed as one. -/
theorem reread_declare {bound : List String} {names : Pattern} {constant : Bool}
    (hwf : names.WellFormed) (hnames : names.Printable) (hvalue : value.Reread) :
    (Stmt.declare names (some value) constant).Reread around bound := by
  by_cases hassign : constant = false ∧ names.names.all (· ∈ bound) = true
  · obtain ⟨rfl, hall⟩ := hassign
    have hrebound : (Stmt.declare names (some value) false).rebound bound =
        .assign names.target none value := by rw [Stmt.rebound, if_pos hall]
    have hkinds : (Stmt.declare names (some value) false).kinds bound =
        (Stmt.assign names.target none value).kinds bound := by
      simp only [Stmt.kinds, hall, if_true, Bool.false_eq_true, if_false, names.kinds_target,
        List.nil_append]
      rfl
    have htarget := Pattern.wellFormed_target hwf
    have hread : (Stmt.assign names.target none value).Reread around bound :=
      reread_assign (by decide) htarget
        (Target.reread htarget (Pattern.printable_target hnames)) hvalue
    rw [Stmt.Reread] at hread ⊢
    rw [hkinds, hrebound]
    exact hread
  · have hrebound : (Stmt.declare names (some value) constant).rebound bound =
        .declare names (some value) constant := by
      cases constant with
      | true => rfl
      | false => rw [Stmt.rebound, if_neg fun hall => hassign ⟨rfl, hall⟩]
    have hkinds : (Stmt.declare names (some value) constant).kinds bound =
        .name (if constant then "const" else "let") ::
          (names.kinds ++ .op "=" :: (value.kinds ++ [.op ";"])) := by
      cases constant with
      | true => rfl
      | false =>
        have hall : ¬names.names.all (· ∈ bound) = true := fun hall => hassign ⟨rfl, hall⟩
        simp only [Stmt.kinds, if_neg hall, Bool.false_eq_true, if_false]
        rfl
    refine .inr ⟨⟨_, _, hkinds, beginsStmt_name ?_⟩, fun room rest ahead _ => ?_⟩
    · cases constant <;> decide
    · rw [hkinds, hrebound]
      exact yields_declare hnames hvalue constant room rest ahead

/-- A declaration of a name that has no value yet. -/
theorem reread_declare_none {bound : List String} {x : String} (hx : IsFree x) :
    (Stmt.declare (.single x) none false).Reread around bound := by
  refine .inr ⟨⟨.name "let", _, rfl, beginsStmt_name (by decide)⟩, fun room rest ahead _ => ?_⟩
  refine .bind yields_peek (yields_declaration "let" ?_)
  refine .bind (yields_pattern (p := .single x) (List.forall_mem_singleton.2 hx) _ ahead) ?_
  exact .bind (yields_eat_of_ne (by simp [View.next])) .pure

/-! ### Statements that leave -/

section Leaving

variable {bound : List String}

theorem reread_return_none (h : around.inFunction = true) :
    (Stmt.return none).Reread around bound := by
  refine .inr ⟨⟨.name "return", _, rfl, beginsStmt_name (by decide)⟩, fun room rest ahead _ => ?_⟩
  refine .bind yields_peek ?_
  simp only [View.next, Stmt.kinds, List.cons_append, List.headD_cons, h, if_true]
  exact .bind yields_advance (.bind (.bind yields_peek .pure) (.bind yields_expectOp .pure))

theorem yields_returned (h : value.Reread) (room : Nat) (rest : List TokenKind)
    (ahead : List String) :
    Yields (returned room) ⟨value.kinds ++ .op ";" :: rest, ahead⟩ ⟨.op ";" :: rest, ahead⟩
      (.return (some value)) := by
  obtain ⟨k, ks, hks, hk⟩ := h.begins
  have hnext : (View.mk (value.kinds ++ .op ";" :: rest) ahead).next = k := by rw [hks]; rfl
  refine .bind yields_peek ?_
  rw [hnext]
  split
  · simp [TokenKind.Begins] at hk
  · simp [TokenKind.Begins] at hk
  · exact .bind (h.yields (room + 1) room rfl) (.here rfl)

theorem reread_return (h : around.inFunction = true) (hvalue : value.Reread) :
    (Stmt.return (some value)).Reread around bound := by
  refine .inr ⟨⟨.name "return", _, rfl, beginsStmt_name (by decide)⟩, fun room rest ahead _ => ?_⟩
  refine .bind yields_peek ?_
  simp only [View.next, Stmt.kinds, List.cons_append, List.headD_cons, List.append_assoc,
    List.nil_append, h, if_true]
  exact .bind yields_advance
    (.bind (yields_returned hvalue room rest ahead) (.bind yields_expectOp .pure))

theorem reread_break (h : around.inLoop = true) : Stmt.break.Reread around bound := by
  refine .inr ⟨⟨.name "break", _, rfl, beginsStmt_name (by decide)⟩, fun room rest ahead _ => ?_⟩
  refine .bind yields_peek ?_
  simp only [View.next, Stmt.kinds, List.cons_append, List.headD_cons, h, if_true]
  exact .bind yields_advance (.bind yields_expectOp .pure)

theorem reread_continue (h : around.inLoop = true) : Stmt.continue.Reread around bound := by
  refine .inr ⟨⟨.name "continue", _, rfl, beginsStmt_name (by decide)⟩, fun room rest ahead _ => ?_⟩
  refine .bind yields_peek ?_
  simp only [View.next, Stmt.kinds, List.cons_append, List.headD_cons, h, if_true]
  exact .bind yields_advance (.bind yields_expectOp .pure)

theorem yields_thrown {className : String} (hname : IsFree className) (h : value.Reread)
    (room : Nat) (rest : List TokenKind) (ahead : List String) :
    Yields (thrown room) ⟨.name "new" :: .name className ::
      (parenthesized value.kinds ++ rest), ahead⟩
      ⟨rest, ahead⟩ (.throw className value) := by
  simp only [parenthesized, List.cons_append, List.append_assoc, List.nil_append]
  refine .bind yields_eat (.bind (yields_identifier hname.1) (.bind yields_expectOp ?_))
  exact .bind (h.yields (room + 1) room rfl) (.bind yields_expectOp (.here rfl))

theorem reread_throw {className : String} (hname : IsFree className) (hmessage : value.Reread) :
    (Stmt.throw className value).Reread around bound := by
  refine .inr ⟨⟨.name "throw", _, rfl, beginsStmt_name (by decide)⟩, fun room rest ahead _ => ?_⟩
  simp only [Stmt.kinds, List.cons_append, List.append_assoc, List.nil_append]
  exact .bind yields_peek (.bind yields_advance
    (.bind (yields_thrown hname hmessage room _ ahead) (.bind yields_expectOp .pure)))

end Leaving

/-! ### Statements with bodies -/

section Bodies

variable {bound : List String} {stmts : List Stmt}

theorem reread_function {f : String} {params : List String} (hf : IsFree f)
    (hparams : ∀ x ∈ params, IsFree x) (hnodup : params.Nodup)
    (hbody : Stmt.Gathered .function params stmts) :
    (Stmt.function f params stmts).Reread around bound := by
  refine .inr ⟨⟨.name "function", _, rfl, beginsStmt_name (by decide)⟩, fun room rest ahead _ => ?_⟩
  simp only [Stmt.kinds, List.cons_append, List.append_assoc]
  refine .bind yields_peek (Yields.map (g := fun stmt => [stmt]) ?_)
  refine .bind yields_advance (.bind (yields_functionName hf.1) ?_)
  refine .bind (yields_parameters hparams hnodup _ _) ?_
  exact .bind (yields_braced hbody room rest ahead) (.here rfl)

theorem yields_condition (h : value.Reread) (room : Nat) (rest : List TokenKind)
    (ahead : List String) :
    Yields (condition room) ⟨parenthesized value.kinds ++ rest, ahead⟩ ⟨rest, ahead⟩ value := by
  simp only [parenthesized, List.cons_append, List.append_assoc, List.nil_append]
  refine .bind yields_expectOp (.bind (h.yields (room + 1) room rfl) ?_)
  exact .bind yields_expectOp .pure

theorem reread_while (hcondition : value.Reread) (hbody : Stmt.Gathered around.loop bound stmts) :
    (Stmt.while value stmts).Reread around bound := by
  refine .inr ⟨⟨.name "while", _, rfl, beginsStmt_name (by decide)⟩, fun room rest ahead _ => ?_⟩
  simp only [Stmt.kinds, List.cons_append, List.append_assoc]
  refine .bind yields_peek (Yields.map (g := fun stmt => [stmt]) ?_)
  refine .bind yields_advance (.bind (yields_condition hcondition room _ _) ?_)
  exact .bind (yields_body hbody room rest ahead) (.here rfl)

theorem reread_forEach {names : Pattern} (hnames : names.Printable) (hiterable : value.Reread)
    (hbody : Stmt.Gathered around.loop (bindNames names.names bound) stmts) :
    (Stmt.forEach names value stmts).Reread around bound := by
  refine .inr ⟨⟨.name "for", _, rfl, beginsStmt_name (by decide)⟩, fun room rest ahead _ => ?_⟩
  simp only [Stmt.kinds, parenthesized, List.cons_append, List.append_assoc, List.nil_append]
  refine .bind yields_peek (Yields.map (g := fun stmt => [stmt]) ?_)
  refine .bind yields_advance (.bind yields_expectOp (.bind yields_eat ?_))
  refine .bind (yields_pattern hnames _ _) (.bind yields_expectWord ?_)
  refine .bind (hiterable.yields (room + 1) room rfl) (.bind yields_expectOp ?_)
  exact .bind (yields_body hbody room rest ahead) (.here rfl)

end Bodies

/-! ### Conditional statements -/

/-- Reads an arm of a conditional statement. -/
def armRound (room : Nat) (around : Surroundings) : Parser (Next (Expr × List Stmt)) := do
  let arm ← guarded room (innerAt room) around
  if (← check (.name "else")) && (← peekSecond) == .name "if" then
    advance
    return .more arm
  else
    return .last arm

/-- Reads what is left of a conditional statement behind its arms. -/
def lastBody (room : Nat) (around : Surroundings) (arms : List (Expr × List Stmt)) :
    Parser Stmt := do
  let last ← if ← eat (.name "else") then some <$> body room (innerAt room) around else pure none
  return .cond (Arms.ofList arms last)

theorem conditional_eq (room : Nat) (around : Surroundings) :
    conditional room (innerAt room) around = (do
      let arms ← collect (armRound room around)
      lastBody room around arms) := rfl

/-- Arms that are **reread** after another one, which the grammar reads up to them. -/
def Arms.Reread (around : Surroundings) (bound : List String) (arms : Arms) : Prop :=
  ∀ room rest ahead first v, (View.mk rest ahead).next ≠ .name "else" →
    (arms.kinds bound ++ rest).length < v.kinds.length →
    Yields (guarded room (innerAt room) around) v
      ⟨arms.kinds bound ++ rest, arms.ownNames ++ ahead⟩ first →
    ∃ others last v', Arms.ofList others last = (arms.rebound bound).uncommented ∧
      Yields (collect (armRound room around)) v v' (first :: others) ∧
      ∀ pairs, Yields (lastBody room around pairs) v' ⟨rest, ahead⟩ (.cond (Arms.ofList pairs last))

section Arms

variable {bound : List String} {stmts : List Stmt} {arms : Arms}

theorem reread_done : Arms.done.Reread around bound := by
  intro room rest ahead first v hnext _ hfirst
  refine ⟨[], none, ⟨rest, ahead⟩, rfl, .collect_last (.bind hfirst ?_), fun pairs => ?_⟩
  · exact .bind (yields_check_of_ne hnext) (.bind yields_peekSecond .pure)
  · exact .bind (yields_eat_of_ne hnext) .pure

theorem reread_otherwise (hbody : Stmt.Gathered around bound stmts) :
    (Arms.otherwise stmts).Reread around bound := by
  intro room rest ahead first v _ _ hfirst
  have hcollect : Yields (collect (armRound room around)) v
      ⟨.name "else" :: inBraces (Stmt.allKinds bound stmts) ++ rest,
        Stmt.functionNames stmts ++ ahead⟩ [first] :=
    .collect_last (.bind hfirst
      (.bind (yields_check_of_eq rfl) (.bind yields_peekSecond .pure)))
  refine ⟨[], some _, _, rfl, hcollect, fun pairs => ?_⟩
  exact .bind yields_eat (.bind (Yields.map (yields_body hbody room rest ahead)) .pure)

theorem yields_guarded (hcondition : value.Reread) (hbody : Stmt.Gathered around bound stmts)
    (room : Nat) (rest : List TokenKind) (ahead : List String) :
    Yields (guarded room (innerAt room) around)
      ⟨.name "if" :: (parenthesized value.kinds ++ inBraces (Stmt.allKinds bound stmts)) ++ rest,
        Stmt.functionNames stmts ++ ahead⟩
      ⟨rest, ahead⟩ (value, Stmt.allUncommented (Stmt.reboundAll bound stmts)) := by
  rw [List.cons_append, List.append_assoc]
  refine .bind yields_advance (.bind (yields_condition hcondition room _ _) ?_)
  exact Yields.map (yields_body hbody room rest ahead)

theorem Arms.ownNames_arm (condition : Expr) :
    (Arms.arm condition stmts arms).ownNames = Stmt.functionNames stmts ++ arms.ownNames :=
  List.map_append

theorem length_guarded (rest : List TokenKind) :
    rest.length < (.name "if" :: (parenthesized value.kinds ++
      inBraces (Stmt.allKinds bound stmts)) ++ rest).length := by
  rw [List.cons_append, List.length_cons, List.length_append]
  omega

theorem reread_arm (hcondition : value.Reread) (hbody : Stmt.Gathered around bound stmts)
    (harms : arms.Reread around bound) : (Arms.arm value stmts arms).Reread around bound := by
  intro room rest ahead first v hnext hle hfirst
  rw [Arms.ownNames_arm] at hfirst
  simp only [Arms.kinds, List.cons_append, List.append_assoc] at hfirst hle
  have hguarded := yields_guarded hcondition hbody room (arms.kinds bound ++ rest)
    (arms.ownNames ++ ahead)
  obtain ⟨others, last, v', hothers, hcollect, hlast⟩ :=
    harms room rest ahead _ _ hnext (length_guarded _) hguarded
  refine ⟨_ :: others, last, v', ?_, .collect_more (.bind hfirst ?_) ?_ hcollect, hlast⟩
  · rw [Arms.ofList, hothers]
    rfl
  · refine .bind (yields_check_of_eq rfl) (.bind yields_peekSecond ?_)
    simp only [List.cons_append, List.append_assoc]
    exact .bind yields_advance .pure
  · simp only [List.cons_append, List.append_assoc, List.length_cons] at hle ⊢
    omega

/-- A conditional statement, whose arms behind the first one are reread. -/
theorem reread_cond (hcondition : value.Reread) (hbody : Stmt.Gathered around bound stmts)
    (harms : arms.Reread around bound) :
    (Stmt.cond (.arm value stmts arms)).Reread around bound := by
  refine .inr ⟨⟨.name "if", _, rfl, beginsStmt_name (by decide)⟩, fun room rest ahead hnext => ?_⟩
  have hguarded := yields_guarded hcondition hbody room (arms.kinds bound ++ rest)
    (arms.ownNames ++ ahead)
  obtain ⟨others, last, v', hothers, hcollect, hlast⟩ :=
    harms room rest ahead _ _ hnext (length_guarded _) hguarded
  have hnames : (Stmt.cond (.arm value stmts arms)).ownNames =
      Stmt.functionNames stmts ++ arms.ownNames := Arms.ownNames_arm value
  have harm : ((Stmt.cond (.arm value stmts arms)).rebound bound).uncommented =
      [.cond (.arm value (Stmt.allUncommented (Stmt.reboundAll bound stmts))
        (arms.rebound bound).uncommented)] := rfl
  rw [hnames, harm, ← hothers]
  simp only [Stmt.kinds, Arms.kinds, List.tail_cons, List.cons_append, List.append_assoc]
    at hcollect ⊢
  refine .bind yields_peek (Yields.map (g := fun stmt => [stmt]) ?_)
  rw [conditional_eq]
  exact .bind hcollect (hlast _)

end Arms

/-! ### All statements -/

mutual

/-- Every well-formed and printable statement is reread. -/
theorem Stmt.reread {d : Dialect} {around : Surroundings} {bound : List String} :
    (stmt : Stmt) → stmt.WellFormed d around → stmt.Printable → stmt.Reread around bound
  | .comment _ => fun _ _ => .inl ⟨rfl, rfl, rfl⟩
  | .function _ _ body => fun ⟨_, _, hnodup, hbody⟩ ⟨hf, hparams, hprintable⟩ =>
    reread_function hf hparams hnodup (Stmt.gathered body hbody hprintable)
  | .declare pattern (some value) _ => fun ⟨hwf, hvalue, _⟩ ⟨hnames, hprintable⟩ =>
    reread_declare hwf hnames (value.reread (hvalue value rfl) (hprintable value rfl))
  | .declare pattern none constant => fun ⟨_, _, hnone, _⟩ ⟨hnames, _⟩ => by
    obtain ⟨-, rfl, x, rfl⟩ := hnone rfl
    exact reread_declare_none (hnames x List.mem_cons_self)
  | .assign target _ value => fun ⟨hop, htarget, hvalue⟩ ⟨hplace, hprintable⟩ =>
    reread_assign hop htarget (Target.reread htarget hplace) (value.reread hvalue hprintable)
  | .expr value => fun hwf hprintable => reread_expr (value.reread hwf hprintable)
  | .cond (.arm condition body rest) => fun ⟨_, hcondition, hbody, hrest⟩ ⟨hc, hb, hr⟩ =>
    reread_cond (condition.reread hcondition hc) (Stmt.gathered body hbody hb)
      (Arms.reread rest hrest hr)
  | .cond .done => fun ⟨⟨_, _, _, h⟩, _⟩ => nomatch h
  | .cond (.otherwise _) => fun ⟨⟨_, _, _, h⟩, _⟩ => nomatch h
  | .while condition body => fun ⟨hcondition, hbody⟩ ⟨hc, hb⟩ =>
    reread_while (condition.reread hcondition hc) (Stmt.gathered body hbody hb)
  | .forEach _ iterable body => fun ⟨_, hiterable, hbody⟩ ⟨hnames, hi, hb⟩ =>
    reread_forEach hnames (iterable.reread hiterable hi) (Stmt.gathered body hbody hb)
  | .return none => fun ⟨haround, _⟩ _ => reread_return_none haround
  | .return (some value) => fun ⟨haround, hvalue⟩ hprintable =>
    reread_return haround (value.reread (hvalue value rfl) (hprintable value rfl))
  | .break => fun haround _ => reread_break haround
  | .continue => fun haround _ => reread_continue haround
  | .throw _ message => fun ⟨_, hmessage⟩ ⟨hname, hprintable⟩ =>
    reread_throw hname (message.reread hmessage hprintable)

/-- Well-formed and printable statements are gathered from their tokens. -/
theorem Stmt.gathered {d : Dialect} {around : Surroundings} {bound : List String} :
    (stmts : List Stmt) → Stmt.AllWellFormed d around stmts → Stmt.AllPrintable stmts →
      Stmt.Gathered around bound stmts
  | [] => fun _ _ => .nil
  | stmt :: rest => fun ⟨hwf, hrest⟩ ⟨hprintable, hothers⟩ =>
    .cons (Stmt.reread stmt hwf hprintable) (Stmt.gathered rest hrest hothers)

/-- Well-formed and printable arms are reread. -/
theorem Arms.reread {d : Dialect} {around : Surroundings} {bound : List String} :
    (arms : Arms) → arms.WellFormed d around → arms.Printable → arms.Reread around bound
  | .done => fun _ _ => reread_done
  | .otherwise body => fun hwf hprintable => reread_otherwise (Stmt.gathered body hwf hprintable)
  | .arm condition body rest => fun ⟨hcondition, hbody, hrest⟩ ⟨hc, hb, hr⟩ =>
    reread_arm (condition.reread hcondition hc) (Stmt.gathered body hbody hb)
      (Arms.reread rest hrest hr)

end

end Labyrinth
