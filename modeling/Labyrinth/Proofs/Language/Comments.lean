import Labyrinth.Proofs.Language.PrintedTokens

/-!
# Comments in printed programs

Every statement is printed on lines of its own, and only a comment is printed on a line that begins
like one. The text of a program without its **comment lines** is therefore the text of the program
without its comments.

## Main results

* `Stmt.uncommented_rebound`: comments can be left out before bound names are assigned to, or after.
* `withoutComments_print`: the comment lines of a printed program are its comments.
-/

namespace Labyrinth

open Labyrinth.Braced

/-! ### Texts without comments -/

/-- A line on which nothing but blanks stands before a comment. -/
def isCommentLine (cs : List Char) : Bool := ['/', '/'].isPrefixOf (cs.dropWhile (· == ' '))

/-- A text without the lines that are comments. -/
def withoutComments (text : String) : String :=
  String.ofList
    (['\n'].intercalate ((text.toList.splitOn '\n').filter fun cs => !isCommentLine cs))

/-- A text that stands on a single line. -/
def OneLine (text : String) : Prop := '\n' ∉ text.toList

instance (text : String) : Decidable (OneLine text) := inferInstanceAs (Decidable (_ ∉ _))

/-- Lines are separated by line feeds, and there is nothing behind the last one. -/
theorem toList_unlines (lines : List String) :
    (Text.unlines lines).toList = ['\n'].intercalate (lines.map String.toList ++ [[]]) := by
  induction lines with
  | nil => rfl
  | cons l lines ih =>
    have hlines : Text.unlines (l :: lines) = l ++ "\n" ++ Text.unlines lines := by
      rw [Text.unlines, List.map_cons, String.join_cons]
      rfl
    have hne : lines.map String.toList ++ [[]] ≠ [] := by simp
    rw [hlines, String.toList_append, String.toList_append, ih, List.map_cons, List.cons_append,
      List.intercalate_cons_of_ne_nil hne]
    simp

/-- The comment lines among lines are left out. -/
theorem withoutComments_unlines {lines : List String} (h : ∀ l ∈ lines, OneLine l) :
    withoutComments (Text.unlines lines) =
      Text.unlines (lines.filter fun l => !isCommentLine l.toList) := by
  have hsplit : (Text.unlines lines).toList.splitOn '\n' = lines.map String.toList ++ [[]] := by
    rw [toList_unlines]
    refine List.splitOn_intercalate '\n' (fun cs hcs => ?_) (by simp)
    rcases List.mem_append.1 hcs with hcs | hcs
    · obtain ⟨l, hl, rfl⟩ := List.mem_map.1 hcs
      exact h l hl
    · rw [List.mem_singleton.1 hcs]
      exact List.not_mem_nil
  have hfilter : (lines.map String.toList ++ [[]]).filter (fun cs => !isCommentLine cs) =
      (lines.filter fun l => !isCommentLine l.toList).map String.toList ++ [[]] := by
    rw [List.filter_append, List.filter_map]
    rfl
  rw [withoutComments, hsplit, hfilter, ← toList_unlines, String.ofList_toList]

/-! ### Texts on a single line -/

namespace OneLine

theorem append {text text' : String} (h : OneLine text) (h' : OneLine text') :
    OneLine (text ++ text') := by
  rw [OneLine, String.toList_append, List.mem_append]
  exact not_or.2 ⟨h, h'⟩

theorem name {x : String} (h : IsName x) : OneLine x := by
  obtain ⟨c, cs, hx, hc, hcs⟩ := h
  rw [OneLine, hx, List.mem_cons]
  rintro (rfl | hmem)
  · revert hc
    decide
  · exact absurd (hcs _ hmem) (by decide)

theorem digits (n : Nat) : OneLine n.repr := fun hmem => nomatch isDigit_of_mem_repr hmem

theorem int (n : Int64) : OneLine (toString n) := by
  have htext : toString n = n.toInt.repr := rfl
  rw [htext]
  cases n.toInt with
  | ofNat m => exact digits m
  | negSucc m => exact .append (by decide) (digits _)

theorem quote (s : String) : OneLine (quote s) := by
  refine .append (.append (by decide) ?_) (by decide)
  rw [OneLine, String.toList_ofList, List.mem_flatMap]
  rintro ⟨c, -, hmem⟩
  unfold escape at hmem
  split at hmem
  all_goals simp at hmem
  rename_i hnewline _ _ _
  exact hnewline hmem.symm

theorem names {names : List String} (h : ∀ x ∈ names, IsName x) : OneLine (namesText names) := by
  induction names with
  | nil => decide
  | cons x names ih =>
    obtain ⟨hx, hnames⟩ := List.forall_mem_cons.1 h
    cases names with
    | nil =>
      rw [namesText, String.intercalate_singleton]
      exact name hx
    | cons y names =>
      rw [namesText, String.intercalate_cons_cons]
      exact .append (.append (name hx) (by decide)) (ih hnames)

theorem enclose {least : Nat} {e : Expr} {text : String} (h : OneLine text) :
    OneLine (enclose least e text) := by
  unfold Braced.enclose
  split
  · exact .append (.append (by decide) h) (by decide)
  · exact h

/-- A callee, and its arguments in parentheses. -/
theorem call {callee text : String} (h : OneLine callee) (h' : OneLine text) :
    OneLine (callee ++ "(" ++ text ++ ")") :=
      .append (.append (.append h (by decide)) h') (by decide)

/-- Two operands, and an operator between them. -/
theorem operation {lhs op rhs : String} (hl : OneLine lhs) (hop : OneLine op) (hr : OneLine rhs) :
    OneLine (lhs ++ op ++ rhs) := .append (.append hl hop) hr

end OneLine

mutual

/-- An expression is printed on a single line. -/
theorem Expr.oneLine : (e : Expr) → e.WellFormed → OneLine (exprText e)
  | .literal .null, _ => by decide
  | .literal (.bool true), _ => by decide
  | .literal (.bool false), _ => by decide
  | .literal (.int n), _ => .int n
  | .literal (.str s), _ => .quote s
  | .name _, hwf => .name hwf
  | .list items, hwf => .append (.append (by decide) (Expr.oneLine_args items hwf)) (by decide)
  | .emptySet, _ => by decide
  | .setOf source, hwf => .append (.append (by decide) (Expr.oneLine source hwf)) (by decide)
  | .emptyMap, _ => by decide
  | .mapOf source, hwf => .append (.append (by decide) (Expr.oneLine source hwf)) (by decide)
  | .unary .not operand, hwf => .append (by decide) (.enclose (Expr.oneLine operand hwf))
  | .unary .negate operand, hwf => .append (by decide) (.enclose (Expr.oneLine operand hwf.2))
  | .binary op lhs rhs, hwf => by
    have hop : OneLine (operatorText op) := by cases op <;> decide
    exact .append (.append (.append (.append (Expr.oneLine lhs hwf.1).enclose (by decide)) hop)
      (by decide)) (Expr.oneLine rhs hwf.2).enclose
  | .logical .and lhs rhs, hwf =>
    .operation (Expr.oneLine lhs hwf.1).enclose (by decide) (Expr.oneLine rhs hwf.2).enclose
  | .logical .or lhs rhs, hwf =>
    .operation (Expr.oneLine lhs hwf.1).enclose (by decide) (Expr.oneLine rhs hwf.2).enclose
  | .call _ args, hwf => .call (.name hwf.1) (Expr.oneLine_args args hwf.2.2)
  | .builtin function args, hwf => by
    have hcallee : OneLine (builtinText function) := by cases function <;> decide
    have hcall := hcallee.call (Expr.oneLine_args args hwf)
    cases function with
    | len =>
      obtain _ | ⟨target, _ | ⟨second, others⟩⟩ := args
      · exact hcall
      · exact .append (Expr.oneLine target hwf.1).enclose (by decide)
      · exact hcall
    | _ => exact hcall
  | .capability c args, hwf => by
    have hname := OneLine.name (isName_capability c)
    have hargs := Expr.oneLine_args args hwf.2
    cases c with
    | move d => exact .call (.append (by decide) hname) hargs
    | _ => exact .call hname hargs
  | .method receiver _ args, hwf =>
    .call (.operation (Expr.oneLine receiver hwf.2.1).enclose (by decide)
      (.name (isName_bracedName hwf.1))) (Expr.oneLine_args args hwf.2.2)
  | .index object i, hwf =>
    .append (.operation (Expr.oneLine object hwf.1).enclose (by decide) (Expr.oneLine i hwf.2))
      (by decide)
  | .attribute object _, hwf =>
    .operation (Expr.oneLine object hwf.2).enclose (by decide) (.name hwf.1)

theorem Expr.oneLine_args : (es : List Expr) → Expr.AllWellFormed es → OneLine (argsText es)
  | [], _ => by decide
  | [e], hwf => Expr.oneLine e hwf.1
  | e :: e' :: rest, hwf =>
    .operation (Expr.oneLine e hwf.1) (by decide) (Expr.oneLine_args (e' :: rest) hwf.2)

end

/-! ### Names that are bound by comments -/

theorem Stmt.allBoundAfter_append (bound : List String) (xs ys : List Stmt) :
    Stmt.allBoundAfter bound (xs ++ ys) = Stmt.allBoundAfter (Stmt.allBoundAfter bound xs) ys := by
  induction xs generalizing bound with
  | nil => rfl
  | cons x xs ih => exact ih (x.boundAfter bound)

mutual

/-- A comment binds no name. -/
theorem Stmt.boundAfter_uncommented (bound : List String) :
    (stmt : Stmt) → Stmt.allBoundAfter bound stmt.uncommented = stmt.boundAfter bound
  | .comment _ => rfl
  | .function .. => rfl
  | .declare .. => rfl
  | .assign .. => rfl
  | .expr _ => rfl
  | .cond arms => congrArg (Option.getD · bound) (Arms.boundAfter_uncommented bound arms)
  | .while .. => rfl
  | .forEach .. => rfl
  | .return _ => rfl
  | .break => rfl
  | .continue => rfl
  | .throw .. => rfl

theorem Stmt.allBoundAfter_uncommented (bound : List String) :
    (stmts : List Stmt) →
      Stmt.allBoundAfter bound (Stmt.allUncommented stmts) = Stmt.allBoundAfter bound stmts
  | [] => rfl
  | stmt :: rest => by
    rw [Stmt.allUncommented, Stmt.allBoundAfter_append, Stmt.boundAfter_uncommented bound stmt,
      Stmt.allBoundAfter_uncommented _ rest, Stmt.allBoundAfter]

theorem Arms.boundAfter_uncommented (bound : List String) :
    (arms : Arms) → arms.uncommented.boundAfter bound = arms.boundAfter bound
  | .done => rfl
  | .otherwise body => congrArg some (Stmt.allBoundAfter_uncommented bound body)
  | .arm _ body rest => by
    rw [Arms.uncommented, Arms.boundAfter, Arms.boundAfter,
      Stmt.allBoundAfter_uncommented bound body,
      Arms.boundAfter_uncommented bound rest]

end

theorem Stmt.reboundAll_append (bound : List String) (xs ys : List Stmt) :
    Stmt.reboundAll bound (xs ++ ys) =
      Stmt.reboundAll bound xs ++ Stmt.reboundAll (Stmt.allBoundAfter bound xs) ys := by
  induction xs generalizing bound with
  | nil => rfl
  | cons x xs ih => exact congrArg (x.rebound bound :: ·) (ih (x.boundAfter bound))

mutual

/-- Comments can be left out before bound names are assigned to, or after. -/
theorem Stmt.uncommented_rebound (bound : List String) :
    (stmt : Stmt) → (stmt.rebound bound).uncommented = Stmt.reboundAll bound stmt.uncommented
  | .comment _ => rfl
  | .function _ params body => by
    simp only [Stmt.rebound, Stmt.uncommented, Stmt.reboundAll,
      Stmt.allUncommented_reboundAll params body]
  | .declare _ none _ => rfl
  | .declare _ (some _) true => rfl
  | .declare pattern (some value) false => by
    simp only [Stmt.rebound, Stmt.uncommented, Stmt.reboundAll]
    split
    · rfl
    · rfl
  | .assign .. => rfl
  | .expr _ => rfl
  | .cond arms => by
    simp only [Stmt.rebound, Stmt.uncommented, Stmt.reboundAll, Arms.uncommented_rebound bound arms]
  | .while _ body => by
    simp only [Stmt.rebound, Stmt.uncommented, Stmt.reboundAll,
      Stmt.allUncommented_reboundAll bound body]
  | .forEach pattern _ body => by
    simp only [Stmt.rebound, Stmt.uncommented, Stmt.reboundAll,
      Stmt.allUncommented_reboundAll (bindNames pattern.names bound) body]
  | .return _ => rfl
  | .break => rfl
  | .continue => rfl
  | .throw .. => rfl

theorem Stmt.allUncommented_reboundAll (bound : List String) :
    (stmts : List Stmt) → Stmt.allUncommented (Stmt.reboundAll bound stmts) =
      Stmt.reboundAll bound (Stmt.allUncommented stmts)
  | [] => rfl
  | stmt :: rest => by
    rw [Stmt.reboundAll, Stmt.allUncommented, Stmt.allUncommented, Stmt.reboundAll_append,
      Stmt.boundAfter_uncommented, Stmt.uncommented_rebound bound stmt,
      Stmt.allUncommented_reboundAll _ rest]

theorem Arms.uncommented_rebound (bound : List String) :
    (arms : Arms) → (arms.rebound bound).uncommented = arms.uncommented.rebound bound
  | .done => rfl
  | .otherwise body => congrArg Arms.otherwise (Stmt.allUncommented_reboundAll bound body)
  | .arm condition body rest => by
    rw [Arms.rebound, Arms.uncommented, Arms.uncommented, Arms.rebound,
      Stmt.allUncommented_reboundAll bound body, Arms.uncommented_rebound bound rest]

end

/-! ### Lines of comments -/

/-- Lines of which the given ones are left without comments. -/
structure Leaves (lines left : List String) : Prop where
  oneLine : ∀ l ∈ lines, OneLine l
  left_eq : left = lines.filter fun l => !isCommentLine l.toList

namespace Leaves

variable {lines left further others : List String} {text : String}

theorem nil : Leaves [] [] := ⟨nofun, rfl⟩

theorem append (h : Leaves lines left) (h' : Leaves further others) :
    Leaves (lines ++ further) (left ++ others) where
  oneLine := List.forall_mem_append.2 ⟨h.oneLine, h'.oneLine⟩
  left_eq := by rw [List.filter_append, ← h.left_eq, ← h'.left_eq]

theorem oneLine_line (depth : Nat) (h : OneLine text) : OneLine (Braced.line depth text) := by
  refine .append ?_ h
  rw [OneLine, String.toList_ofList]
  exact fun hmem => absurd (List.eq_of_mem_replicate hmem) (by decide)

theorem isCommentLine_line (depth : Nat) (text : String) :
    isCommentLine (Braced.line depth text).toList = isCommentLine text.toList := by
  have hblanks (n : Nat) (cs : List Char) :
      (List.replicate n ' ' ++ cs).dropWhile (· == ' ') = cs.dropWhile (· == ' ') := by
    induction n with
    | zero => rfl
    | succ n ih => exact ih
  rw [isCommentLine, isCommentLine, Braced.line, String.toList_append,
    String.toList_ofList, hblanks]

/-- A line that does not begin like a comment. -/
theorem line (depth : Nat) (hopens : Opens text) (h : OneLine text) :
    Leaves [Braced.line depth text] [Braced.line depth text] where
  oneLine := List.forall_mem_singleton.2 (oneLine_line depth h)
  left_eq := by
    obtain ⟨c, cs, htext, -, hslash, hblank⟩ := hopens
    have hcode : isCommentLine text.toList = false := by
      simp [isCommentLine, htext, hblank, List.isPrefixOf_cons_cons, hslash.symm]
    rw [List.filter_singleton, isCommentLine_line, hcode]
    rfl

theorem comment (depth : Nat) (h : OneLine text) :
    Leaves [Braced.line depth ("//" ++ text)] [] where
  oneLine := List.forall_mem_singleton.2 (oneLine_line depth (.append (by decide) h))
  left_eq := by
    have hcomment : isCommentLine ("//" ++ text).toList = true := by
      rw [String.toList_append]
      rfl
    rw [List.filter_singleton, isCommentLine_line, hcomment]
    rfl

/-- A line in front of others. -/
theorem cons (depth : Nat) (hopens : Opens text) (h : OneLine text) (h' : Leaves lines left) :
    Leaves (Braced.line depth text :: lines) (Braced.line depth text :: left) :=
  append (line depth hopens h) h'

/-- Lines in braces. -/
theorem block (depth : Nat) (hopens : Opens text) (h : OneLine text) (h' : Leaves lines left) :
    Leaves (Braced.line depth text :: lines ++ [Braced.line depth "\x7d"])
      (Braced.line depth text :: left ++ [Braced.line depth "\x7d"]) :=
  append (cons depth hopens h h') (line depth ⟨'\x7d', [], rfl, by decide⟩ (by decide))

end Leaves

theorem stmtsLines_append (depth : Nat) (bound : List String) (xs ys : List Stmt) :
    (stmtsLines depth bound (xs ++ ys)).1 =
      (stmtsLines depth bound xs).1 ++ (stmtsLines depth (Stmt.allBoundAfter bound xs) ys).1 := by
  induction xs generalizing bound with
  | nil => rfl
  | cons x xs ih =>
    simp only [List.cons_append, stmtsLines, snd_stmtLines, ih, List.append_assoc,
      Stmt.allBoundAfter]

theorem stmtsLines_singleton (depth : Nat) (bound : List String) (stmt : Stmt) :
    (stmtsLines depth bound [stmt]).1 = (stmtLines depth bound stmt).1 := by
  simp only [stmtsLines, List.append_nil]

theorem oneLine_pattern {pattern : Pattern} (h : pattern.WellFormed) :
    OneLine (patternText pattern) := by
  cases pattern with
  | single x => exact .name (h x List.mem_cons_self)
  | tuple names => exact .append (.append (by decide) (.names h)) (by decide)

theorem opens_pattern {pattern : Pattern} (h : pattern.WellFormed) :
    Opens (patternText pattern) := by
  cases pattern with
  | single x => exact opens_name (h x List.mem_cons_self)
  | tuple names => exact .append (.append ⟨'[', [], rfl, by decide⟩ _) _

theorem oneLine_target {op : Option BinaryOp} {target : Target} (h : target.WellFormed op) :
    OneLine (targetText target) := by
  cases target with
  | name x => exact .name h
  | index object i => exact Expr.oneLine (.index object i) h
  | tuple names => exact .append (.append (by decide) (.names h.2)) (by decide)

theorem opens_target {op : Option BinaryOp} {target : Target} (h : target.WellFormed op) :
    Opens (targetText target) := by
  cases target with
  | name x => exact opens_name h
  | index object i => exact Expr.opens (.index object i) h
  | tuple names => exact .append (.append ⟨'[', [], rfl, by decide⟩ _) _

/-- A declaration of a value, with the word in front of it. -/
theorem leaves_declare (depth : Nat) (bound : List String) {pattern : Pattern} {value : Expr}
    (constant : Bool) (hp : pattern.WellFormed) (hv : value.WellFormed) :
    Leaves (stmtLines depth bound (.declare pattern (some value) constant)).1
      (stmtLines depth bound (.declare pattern (some value) constant)).1 := by
  have hline (word : String) (hopens : Opens (word ++ patternText pattern)) (hone : OneLine word) :
      Leaves [line depth (word ++ patternText pattern ++ " = " ++ exprText value ++ ";")]
        [line depth (word ++ patternText pattern ++ " = " ++ exprText value ++ ";")] := by
    refine .line depth (.append (.append (.append hopens _) _) _) ?_
    exact .append (.operation (.append hone (oneLine_pattern hp)) (by decide) (value.oneLine hv))
      (by decide)
  simp only [stmtLines]
  split
  · exact hline "const " (.append ⟨_, _, rfl, by decide⟩ _) (by decide)
  · split
    · exact hline "" (String.empty_append ▸ opens_pattern hp) (by decide)
    · exact hline "let " (.append ⟨_, _, rfl, by decide⟩ _) (by decide)

mutual

/-- The comment lines of a statement are those of its comments. -/
theorem Stmt.leaves (depth : Nat) (bound : List String) {d : Dialect} {around : Surroundings} :
    (stmt : Stmt) → stmt.WellFormed d around →
      Leaves (stmtLines depth bound stmt).1 (stmtsLines depth bound stmt.uncommented).1
  | .comment _, hwf => .comment depth hwf
  | .function f params body, hwf => by
    have hbody := Stmt.allLeaves (depth + 1) params body hwf.2.2.2
    rw [Stmt.uncommented, stmtsLines_singleton]
    refine .block depth
      (.append (.append (.append (.append ⟨_, _, rfl, by decide⟩ _) _) _) _) ?_ hbody
    exact .append (.append (.append (.append (by decide) (.name hwf.1)) (by decide))
      (.names hwf.2.1)) (by decide)
  | .declare pattern none _, hwf =>
    .line depth (.append (.append ⟨_, _, rfl, by decide⟩ _) _)
      (.append (.append (by decide) (.names hwf.1)) (by decide))
  | .declare pattern (some value) constant, hwf =>
    leaves_declare depth bound constant hwf.1 (hwf.2.1 value rfl)
  | .assign target op value, hwf => by
    have hop : OneLine (assignmentText op) := by
      obtain ⟨hop, -⟩ := hwf
      simp only [assignable, List.mem_cons, List.not_mem_nil, or_false] at hop
      rcases hop with rfl | rfl | rfl | rfl | rfl | rfl
      all_goals decide
    rw [Stmt.uncommented, stmtsLines_singleton]
    · refine .line depth
        (.append (.append (.append (.append (.append (opens_target hwf.2.1) _) _) _) _) _) ?_
      exact .append (.operation (.operation (oneLine_target hwf.2.1) (by decide) hop) (by decide)
        (value.oneLine hwf.2.2)) (by decide)
    all_goals nofun
  | .expr value, hwf =>
    .line depth (.append (value.opens hwf) _) (.append (value.oneLine hwf) (by decide))
  | .cond arms, hwf => by
    have harms := Arms.leaves depth bound "if" ⟨'i', ['f'], rfl, by decide⟩ (by decide) arms hwf.2
    rw [Stmt.uncommented, stmtsLines_singleton]
    exact .append harms (.line depth ⟨'\x7d', [], rfl, by decide⟩ (by decide))
  | .while condition body, hwf => by
    have hbody := Stmt.allLeaves (depth + 1) bound body hwf.2
    rw [Stmt.uncommented, stmtsLines_singleton]
    exact .block depth (.append (.append ⟨_, _, rfl, by decide⟩ _) _)
      (.append (.append (by decide) (condition.oneLine hwf.1)) (by decide)) hbody
  | .forEach pattern iterable body, hwf => by
    have hbody := Stmt.allLeaves (depth + 1) (bindNames pattern.names bound) body hwf.2.2
    rw [Stmt.uncommented, stmtsLines_singleton]
    refine .block depth
      (.append (.append (.append (.append ⟨_, _, rfl, by decide⟩ _) _) _) _) ?_ hbody
    exact .append (.operation (.append (by decide) (oneLine_pattern hwf.1)) (by decide)
      (iterable.oneLine hwf.2.1)) (by decide)
  | .return none, _ => .line depth ⟨_, _, rfl, by decide⟩ (by decide)
  | .return (some value), hwf =>
    .line depth (.append (.append ⟨_, _, rfl, by decide⟩ _) _)
      (.append (.append (by decide) (value.oneLine (hwf.2 value rfl))) (by decide))
  | .break, _ => .line depth ⟨_, _, rfl, by decide⟩ (by decide)
  | .continue, _ => .line depth ⟨_, _, rfl, by decide⟩ (by decide)
  | .throw className message, hwf =>
    .line depth (.append (.append (.append (.append ⟨_, _, rfl, by decide⟩ _) _) _) _)
      (.append (.operation (.append (by decide) (.name hwf.1)) (by decide) (message.oneLine hwf.2))
        (by decide))

theorem Stmt.allLeaves (depth : Nat) (bound : List String) {d : Dialect} {around : Surroundings} :
    (stmts : List Stmt) → Stmt.AllWellFormed d around stmts →
      Leaves (stmtsLines depth bound stmts).1 (stmtsLines depth bound (Stmt.allUncommented stmts)).1
  | [], _ => .nil
  | stmt :: rest, hwf => by
    have hstmt := Stmt.leaves depth bound stmt hwf.1
    have hrest := Stmt.allLeaves depth (stmt.boundAfter bound) rest hwf.2
    rw [Stmt.allUncommented, stmtsLines_append, Stmt.boundAfter_uncommented]
    simp only [stmtsLines, snd_stmtLines]
    exact .append hstmt hrest

theorem Arms.leaves (depth : Nat) (bound : List String) (word : String) (hopens : Opens word)
    (hword : OneLine word) {d : Dialect} {around : Surroundings} :
    (arms : Arms) → arms.WellFormed d around →
      Leaves (armsLines depth bound word arms).1 (armsLines depth bound word arms.uncommented).1
  | .done, _ => .nil
  | .otherwise body, hwf =>
    .cons depth ⟨_, _, rfl, by decide⟩ (by decide) (Stmt.allLeaves (depth + 1) bound body hwf)
  | .arm condition body rest, hwf => by
    have hbody := Stmt.allLeaves (depth + 1) bound body hwf.2.1
    have hrest := Arms.leaves depth bound "\x7d else if" ⟨_, _, rfl, by decide⟩ (by decide)
      rest hwf.2.2
    refine .append (.cons depth (.append (.append (.append hopens _) _) _) ?_ hbody) hrest
    exact .append (.operation hword (by decide) (condition.oneLine hwf.1)) (by decide)

end

/-- The comment lines of a printed program are its comments. -/
theorem withoutComments_print {d : Dialect} {body : List Stmt}
    (hwf : Stmt.AllWellFormed d .top body) :
    withoutComments (print body) = print (Stmt.allUncommented body) := by
  have hleaves := Stmt.allLeaves 0 [] body hwf
  rw [print, withoutComments_unlines hleaves.oneLine, ← hleaves.left_eq, print]

end Labyrinth
