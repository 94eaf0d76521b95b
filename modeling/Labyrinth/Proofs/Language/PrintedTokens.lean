import Labyrinth.Proofs.Language.Printable
import Labyrinth.Proofs.Language.Spelling

/-!
# The tokens of printed trees

The text of a tree is read as the tokens of the tree.

## Main results

* `Expr.spells`: the text of an expression.
* `Stmt.spells`: the lines of a statement.
* `kinds_tokens_print`: the text of a program.
-/

namespace Labyrinth

open Labyrinth.Braced

/-! ### Expressions -/

/-- The text of an expression, in parentheses if necessary. -/
theorem spells_enclose {least : Nat} {e : Expr} {text : String} {ks : List TokenKind}
    (h : ∀ rest, Breaks rest → Spells text ks rest) {rest : List Char} (hrest : Breaks rest) :
    Spells (enclose least e text) (enclosed least e ks) rest := by
  unfold enclose enclosed
  split
  · rw [String.append_assoc]
    exact .mark (by decide) (.append (h _ (breaks_mark (by decide) _)) (spells_mark (by decide) _))
  · exact h rest hrest

/-- A text that begins neither a comment nor another operator, and is not indented. -/
def Opens (text : String) : Prop :=
  ∃ c cs, text.toList = c :: cs ∧ c ≠ '=' ∧ c ≠ '/' ∧ c ≠ ' '

theorem Opens.append {text : String} (h : Opens text) (text' : String) : Opens (text ++ text') := by
  obtain ⟨c, cs, htext, hc⟩ := h
  exact ⟨c, cs ++ text'.toList, by rw [String.toList_append, htext, List.cons_append], hc⟩

theorem opens_name {x : String} (h : IsName x) : Opens x := by
  obtain ⟨c, cs, hx, hc, -⟩ := h
  refine ⟨c, cs, hx, ?_, ?_, ?_⟩
  all_goals
    rintro rfl
    revert hc
    decide

theorem isName_bracedName {m : Method} (h : ∀ name, m = .other name → IsName name) :
    IsName m.bracedName := by
  cases m with
  | other name => exact h name rfl
  | _ => decide

theorem breaks_period {x : String} (hx : IsName x) (rest : List Char) :
    Breaks (("." ++ x).toList ++ rest) := by
  obtain ⟨c, cs, hxs, hc, -⟩ := hx
  rw [String.toList_append, List.append_assoc, hxs]
  rintro _ _ ⟨⟩
  refine ⟨by decide, fun _ d ds hd => ?_⟩
  cases hd
  exact isDigit_eq_false_of_isNameStart hc

theorem opens_int (n : Int64) : Opens (toString n) := by
  have htext : toString n = n.toInt.repr := rfl
  rw [htext]
  cases n.toInt with
  | ofNat m =>
    obtain ⟨c, cs, hcs, hc⟩ := exists_digit m
    refine ⟨c, cs, hcs, ?_, ?_, ?_⟩
    all_goals
      rintro rfl
      cases hc
  | negSucc m => exact .append ⟨'-', [], rfl, by decide⟩ _

theorem opens_enclose {least : Nat} {e : Expr} {text : String} (h : Opens text) :
    Opens (enclose least e text) := by
  unfold enclose
  split
  · exact .append (.append ⟨'(', [], rfl, by decide⟩ _) _
  · exact h

theorem opens_builtinText (function : Builtin) : Opens (builtinText function) := by
  cases function <;> exact ⟨_, _, rfl, by decide⟩

/-- The text of an expression begins no comment. -/
theorem Expr.opens : (e : Expr) → e.WellFormed → Opens (exprText e)
  | .literal .null, _ => ⟨_, _, rfl, by decide⟩
  | .literal (.bool true), _ => ⟨_, _, rfl, by decide⟩
  | .literal (.bool false), _ => ⟨_, _, rfl, by decide⟩
  | .literal (.int n), _ => opens_int n
  | .literal (.str s), _ => .append (.append ⟨'"', [], rfl, by decide⟩ _) _
  | .name _, hwf => opens_name hwf
  | .list _, _ => .append (.append ⟨'[', [], rfl, by decide⟩ _) _
  | .emptySet, _ => ⟨_, _, rfl, by decide⟩
  | .setOf _, _ => .append (.append ⟨_, _, rfl, by decide⟩ _) _
  | .emptyMap, _ => ⟨_, _, rfl, by decide⟩
  | .mapOf _, _ => .append (.append ⟨_, _, rfl, by decide⟩ _) _
  | .unary .not _, _ => .append ⟨'!', [], rfl, by decide⟩ _
  | .unary .negate _, _ => .append ⟨'-', [], rfl, by decide⟩ _
  | .binary _ lhs _, hwf =>
    .append (.append (.append (.append (opens_enclose (Expr.opens lhs hwf.1)) _) _) _) _
  | .logical .and lhs _, hwf => .append (.append (opens_enclose (Expr.opens lhs hwf.1)) _) _
  | .logical .or lhs _, hwf => .append (.append (opens_enclose (Expr.opens lhs hwf.1)) _) _
  | .call _ _, hwf => .append (.append (.append (opens_name hwf.1) _) _) _
  | .builtin function args, hwf => by
    have hcallee := opens_builtinText function
    cases function with
    | len =>
      obtain _ | ⟨target, _ | ⟨second, others⟩⟩ := args
      · exact .append (.append (.append hcallee _) _) _
      · exact .append (opens_enclose (Expr.opens target hwf.1)) _
      · exact .append (.append (.append hcallee _) _) _
    | _ => exact .append (.append (.append hcallee _) _) _
  | .capability c args, _ => by
    cases c with
    | move d => exact .append (.append (.append (.append ⟨'a', _, rfl, by decide⟩ _) _) _) _
    | _ => exact .append (.append (.append (opens_name (by decide)) _) _) _
  | .method receiver _ _, hwf =>
    .append (.append (.append (.append (.append (opens_enclose
      (Expr.opens receiver hwf.2.1)) _) _) _) _) _
  | .index object _, hwf =>
    .append (.append (.append (opens_enclose (Expr.opens object hwf.1)) _) _) _
  | .attribute object _, hwf => .append (.append (opens_enclose (Expr.opens object hwf.2)) _) _

theorem spells_literal {value : Literal} (h : value ≠ .int Int64.minValue) {rest : List Char}
    (hrest : Breaks rest) : Spells (literalText value) value.kinds rest := by
  cases value with
  | null => exact spells_name (by decide) hrest
  | bool b => cases b <;> exact spells_name (by decide) hrest
  | int n => exact spells_int (fun hn => h (hn ▸ rfl)) hrest
  | str s => exact spells_quote s rest

/-- A sign and its operand. -/
theorem spells_signed {sign text : String} {ks : List TokenKind} {rest : List Char}
    (hsign : sign = "!" ∨ sign = "-") (hopens : Opens text) (h : Spells text ks rest) :
    Spells (sign ++ text) (.op sign :: ks) rest := by
  obtain ⟨c, cs, htext, hequals, -⟩ := hopens
  refine .append (k := [.op sign]) ?_ h
  rw [htext]
  exact spells_sign hsign hequals _

/-- A text in parentheses. -/
theorem spells_parenthesized {text : String} {ks : List TokenKind}
    (h : ∀ rest, Breaks rest → Spells text ks rest) (rest : List Char) :
    Spells ("(" ++ (text ++ ")")) (parenthesized ks) rest :=
  .mark (by decide) (.append (h _ (breaks_mark (by decide) _)) (spells_mark (by decide) _))

theorem operatorText_mem (op : BinaryOp) : operatorText op ∈ operators := by
  cases op <;> decide

/-- The creation of a collection. -/
theorem spells_creation {className text : String} {ks : List TokenKind} (hname : IsName className)
    (h : ∀ rest, Breaks rest → Spells text ks rest) (rest : List Char) :
    Spells ("new" ++ (" " ++ (className ++ ("(" ++ (text ++ ")")))))
      (.name "new" :: .name className :: parenthesized ks) rest :=
  .word (by decide) (.name hname (breaks_mark (by decide) _).append (spells_parenthesized h rest))

/-- A function of one of the built-in objects. -/
theorem spells_member {object member : String} (hobject : IsName object) (hmember : IsName member)
    {rest : List Char} (hrest : Breaks rest) :
    Spells (object ++ ("." ++ member)) [.name object, .op ".", .name member] rest :=
  .name hobject (breaks_period hmember rest) (.mark (by decide) (spells_name hmember hrest))

theorem spells_builtinText (function : Builtin) {rest : List Char} (hrest : Breaks rest) :
    Spells (builtinText function) function.kinds rest := by
  cases function with
  | len => exact spells_name (by decide) hrest
  | str => exact spells_name (by decide) hrest
  | range => exact spells_name (by decide) hrest
  | _ => exact spells_member (by decide) (by decide) hrest

/-- A call of a function. -/
theorem spells_call {callee text : String} {ks ls : List TokenKind}
    (hcallee : ∀ rest, Breaks rest → Spells callee ks rest)
    (h : ∀ rest, Breaks rest → Spells text ls rest) (rest : List Char) :
    Spells (callee ++ ("(" ++ (text ++ ")"))) (ks ++ parenthesized ls) rest :=
  .append (hcallee _ (breaks_mark (by decide) _).append) (spells_parenthesized h rest)

theorem isName_capability (c : Capability) : IsName c.bracedName := by
  obtain d | _ | _ | _ := c
  · cases d <;> decide
  all_goals decide

mutual

/-- The text of an expression is read as its tokens. -/
theorem Expr.spells : (e : Expr) → e.WellFormed → ∀ rest, Breaks rest →
    Spells (exprText e) e.kinds rest
  | .literal _, hwf, _, hrest => spells_literal hwf hrest
  | .name _, hwf, _, hrest => spells_name hwf hrest
  | .list items, hwf, rest, _ => by
    rw [exprText, String.append_assoc]
    refine .mark (by decide) (.append (Expr.allSpells items hwf _ (breaks_mark (by decide) _)) ?_)
    exact spells_mark (by decide) rest
  | .emptySet, _, rest, _ => spells_creation (by decide) (fun _ _ => .empty) rest
  | .setOf source, hwf, rest, _ => by
    have hnew : ("new Set(" : String) = "new" ++ (" " ++ ("Set" ++ "(")) := rfl
    simp only [exprText, hnew, String.append_assoc]
    exact spells_creation (by decide) (Expr.spells source hwf) rest
  | .emptyMap, _, rest, _ => spells_creation (by decide) (fun _ _ => .empty) rest
  | .mapOf source, hwf, rest, _ => by
    have hnew : ("new Map(" : String) = "new" ++ (" " ++ ("Map" ++ "(")) := rfl
    simp only [exprText, hnew, String.append_assoc]
    exact spells_creation (by decide) (Expr.spells source hwf) rest
  | .unary .not operand, hwf, rest, hrest =>
    spells_signed (.inl rfl) (opens_enclose (operand.opens hwf))
      (spells_enclose (Expr.spells operand hwf) hrest)
  | .unary .negate operand, hwf, rest, hrest =>
    spells_signed (.inr rfl) (opens_enclose (operand.opens hwf.2))
      (spells_enclose (Expr.spells operand hwf.2) hrest)
  | .binary op lhs rhs, hwf, rest, hrest => by
    simp only [exprText, String.append_assoc]
    refine .append (spells_enclose (Expr.spells lhs hwf.1) (breaks_mark (by decide) _).append) ?_
    exact .operator (operatorText_mem op) (spells_enclose (Expr.spells rhs hwf.2) hrest)
  | .logical .and lhs rhs, hwf, rest, hrest => by
    have hand : (" && " : String) = " " ++ ("&&" ++ " ") := rfl
    simp only [exprText, hand, String.append_assoc]
    refine .append (spells_enclose (Expr.spells lhs hwf.1) (breaks_mark (by decide) _).append) ?_
    exact .operator (by decide) (spells_enclose (Expr.spells rhs hwf.2) hrest)
  | .logical .or lhs rhs, hwf, rest, hrest => by
    have hor : (" || " : String) = " " ++ ("||" ++ " ") := rfl
    simp only [exprText, hor, String.append_assoc]
    refine .append (spells_enclose (Expr.spells lhs hwf.1) (breaks_mark (by decide) _).append) ?_
    exact .operator (by decide) (spells_enclose (Expr.spells rhs hwf.2) hrest)
  | .call f args, hwf, rest, _ => by
    simp only [exprText, String.append_assoc]
    exact spells_call (fun _ => spells_name hwf.1) (Expr.allSpells args hwf.2.2) rest
  | .builtin function args, hwf, rest, hrest => by
    have hcall := spells_call (fun _ => spells_builtinText function) (Expr.allSpells args hwf) rest
    simp only [← String.append_assoc] at hcall
    cases function with
    | len =>
      obtain _ | ⟨target, _ | ⟨second, others⟩⟩ := args
      · exact hcall
      · have hlength : (".length" : String) = "." ++ "length" := rfl
        simp only [exprText, hlength]
        refine .append (spells_enclose (Expr.spells target hwf.1) (breaks_period (by decide) _)) ?_
        exact .mark (by decide) (spells_name (by decide) hrest)
      · exact hcall
    | _ => exact hcall
  | .capability c args, hwf, rest, _ => by
    have hcall := spells_call (fun _ => spells_name (isName_capability c))
      (Expr.allSpells args hwf.2) rest
    cases c with
    | move d =>
      have hawait : ("await " : String) = "await" ++ " " := rfl
      simp only [exprText, hawait, String.append_assoc]
      exact .word (by decide) hcall
    | _ =>
      simp only [← String.append_assoc] at hcall
      exact hcall
  | .method receiver m args, hwf, rest, _ => by
    have hm := isName_bracedName hwf.1
    simp only [exprText, String.append_assoc]
    refine .append (spells_enclose (Expr.spells receiver hwf.2.1) ?_) ?_
    · rw [← String.append_assoc]
      exact (breaks_period hm _).append
    refine .mark (by decide) (.name hm (breaks_mark (by decide) _).append ?_)
    exact spells_parenthesized (Expr.allSpells args hwf.2.2) rest
  | .index object i, hwf, rest, _ => by
    simp only [exprText, String.append_assoc]
    refine .append (spells_enclose (Expr.spells object hwf.1) (breaks_mark (by decide) _).append) ?_
    refine .mark (by decide) (.append (Expr.spells i hwf.2 _ (breaks_mark (by decide) _)) ?_)
    exact spells_mark (by decide) rest
  | .attribute object key, hwf, rest, hrest => by
    simp only [exprText, String.append_assoc]
    refine .append (spells_enclose (Expr.spells object hwf.2) (breaks_period hwf.1 _)) ?_
    exact .mark (by decide) (spells_name hwf.1 hrest)

/-- The texts of several expressions with commas between them. -/
theorem Expr.allSpells : (es : List Expr) → Expr.AllWellFormed es → ∀ rest, Breaks rest →
    Spells (argsText es) (commas (Expr.eachKinds es)) rest
  | [], _, _, _ => .empty
  | [e], hwf, rest, hrest => Expr.spells e hwf.1 rest hrest
  | e :: second :: others, hwf, rest, hrest => by
    simp only [argsText, String.append_assoc]
    refine .append (Expr.spells e hwf.1 _ (breaks_mark (by decide) _).append) ?_
    exact (Expr.allSpells (second :: others) hwf.2 rest hrest).comma

end

/-! ### Names and places -/

theorem spells_names {names : List String} (h : ∀ x ∈ names, IsName x) {rest : List Char}
    (hrest : Breaks rest) : Spells (namesText names) (namesKinds names) rest := by
  induction names with
  | nil => exact .empty
  | cons x names ih =>
    obtain ⟨hx, hnames⟩ := List.forall_mem_cons.1 h
    cases names with
    | nil =>
      rw [namesText, String.intercalate_singleton]
      exact spells_name hx hrest
    | cons y names =>
      rw [namesText, String.intercalate_cons_cons, String.append_assoc]
      exact .name hx (breaks_mark (by decide) _).append (ih hnames).comma

/-- Names in brackets. -/
theorem spells_tuple {names : List String} (h : ∀ x ∈ names, IsName x) (rest : List Char) :
    Spells ("[" ++ namesText names ++ "]") (.op "[" :: (namesKinds names ++ [.op "]"])) rest := by
  rw [String.append_assoc]
  refine .mark (by decide) (.append (spells_names h (breaks_mark (by decide) _)) ?_)
  exact spells_mark (by decide) rest

theorem spells_pattern {pattern : Pattern} (h : pattern.WellFormed) {rest : List Char}
    (hrest : Breaks rest) : Spells (patternText pattern) pattern.kinds rest := by
  cases pattern with
  | single x => exact spells_name (h x List.mem_cons_self) hrest
  | tuple names => exact spells_tuple h rest

theorem spells_target {op : Option BinaryOp} {target : Target} (h : target.WellFormed op)
    {rest : List Char} (hrest : Breaks rest) : Spells (targetText target) target.kinds rest := by
  cases target with
  | name x => exact spells_name h hrest
  | index object i => exact Expr.spells (.index object i) h rest hrest
  | tuple names => exact spells_tuple h.2 rest

/-! ### Lines -/

/-- Lines are read as tokens of certain kinds. -/
def SpellsLines (lines : List String) (kinds : List TokenKind) : Prop :=
  ∀ rest, Spells (Text.unlines lines) kinds rest

namespace SpellsLines

variable {lines further : List String} {ks ls : List TokenKind}

theorem nil : SpellsLines [] [] := fun _ => .empty

theorem append (h : SpellsLines lines ks) (h' : SpellsLines further ls) :
    SpellsLines (lines ++ further) (ks ++ ls) := by
  intro rest
  rw [Text.unlines, List.map_append, String.join_append]
  exact .append (h _) (h' rest)

theorem blanks (n : Nat) (rest : List Char) :
    Spells (String.ofList (List.replicate n ' ')) [] rest := by
  refine .passed fun p => ?_
  rw [String.toList_ofList]
  induction n generalizing p with
  | zero => exact ⟨p, rfl⟩
  | succ n ih =>
    obtain ⟨p', hscan⟩ := ih (p.next ' ')
    exact ⟨p', (scan_spacing (by decide) _ p).trans hscan⟩

theorem line (depth : Nat) {text : String} (h : ∀ rest, Spells text ks ('\n' :: rest)) :
    SpellsLines [Braced.line depth text] ks := by
  intro rest
  have hlines : Text.unlines [Braced.line depth text] =
      String.ofList (List.replicate (2 * depth) ' ') ++ (text ++ "\n") := by
    rw [Text.unlines, List.map_singleton, String.join_cons, String.join_nil, String.append_empty,
      Braced.line, String.append_assoc]
  have htext : Spells (text ++ "\n") (ks ++ []) rest := .append (h rest) (spells_newline rest)
  rw [List.append_nil] at htext
  rw [hlines, ← List.nil_append ks]
  exact .append (blanks _ _) htext

/-- A line in front of others. -/
theorem cons (depth : Nat) {text : String} (h : ∀ rest, Spells text ks ('\n' :: rest))
    (h' : SpellsLines lines ls) : SpellsLines (Braced.line depth text :: lines) (ks ++ ls) := by
  rw [← List.singleton_append]
  exact append (line depth h) h'

/-- The brace that closes a block. -/
theorem close (depth : Nat) : SpellsLines [Braced.line depth "\x7d"] [.op "\x7d"] :=
  line depth fun _ => spells_mark (by decide) _

/-- Lines in braces. -/
theorem block (depth : Nat) (ks : List TokenKind) {head : String}
    (h : ∀ rest, Spells head (ks ++ [.op "\x7b"]) ('\n' :: rest)) (h' : SpellsLines lines ls) :
    SpellsLines (Braced.line depth head :: lines ++ [Braced.line depth "\x7d"])
      (ks ++ inBraces ls) := by
  have hlines := append (cons depth h h') (close depth)
  simpa [inBraces] using hlines

end SpellsLines

/-! ### Statements -/

/-- The sign of an assignment and all that follows it. -/
theorem spells_value {op : String} (hop : op ∈ operators) {value : Expr} (hwf : value.WellFormed)
    (rest : List Char) :
    Spells (" " ++ (op ++ (" " ++ (exprText value ++ ";")))) (.op op :: (value.kinds ++ [.op ";"]))
      rest :=
  .operator hop (.append (value.spells hwf _ (breaks_mark (by decide) _))
    (spells_mark (by decide) _))

/-- A word that is a statement of its own. -/
theorem spells_command {text x : String} (htext : text = x ++ ";") (hx : IsName x)
    (rest : List Char) : Spells text [.name x, .op ";"] rest := by
  rw [htext]
  exact .name hx (breaks_mark (by decide) _) (spells_mark (by decide) _)

/-- A text in parentheses before the brace that opens a block. -/
theorem spells_head {text : String} {ks : List TokenKind}
    (h : ∀ rest, Breaks rest → Spells text ks rest) (rest : List Char) :
    Spells ("(" ++ (text ++ ") \x7b")) (parenthesized ks ++ [.op "\x7b"]) rest := by
  have hclose : (") \x7b" : String) = ")" ++ (" " ++ "\x7b") := rfl
  have hblock : Spells (" " ++ "\x7b") [.op "\x7b"] rest := .blank (spells_mark (by decide) rest)
  have htext := (spells_parenthesized h _).append hblock
  simpa only [hclose, String.append_assoc] using htext

/-- A word and a condition before the brace that opens a block. -/
theorem spells_guard {word : String} {ks : List TokenKind} {condition : Expr}
    (hword : ∀ rest, Breaks rest → Spells word ks rest) (hwf : condition.WellFormed)
    (rest : List Char) :
    Spells (word ++ " (" ++ exprText condition ++ ") \x7b")
      (ks ++ parenthesized condition.kinds ++ [.op "\x7b"]) rest := by
  have hopen : (" (" : String) = " " ++ "(" := rfl
  rw [hopen, List.append_assoc, String.append_assoc, String.append_assoc, String.append_assoc]
  exact .append (hword _ (breaks_mark (by decide) _).append)
    (.blank (spells_head (condition.spells hwf) _))

/-- A guarded block and what follows it. -/
theorem spells_guarded (depth : Nat) {word : String} {ks ls others : List TokenKind}
    {lines further : List String} {condition : Expr}
    (hword : ∀ rest, Breaks rest → Spells word ks rest) (hwf : condition.WellFormed)
    (hbody : SpellsLines lines ls) (hfurther : SpellsLines further (.op "\x7d" :: others)) :
    SpellsLines (Braced.line depth (word ++ " (" ++ exprText condition ++ ") \x7b") ::
      lines ++ further)
      (ks ++ (parenthesized condition.kinds ++ inBraces ls ++ others)) := by
  have hlines :=
    SpellsLines.append (.cons depth (fun rest => spells_guard hword hwf _) hbody) hfurther
  simpa [inBraces] using hlines

/-- What follows an arm of a conditional statement. -/
theorem spells_else {text : String} {ks : List TokenKind} {rest : List Char}
    (h : Spells text ks rest) :
    Spells ("\x7d" ++ (" " ++ ("else" ++ (" " ++ text)))) (.op "\x7d" :: .name "else" :: ks) rest :=
  .mark (by decide) (.blank (.word (by decide) h))

theorem assignmentText_mem {op : Option BinaryOp} (h : op ∈ assignable) :
    assignmentText op ∈ operators := by
  simp only [assignable, List.mem_cons, List.not_mem_nil, or_false] at h
  rcases h with rfl | rfl | rfl | rfl | rfl | rfl
  all_goals decide

/-- The word in front of a declaration, if there is one. -/
theorem spells_declarator (bound names : List String) (constant : Bool) {text : String}
    {ks : List TokenKind} {rest : List Char} (h : Spells text ks rest) :
    Spells
      ((if constant then "const " else if names.all (· ∈ bound) then "" else "let ") ++ text)
      ((if constant then [.name "const"]
        else if names.all (· ∈ bound) then [] else [.name "let"]) ++ ks) rest := by
  have hconst : ("const " : String) = "const" ++ " " := rfl
  have hlet : ("let " : String) = "let" ++ " " := rfl
  split
  · rw [hconst, String.append_assoc]
    exact .word (by decide) h
  · split
    · rwa [String.empty_append]
    · rw [hlet, String.append_assoc]
      exact .word (by decide) h

mutual

/-- The lines of a statement are read as its tokens. -/
theorem Stmt.spells (depth : Nat) (bound : List String) {d : Dialect} {around : Surroundings} :
    (stmt : Stmt) → stmt.WellFormed d around →
      SpellsLines (stmtLines depth bound stmt).1 (stmt.kinds bound)
  | .comment _, hwf => .line depth fun _ => spells_comment hwf _
  | .function f params body, hwf => by
    have hbody := Stmt.allSpells (depth + 1) params body hwf.2.2.2
    have hfunction : ("function " : String) = "function" ++ " " := rfl
    refine .block depth (.name "function" :: .name f :: parenthesized (namesKinds params)) ?_ hbody
    intro rest
    simp only [hfunction, String.append_assoc]
    refine .word (by decide) (.name hwf.1 (breaks_mark (by decide) _).append ?_)
    exact spells_head (fun _ => spells_names hwf.2.1) _
  | .declare pattern (some value) constant, hwf => by
    have hequals : (" = " : String) = " " ++ ("=" ++ " ") := rfl
    refine .line depth fun rest => ?_
    have hvalue := (spells_pattern hwf.1 (breaks_mark (by decide) _).append).append
      (spells_value (show "=" ∈ operators by decide) (hwf.2.1 value rfl) ('\n' :: rest))
    simpa only [hequals, Stmt.kinds, String.append_assoc, List.append_assoc] using
      spells_declarator bound pattern.names constant hvalue
  | .declare pattern none _, hwf => by
    have hlet : ("let " : String) = "let" ++ " " := rfl
    refine .line depth fun rest => ?_
    simp only [hlet, String.append_assoc]
    refine .word (by decide) (.append (spells_names hwf.1 (breaks_mark (by decide) _)) ?_)
    exact spells_mark (by decide) _
  | .assign target op value, hwf => by
    refine .line depth fun rest => ?_
    simp only [String.append_assoc]
    exact .append (spells_target hwf.2.1 (breaks_mark (by decide) _).append)
      (spells_value (assignmentText_mem hwf.1) hwf.2.2 _)
  | .expr value, hwf => by
    refine .line depth fun _ => .append (value.spells hwf _ (breaks_mark (by decide) _)) ?_
    exact spells_mark (by decide) _
  | .cond .done, hwf => by
    obtain ⟨⟨_, _, _, heq⟩, -⟩ := hwf
    cases heq
  | .cond (.otherwise _), hwf => by
    obtain ⟨⟨_, _, _, heq⟩, -⟩ := hwf
    cases heq
  | .cond (.arm condition body rest), hwf => by
    have hbody := Stmt.allSpells (depth + 1) bound body hwf.2.2.1
    have hrest := Arms.spells depth bound rest hwf.2.2.2
    simp only [stmtLines, armsLines, List.append_assoc]
    exact spells_guarded depth (fun _ => spells_name (by decide)) hwf.2.1 hbody hrest
  | .while condition body, hwf => by
    have hbody := Stmt.allSpells (depth + 1) bound body hwf.2
    exact .block depth (.name "while" :: parenthesized condition.kinds)
      (fun _ => spells_guard (fun _ => spells_name (by decide)) hwf.1 _) hbody
  | .forEach pattern iterable body, hwf => by
    have hbody := Stmt.allSpells (depth + 1) (bindNames pattern.names bound) body hwf.2.2
    have hfor : ("for (const " : String) = "for" ++ (" " ++ ("(" ++ ("const" ++ " "))) := rfl
    have hof : (" of " : String) = " " ++ ("of" ++ " ") := rfl
    refine .block depth (.name "for" :: parenthesized
      (.name "const" :: (pattern.kinds ++ .name "of" :: iterable.kinds))) (fun rest => ?_) hbody
    have hhead : ∀ rest, Breaks rest →
        Spells ("const" ++ (" " ++ (patternText pattern ++
          (" " ++ ("of" ++ (" " ++ exprText iterable))))))
          (.name "const" :: (pattern.kinds ++ .name "of" :: iterable.kinds)) rest := fun _ hrest =>
      .word (by decide) (.append (spells_pattern hwf.1 (breaks_mark (by decide) _).append)
        (.blank (.word (by decide) (iterable.spells hwf.2.1 _ hrest))))
    have hfull := Spells.word (show IsName "for" by decide) (spells_head hhead ('\n' :: rest))
    simpa only [hfor, hof, String.append_assoc, List.cons_append] using hfull
  | .return none, _ => .line depth fun _ => spells_command rfl (by decide) _
  | .return (some value), hwf => by
    have hreturn : ("return " : String) = "return" ++ " " := rfl
    refine .line depth fun rest => ?_
    simp only [hreturn, String.append_assoc]
    refine .word (by decide) (.append ((value.spells (hwf.2 value rfl)) _
      (breaks_mark (by decide) _)) ?_)
    exact spells_mark (by decide) _
  | .break, _ => .line depth fun _ => spells_command rfl (by decide) _
  | .continue, _ => .line depth fun _ => spells_command rfl (by decide) _
  | .throw className message, hwf => by
    have hthrow : ("throw new " : String) = "throw" ++ (" " ++ ("new" ++ " ")) := rfl
    have hclose : (");" : String) = ")" ++ ";" := rfl
    refine .line depth fun rest => ?_
    simp only [hthrow, hclose, String.append_assoc]
    refine .word (by decide) (.word (by decide) (.name hwf.1 (breaks_mark (by decide) _).append ?_))
    have hmessage := (spells_parenthesized (message.spells hwf.2) _).append
      (spells_mark (show ";" ∈ marks by decide) ('\n' :: rest))
    simpa only [String.append_assoc] using hmessage

/-- The lines of several statements are read as their tokens. -/
theorem Stmt.allSpells (depth : Nat) (bound : List String) {d : Dialect} {around : Surroundings} :
    (stmts : List Stmt) → Stmt.AllWellFormed d around stmts →
      SpellsLines (stmtsLines depth bound stmts).1 (Stmt.allKinds bound stmts)
  | [], _ => .nil
  | stmt :: rest, hwf => by
    simp only [stmtsLines, snd_stmtLines]
    exact (Stmt.spells depth bound stmt hwf.1).append (Stmt.allSpells depth _ rest hwf.2)

/-- The lines of arms that follow another one, and the last brace. -/
theorem Arms.spells (depth : Nat) (bound : List String) {d : Dialect} {around : Surroundings} :
    (arms : Arms) → arms.WellFormed d around →
      SpellsLines ((armsLines depth bound "\x7d else if" arms).1 ++ [Braced.line depth "\x7d"])
        (.op "\x7d" :: arms.kinds bound)
  | .done, _ => .close depth
  | .otherwise body, hwf => by
    have hbody := Stmt.allSpells (depth + 1) bound body hwf
    have helse : ("\x7d else \x7b" : String) = "\x7d" ++ (" " ++ ("else" ++ (" " ++ "\x7b"))) := rfl
    simp only [armsLines, helse]
    exact .block depth [.op "\x7d", .name "else"]
      (fun rest => spells_else (spells_mark (by decide) _)) hbody
  | .arm condition body rest, hwf => by
    have hbody := Stmt.allSpells (depth + 1) bound body hwf.2.1
    have hrest := Arms.spells depth bound rest hwf.2.2
    have helse : ("\x7d else if" : String) = "\x7d" ++ (" " ++ ("else" ++ (" " ++ "if"))) := rfl
    have hword : ∀ rest, Breaks rest →
        Spells "\x7d else if" [.op "\x7d", .name "else", .name "if"] rest := by
      intro rest hbreaks
      rw [helse]
      exact spells_else (spells_name (by decide) hbreaks)
    simp only [armsLines, List.append_assoc]
    exact spells_guarded depth hword hwf.1 hbody hrest

end

/-- The text of a program is read as the tokens of its statements, and the end behind them. -/
theorem kinds_tokens_print {d : Dialect} {body : List Stmt} (hwf : Stmt.AllWellFormed d .top body) :
    ∃ ts, tokens (print body) = .ok ts ∧ ts.map Token.kind = Stmt.allKinds [] body ++ [.eof] := by
  obtain ⟨ts, p, hts, hscan⟩ := Stmt.allSpells 0 [] body hwf [] .start
  have hend : scan ⟨[], p⟩ = .ok [⟨.eof, p⟩] := by rw [scan]
  rw [List.append_nil, hend] at hscan
  have htokens : tokens (print body) = .ok (ts ++ [⟨.eof, p⟩]) := hscan
  refine ⟨_, htokens, ?_⟩
  rw [List.map_append, hts]
  rfl

end Labyrinth
