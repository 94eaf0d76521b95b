import Labyrinth.Language.Braced.Printer

/-!
# Bound names

The printer keeps account of the names that are **bound** for certain. Here the account is taken
by itself, and the tree is given in which every value that the printer writes as an assignment is
one.

## Main results

* `snd_stmtLines`: the account is that of the printer.
* `Stmt.subset_boundAfter`: no statement unbinds a name.
* `print_reboundAll`: the tree with assignments is printed like the one that it comes from.
-/

namespace Labyrinth

open Labyrinth.Braced

mutual

/-- The names that are bound after a statement. -/
def Stmt.boundAfter (bound : List String) : Stmt → List String
  | .declare pattern _ _ => bindNames pattern.names bound
  | .cond arms => (arms.boundAfter bound).getD bound
  | _ => bound

/-- The names that are bound after several statements. -/
def Stmt.allBoundAfter (bound : List String) : List Stmt → List String
  | [] => bound
  | stmt :: rest => Stmt.allBoundAfter (stmt.boundAfter bound) rest

/-- The names that are bound after every arm, if one of them is always taken. -/
def Arms.boundAfter (bound : List String) : Arms → Option (List String)
  | .done => none
  | .otherwise body => some (Stmt.allBoundAfter bound body)
  | .arm _ body rest => (rest.boundAfter bound).map (meet (Stmt.allBoundAfter bound body))

end

mutual

/-- The names that are bound after a statement are those that the printer knows of. -/
theorem snd_stmtLines (depth : Nat) (bound : List String) :
    (stmt : Stmt) → (stmtLines depth bound stmt).2 = stmt.boundAfter bound
  | .comment _ => rfl
  | .function .. => rfl
  | .declare _ none _ => rfl
  | .declare _ (some _) _ => rfl
  | .assign .. => rfl
  | .expr _ => rfl
  | .cond arms => by simp [stmtLines, Stmt.boundAfter, snd_armsLines depth bound "if" arms]
  | .while .. => rfl
  | .forEach .. => rfl
  | .return none => rfl
  | .return (some _) => rfl
  | .break => rfl
  | .continue => rfl
  | .throw .. => rfl

theorem snd_stmtsLines (depth : Nat) (bound : List String) :
    (stmts : List Stmt) → (stmtsLines depth bound stmts).2 = Stmt.allBoundAfter bound stmts
  | [] => rfl
  | stmt :: rest => by
    simp [stmtsLines, Stmt.allBoundAfter, snd_stmtLines depth bound stmt,
      snd_stmtsLines depth _ rest]

theorem snd_armsLines (depth : Nat) (bound : List String) (word : String) :
    (arms : Arms) → (armsLines depth bound word arms).2 = arms.boundAfter bound
  | .done => rfl
  | .otherwise body => by
    simp [armsLines, Arms.boundAfter, snd_stmtsLines (depth + 1) bound body]
  | .arm _ body rest => by
    simp [armsLines, Arms.boundAfter, snd_stmtsLines (depth + 1) bound body,
      snd_armsLines depth bound _ rest]

end

theorem subset_bindNames (names bound : List String) : bound ⊆ bindNames names bound :=
  fun _ hx => mem_bindNames.2 (.inr hx)

theorem mem_meet {x : String} {xs ys : List String} : x ∈ meet xs ys ↔ x ∈ xs ∧ x ∈ ys := by
  simp [meet]

mutual

/-- No statement unbinds a name. -/
theorem Stmt.subset_boundAfter (bound : List String) :
    (stmt : Stmt) → bound ⊆ stmt.boundAfter bound
  | .comment _ => List.Subset.refl _
  | .function .. => List.Subset.refl _
  | .declare pattern _ _ => subset_bindNames pattern.names bound
  | .assign .. => List.Subset.refl _
  | .expr _ => List.Subset.refl _
  | .cond arms => by
    simp only [Stmt.boundAfter]
    cases h : arms.boundAfter bound with
    | none => exact List.Subset.refl _
    | some after => exact Arms.subset_boundAfter bound arms after h
  | .while .. => List.Subset.refl _
  | .forEach .. => List.Subset.refl _
  | .return _ => List.Subset.refl _
  | .break => List.Subset.refl _
  | .continue => List.Subset.refl _
  | .throw .. => List.Subset.refl _

theorem Stmt.subset_allBoundAfter (bound : List String) :
    (stmts : List Stmt) → bound ⊆ Stmt.allBoundAfter bound stmts
  | [] => List.Subset.refl _
  | stmt :: rest =>
    List.Subset.trans (Stmt.subset_boundAfter bound stmt) (Stmt.subset_allBoundAfter _ rest)

theorem Arms.subset_boundAfter (bound : List String) :
    (arms : Arms) → ∀ after, arms.boundAfter bound = some after → bound ⊆ after
  | .done => fun _ h => nomatch h
  | .otherwise body => fun _ h => Option.some.inj h ▸ Stmt.subset_allBoundAfter bound body
  | .arm _ body rest => fun _ h => by
    simp only [Arms.boundAfter, Option.map_eq_some_iff] at h
    obtain ⟨others, hothers, rfl⟩ := h
    intro x hx
    have hbody := Stmt.subset_allBoundAfter bound body hx
    exact mem_meet.2 ⟨hbody, Arms.subset_boundAfter bound rest others hothers hx⟩

end

/-! ### Assignments in place of declarations -/

/-- The place that consists of the names of a pattern. -/
def Pattern.target : Pattern → Target
  | single name => .name name
  | tuple names => .tuple names

mutual

/-- The statement in which every declared value all of whose names are bound is assigned. -/
def Stmt.rebound (bound : List String) : Stmt → Stmt
  | .function f params body => .function f params (Stmt.reboundAll params body)
  | .declare pattern (some value) false =>
    if pattern.names.all (· ∈ bound) then .assign pattern.target none value
    else .declare pattern (some value) false
  | .cond arms => .cond (arms.rebound bound)
  | .while condition body => .while condition (Stmt.reboundAll bound body)
  | .forEach pattern iterable body =>
    .forEach pattern iterable (Stmt.reboundAll (bindNames pattern.names bound) body)
  | stmt => stmt

/-- The same for several statements. -/
def Stmt.reboundAll (bound : List String) : List Stmt → List Stmt
  | [] => []
  | stmt :: rest => stmt.rebound bound :: Stmt.reboundAll (stmt.boundAfter bound) rest

/-- The same for the arms of a conditional statement. -/
def Arms.rebound (bound : List String) : Arms → Arms
  | .done => .done
  | .otherwise body => .otherwise (Stmt.reboundAll bound body)
  | .arm condition body rest =>
    .arm condition (Stmt.reboundAll bound body) (rest.rebound bound)

end

/-- Names that are all bound are not bound anew. -/
theorem bindNames_of_subset {names bound : List String} (h : names ⊆ bound) :
    bindNames names bound = bound := by
  induction names with
  | nil => rfl
  | cons x names ih =>
    obtain ⟨hx, hnames⟩ := List.cons_subset.1 h
    rw [bindNames, if_pos hx]
    exact ih hnames

theorem subset_of_all {names bound : List String} (h : names.all (· ∈ bound) = true) :
    names ⊆ bound := by
  intro x hx
  exact of_decide_eq_true (List.all_eq_true.1 h x hx)

theorem Pattern.targetText_target (pattern : Pattern) :
    targetText pattern.target = patternText pattern := by
  cases pattern with
  | single x => rfl
  | tuple names => rfl

mutual

/-- An assignment that stands for a declaration is printed like it. -/
theorem stmtLines_rebound (depth : Nat) (bound : List String) :
    (stmt : Stmt) → stmtLines depth bound (stmt.rebound bound) = stmtLines depth bound stmt
  | .comment _ => rfl
  | .function _ params body => by
    simp only [Stmt.rebound, stmtLines, stmtsLines_reboundAll (depth + 1) params body]
  | .declare _ none _ => rfl
  | .declare _ (some _) true => rfl
  | .declare pattern (some value) false => by
    unfold Stmt.rebound
    split
    · rename_i hall
      have hequals : (" = " : String) = " " ++ "=" ++ " " := rfl
      simp only [stmtLines, hall, if_true, assignmentText, hequals,
        bindNames_of_subset (subset_of_all hall), pattern.targetText_target, String.append_assoc,
        String.empty_append, Bool.false_eq_true, if_false]
    · rfl
  | .assign .. => rfl
  | .expr _ => rfl
  | .cond arms => by simp only [Stmt.rebound, stmtLines, armsLines_rebound depth bound "if" arms]
  | .while _ body => by
    simp only [Stmt.rebound, stmtLines, stmtsLines_reboundAll (depth + 1) bound body]
  | .forEach pattern _ body => by
    simp only [Stmt.rebound, stmtLines,
      stmtsLines_reboundAll (depth + 1) (bindNames pattern.names bound) body]
  | .return _ => rfl
  | .break => rfl
  | .continue => rfl
  | .throw .. => rfl

theorem stmtsLines_reboundAll (depth : Nat) (bound : List String) :
    (stmts : List Stmt) →
      stmtsLines depth bound (Stmt.reboundAll bound stmts) = stmtsLines depth bound stmts
  | [] => rfl
  | stmt :: rest => by
    simp only [Stmt.reboundAll, stmtsLines, stmtLines_rebound depth bound stmt,
      snd_stmtLines depth bound stmt, stmtsLines_reboundAll depth _ rest]

theorem armsLines_rebound (depth : Nat) (bound : List String) (word : String) :
    (arms : Arms) →
      armsLines depth bound word (arms.rebound bound) = armsLines depth bound word arms
  | .done => rfl
  | .otherwise body => by
    simp only [Arms.rebound, armsLines, stmtsLines_reboundAll (depth + 1) bound body]
  | .arm _ body rest => by
    simp only [Arms.rebound, armsLines, stmtsLines_reboundAll (depth + 1) bound body,
      armsLines_rebound depth bound _ rest]

end

/-- The tree in which bound names are assigned to is printed like the one that it comes from. -/
theorem print_reboundAll (body : List Stmt) : print (Stmt.reboundAll [] body) = print body := by
  rw [print, print, stmtsLines_reboundAll]

end Labyrinth
