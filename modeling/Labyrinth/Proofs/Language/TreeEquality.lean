import Labyrinth.Language.Tree

/-!
# Equality of trees

Two program trees are compared node by node. The comparison is a computation, so it can be decided
whether a parser has read a certain tree.

## Main results

* `Expr.beq_iff`, `Stmt.beq_iff`: the comparison tells whether two trees are equal.
-/

namespace Labyrinth

mutual

/-- Whether two expressions are the same. -/
def Expr.beq : Expr → Expr → Bool
  | .literal a, .literal b => decide (a = b)
  | .name x, .name y => decide (x = y)
  | .list as, .list bs => Expr.allBeq as bs
  | .emptySet, .emptySet => true
  | .setOf a, .setOf b => a.beq b
  | .emptyMap, .emptyMap => true
  | .mapOf a, .mapOf b => a.beq b
  | .unary o a, .unary o' b => decide (o = o') && a.beq b
  | .binary o a b, .binary o' a' b' => decide (o = o') && a.beq a' && b.beq b'
  | .logical o a b, .logical o' a' b' => decide (o = o') && a.beq a' && b.beq b'
  | .call f as, .call g bs => decide (f = g) && Expr.allBeq as bs
  | .builtin f as, .builtin g bs => decide (f = g) && Expr.allBeq as bs
  | .capability c as, .capability d bs => decide (c = d) && Expr.allBeq as bs
  | .method a m as, .method b n bs => a.beq b && decide (m = n) && Expr.allBeq as bs
  | .index a i, .index b j => a.beq b && i.beq j
  | .attribute a x, .attribute b y => a.beq b && decide (x = y)
  | _, _ => false

/-- Whether two lists of expressions are the same. -/
def Expr.allBeq : List Expr → List Expr → Bool
  | [], [] => true
  | a :: as, b :: bs => a.beq b && Expr.allBeq as bs
  | _, _ => false

end

mutual

theorem Expr.beq_iff : (a b : Expr) → (a.beq b = true ↔ a = b)
  | .literal _, b => by cases b <;> simp [beq]
  | .name _, b => by cases b <;> simp [beq]
  | .list as, b => by cases b <;> simp [beq, Expr.allBeq_iff as]
  | .emptySet, b => by cases b <;> simp [beq]
  | .setOf a, b => by cases b <;> simp [beq, Expr.beq_iff a]
  | .emptyMap, b => by cases b <;> simp [beq]
  | .mapOf a, b => by cases b <;> simp [beq, Expr.beq_iff a]
  | .unary _ a, b => by cases b <;> simp [beq, Expr.beq_iff a]
  | .binary _ a a', b => by cases b <;> simp [beq, Expr.beq_iff a, Expr.beq_iff a', and_assoc]
  | .logical _ a a', b => by cases b <;> simp [beq, Expr.beq_iff a, Expr.beq_iff a', and_assoc]
  | .call _ as, b => by cases b <;> simp [beq, Expr.allBeq_iff as]
  | .builtin _ as, b => by cases b <;> simp [beq, Expr.allBeq_iff as]
  | .capability _ as, b => by cases b <;> simp [beq, Expr.allBeq_iff as]
  | .method a _ as, b => by
    cases b <;> simp [beq, Expr.beq_iff a, Expr.allBeq_iff as, and_assoc]
  | .index a i, b => by cases b <;> simp [beq, Expr.beq_iff a, Expr.beq_iff i]
  | .attribute a _, b => by cases b <;> simp [beq, Expr.beq_iff a]

theorem Expr.allBeq_iff : (as bs : List Expr) → (Expr.allBeq as bs = true ↔ as = bs)
  | [], bs => by cases bs <;> simp [Expr.allBeq]
  | a :: as, bs => by cases bs <;> simp [Expr.allBeq, Expr.beq_iff a, Expr.allBeq_iff as]

end

/-- Whether two optional expressions are the same. -/
def Expr.optionBeq : Option Expr → Option Expr → Bool
  | some a, some b => a.beq b
  | none, none => true
  | _, _ => false

theorem Expr.optionBeq_iff (a b : Option Expr) : Expr.optionBeq a b = true ↔ a = b := by
  cases a <;> cases b <;> simp [Expr.optionBeq, Expr.beq_iff]

/-- Whether two targets are the same. -/
def Target.beq : Target → Target → Bool
  | .name x, .name y => decide (x = y)
  | .index a i, .index b j => a.beq b && i.beq j
  | .tuple xs, .tuple ys => decide (xs = ys)
  | _, _ => false

theorem Target.beq_iff (t u : Target) : t.beq u = true ↔ t = u := by
  cases t <;> cases u <;> simp [beq, Expr.beq_iff]

mutual

/-- Whether two statements are the same. -/
def Stmt.beq : Stmt → Stmt → Bool
  | .comment s, .comment t => decide (s = t)
  | .function f xs as, .function g ys bs =>
    decide (f = g) && decide (xs = ys) && Stmt.allBeq as bs
  | .declare p a c, .declare q b d => decide (p = q) && Expr.optionBeq a b && decide (c = d)
  | .assign t o a, .assign u o' b => t.beq u && decide (o = o') && a.beq b
  | .expr a, .expr b => a.beq b
  | .cond as, .cond bs => as.beq bs
  | .while a as, .while b bs => a.beq b && Stmt.allBeq as bs
  | .forEach p a as, .forEach q b bs => decide (p = q) && a.beq b && Stmt.allBeq as bs
  | .return a, .return b => Expr.optionBeq a b
  | .break, .break => true
  | .continue, .continue => true
  | .throw c a, .throw d b => decide (c = d) && a.beq b
  | _, _ => false

/-- Whether two lists of statements are the same. -/
def Stmt.allBeq : List Stmt → List Stmt → Bool
  | [], [] => true
  | a :: as, b :: bs => a.beq b && Stmt.allBeq as bs
  | _, _ => false

/-- Whether the arms of two conditional statements are the same. -/
def Arms.beq : Arms → Arms → Bool
  | .done, .done => true
  | .otherwise as, .otherwise bs => Stmt.allBeq as bs
  | .arm a as x, .arm b bs y => a.beq b && Stmt.allBeq as bs && x.beq y
  | _, _ => false

end

mutual

theorem Stmt.beq_iff : (a b : Stmt) → (a.beq b = true ↔ a = b)
  | .comment _, b => by cases b <;> simp [Stmt.beq]
  | .function _ _ as, b => by cases b <;> simp [Stmt.beq, Stmt.allBeq_iff as, and_assoc]
  | .declare _ _ _, b => by cases b <;> simp [Stmt.beq, Expr.optionBeq_iff, and_assoc]
  | .assign _ _ _, b => by cases b <;> simp [Stmt.beq, Target.beq_iff, Expr.beq_iff, and_assoc]
  | .expr _, b => by cases b <;> simp [Stmt.beq, Expr.beq_iff]
  | .cond as, b => by cases b <;> simp [Stmt.beq, Arms.beq_iff as]
  | .while _ as, b => by cases b <;> simp [Stmt.beq, Expr.beq_iff, Stmt.allBeq_iff as]
  | .forEach _ _ as, b => by
    cases b <;> simp [Stmt.beq, Expr.beq_iff, Stmt.allBeq_iff as, and_assoc]
  | .return _, b => by cases b <;> simp [Stmt.beq, Expr.optionBeq_iff]
  | .break, b => by cases b <;> simp [Stmt.beq]
  | .continue, b => by cases b <;> simp [Stmt.beq]
  | .throw _ _, b => by cases b <;> simp [Stmt.beq, Expr.beq_iff]

theorem Stmt.allBeq_iff : (as bs : List Stmt) → (Stmt.allBeq as bs = true ↔ as = bs)
  | [], bs => by cases bs <;> simp [Stmt.allBeq]
  | a :: as, bs => by cases bs <;> simp [Stmt.allBeq, Stmt.beq_iff a, Stmt.allBeq_iff as]

theorem Arms.beq_iff : (a b : Arms) → (a.beq b = true ↔ a = b)
  | .done, b => by cases b <;> simp [Arms.beq]
  | .otherwise as, b => by cases b <;> simp [Arms.beq, Stmt.allBeq_iff as]
  | .arm _ as x, b => by
    cases b <;> simp [Arms.beq, Expr.beq_iff, Stmt.allBeq_iff as, Arms.beq_iff x, and_assoc]

end

instance : DecidableEq Stmt := fun a b => decidable_of_iff _ (Stmt.beq_iff a b)

end Labyrinth
