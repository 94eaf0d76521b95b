import Labyrinth.Machine.Lowering
import Labyrinth.Proofs.Language.Bound
import Labyrinth.Proofs.Language.WellFormed

/-!
# Names that are declared twice

Where all names of a declaration are bound already, the printer writes an assignment. The names that
are **reassigned** in this way should not be those of constants, to which nothing can be assigned. A
frame is the top level or the body of a function; what is declared in a function belongs to its own
frame.

## Main results

* `Stmt.allConstants`, `Stmt.allReassigned`: what is declared as a constant in a frame, and what is
  assigned to there in place of a declaration.
* `Stmt.allConstants_eq_nil`: the indented dialect has no constants.
-/

namespace Labyrinth

open Labyrinth.Braced

mutual

/-- The names that a statement declares as constants in its frame. -/
def Stmt.constants : Stmt → List String
  | .declare pattern _ true => pattern.names
  | .cond arms => arms.constants
  | .while _ body => Stmt.allConstants body
  | .forEach _ _ body => Stmt.allConstants body
  | _ => []

/-- The names that several statements declare as constants in their frame. -/
def Stmt.allConstants : List Stmt → List String
  | [] => []
  | stmt :: rest => stmt.constants ++ Stmt.allConstants rest

/-- The names that the arms of a conditional statement declare as constants in their frame. -/
def Arms.constants : Arms → List String
  | .done => []
  | .otherwise body => Stmt.allConstants body
  | .arm _ body rest => Stmt.allConstants body ++ rest.constants

end

mutual

/-- The names of the declarations in a statement that are written as assignments. -/
def Stmt.reassigned (bound : List String) : Stmt → List String
  | .declare pattern (some _) false =>
    if pattern.names.all (· ∈ bound) then pattern.names else []
  | .cond arms => arms.reassigned bound
  | .while _ body => Stmt.allReassigned bound body
  | .forEach pattern _ body => Stmt.allReassigned (bindNames pattern.names bound) body
  | _ => []

/-- The names of the declarations in several statements that are written as assignments. -/
def Stmt.allReassigned (bound : List String) : List Stmt → List String
  | [] => []
  | stmt :: rest => stmt.reassigned bound ++ Stmt.allReassigned (stmt.boundAfter bound) rest

/-- The names of the declarations in the arms of a conditional statement that are written as
assignments. -/
def Arms.reassigned (bound : List String) : Arms → List String
  | .done => []
  | .otherwise body => Stmt.allReassigned bound body
  | .arm _ body rest => Stmt.allReassigned bound body ++ rest.reassigned bound

end

/-- In every frame of a program, the names that are assigned to in place of a declaration have a
property, which may depend on the constants of the frame. -/
structure Stmt.ReassignsAll (P : List String → String → Prop) (program : List Stmt) : Prop where
  top : ∀ x ∈ Stmt.allReassigned [] program, P (Stmt.allConstants program) x
  functions : ∀ d ∈ Stmt.allDefinitions program, ∀ x ∈ Stmt.allReassigned d.params d.body,
    P (Stmt.allConstants d.body) x

theorem Stmt.ReassignsAll.imp {P Q : List String → String → Prop} {program : List Stmt}
    (h : Stmt.ReassignsAll P program) (himp : ∀ constants x, P constants x → Q constants x) :
    Stmt.ReassignsAll Q program :=
  ⟨fun x hx => himp _ x (h.top x hx), fun d hd x hx => himp _ x (h.functions d hd x hx)⟩

mutual

/-- A statement of the indented dialect declares no constants. -/
theorem Stmt.constants_eq_nil {around : Surroundings} :
    (stmt : Stmt) → stmt.WellFormed .indented around → stmt.constants = []
  | .comment _, _ => rfl
  | .function .., _ => rfl
  | .declare _ _ true, hwf => nomatch hwf.2.2.2 rfl
  | .declare _ _ false, _ => rfl
  | .assign .., _ => rfl
  | .expr _, _ => rfl
  | .cond arms, hwf => Arms.constants_eq_nil arms hwf.2
  | .while _ body, hwf => Stmt.allConstants_eq_nil body hwf.2
  | .forEach _ _ body, hwf => Stmt.allConstants_eq_nil body hwf.2.2
  | .return _, _ => rfl
  | .break, _ => rfl
  | .continue, _ => rfl
  | .throw .., _ => rfl

theorem Stmt.allConstants_eq_nil {around : Surroundings} :
    (stmts : List Stmt) → Stmt.AllWellFormed .indented around stmts → Stmt.allConstants stmts = []
  | [], _ => rfl
  | stmt :: rest, hwf => by
    rw [Stmt.allConstants, Stmt.constants_eq_nil stmt hwf.1, Stmt.allConstants_eq_nil rest hwf.2,
      List.append_nil]

theorem Arms.constants_eq_nil {around : Surroundings} :
    (arms : Arms) → arms.WellFormed .indented around → arms.constants = []
  | .done, _ => rfl
  | .otherwise body, hwf => Stmt.allConstants_eq_nil body hwf
  | .arm _ body rest, hwf => by
    rw [Arms.constants, Stmt.allConstants_eq_nil body hwf.2.1, Arms.constants_eq_nil rest hwf.2.2,
      List.append_nil]

end

end Labyrinth
