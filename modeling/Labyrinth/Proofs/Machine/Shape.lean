import Labyrinth.Language.Braced.Printer
import Labyrinth.Machine.Code

/-!
# Shapes

A **shape** tells what is known when an instruction is reached: how many operands lie above the
base of the innermost call, how many iterators its scope keeps, which names are certainly bound
in it, and whether there is a call at all. It is part of no state; a **layout** assigns one shape
to every position of a code, so that the operands of every instruction are accounted for before
the code is run.

An instruction `Flows` from a shape if it finds its operands there and the layout accepts it at
every position to which it may lead. A layout accepts a shape at a position if it demands no
more than the shape promises.

## Main results

* `Segment.append`: layouts of consecutive pieces of code.
* `Segment.flows`: an instruction in a piece of code flows from the shape beside it.
-/

namespace Labyrinth

open Labyrinth.Braced

/-- What is known when an instruction is reached. -/
structure Shape where
  /-- The number of operands above the base of the innermost call. -/
  height : Nat
  /-- The number of iterators in the innermost scope. -/
  iterators : Nat
  /-- Names that are bound in the innermost scope. -/
  bound : List String
  /-- Whether a call is in progress. -/
  inFunction : Bool
  deriving DecidableEq, Repr

namespace Shape

/-- At the beginning of a program. -/
def top : Shape := ⟨0, 0, [], false⟩

/-- At the beginning of a function. -/
def entry (params : List String) : Shape := ⟨0, 0, params, true⟩

/-- With further operands. -/
def raise (s : Shape) (n : Nat) : Shape := { s with height := s.height + n }

/-- With other bound names. -/
def knows (s : Shape) (bound : List String) : Shape := { s with bound := bound }

/-- After names have been bound. -/
def bind (s : Shape) (names : List String) : Shape := s.knows (bindNames names s.bound)

/-- With one more iterator. -/
def iterate (s : Shape) : Shape := { s with iterators := s.iterators + 1 }

/-- Without the innermost iterator. -/
def drop (s : Shape) : Shape := { s with iterators := s.iterators - 1 }

@[simp]
theorem raise_zero (s : Shape) : s.raise 0 = s := rfl

@[simp]
theorem raise_raise (s : Shape) (m n : Nat) : (s.raise m).raise n = s.raise (n + m) := by
  simp [raise, Nat.add_comm n, Nat.add_assoc]

@[simp]
theorem knows_bound (s : Shape) : s.knows s.bound = s := rfl

@[simp]
theorem iterate_drop {s : Shape} (h : 1 ≤ s.iterators) : s.drop.iterate = s := by
  simp [iterate, drop, Nat.sub_add_cancel h]

@[simp]
theorem drop_iterate (s : Shape) : s.iterate.drop = s := rfl

/-- A shape that promises at least as much as another one. Only the bound names can differ. -/
structure Refines (s t : Shape) : Prop where
  height : s.height = t.height
  iterators : s.iterators = t.iterators
  bound : t.bound ⊆ s.bound
  inFunction : s.inFunction = t.inFunction

namespace Refines

variable {s t u : Shape}

theorem refl (s : Shape) : s.Refines s := ⟨rfl, rfl, List.Subset.refl _, rfl⟩

theorem trans (h : s.Refines t) (h' : t.Refines u) : s.Refines u :=
  ⟨h.height.trans h'.height, h.iterators.trans h'.iterators,
    List.Subset.trans h'.bound h.bound, h.inFunction.trans h'.inFunction⟩

theorem raise (h : s.Refines t) (n : Nat) : (s.raise n).Refines (t.raise n) :=
  ⟨congrArg (· + n) h.height, h.iterators, h.bound, h.inFunction⟩

theorem drop (h : s.Refines t) : s.drop.Refines t.drop :=
  ⟨h.height, congrArg (· - 1) h.iterators, h.bound, h.inFunction⟩

theorem knows {xs ys : List String} (h : ys ⊆ xs) : (s.knows xs).Refines (s.knows ys) :=
  ⟨rfl, rfl, h, rfl⟩

end Refines

end Shape

/-- From the shape `s`, so many operands can be taken and replaced by others. -/
def Shape.Exchanges (accept : Nat → Shape → Prop) (next : Nat) (s : Shape)
    (taken given : Nat) : Prop :=
  ∃ b : Shape, s = b.raise taken ∧ accept next (b.raise given)

/-- From the shape `s`, the instruction finds its operands and leads only to positions that
`accept` the shape it then has. `next` is the position behind the instruction. -/
def Instr.Flows (functions : Array FunctionEntry) (accept : Nat → Shape → Prop) (next : Nat)
    (s : Shape) : Instr → Prop
  | push _ => accept next (s.raise 1)
  | load _ => accept next (s.raise 1)
  | declare x _ => ∃ b : Shape, s = b.raise 1 ∧ accept next (b.bind [x])
  | store _ => s.Exchanges accept next 1 0
  | unpack count => s.Exchanges accept next 1 count
  | loadIndex => s.Exchanges accept next 2 1
  | storeIndex => s.Exchanges accept next 3 0
  | duplicatePair => s.Exchanges accept next 2 4
  | loadAttribute _ => s.Exchanges accept next 1 1
  | unary _ => s.Exchanges accept next 1 1
  | binary _ => s.Exchanges accept next 2 1
  | jump target => accept target s
  | jumpIfFalse target => ∃ b : Shape, s = b.raise 1 ∧ accept next b ∧ accept target b
  | jumpIfFalseElsePop target => ∃ b : Shape, s = b.raise 1 ∧ accept next b ∧ accept target s
  | jumpIfTrueElsePop target => ∃ b : Shape, s = b.raise 1 ∧ accept next b ∧ accept target s
  | buildList count => s.Exchanges accept next count 1
  | buildSet => s.Exchanges accept next 1 1
  | buildMap => s.Exchanges accept next 1 1
  | iterStart => ∃ b : Shape, s = b.raise 1 ∧ accept next b.iterate
  | iterNext exit => ∃ b : Shape, s = b.iterate ∧ accept next (s.raise 1) ∧ accept exit b
  | iterDrop => ∃ b : Shape, s = b.iterate ∧ accept next b
  | call function argc => s.Exchanges accept next argc 1 ∧
      ∃ f : FunctionEntry, functions[function]? = some f ∧ accept f.entry (.entry f.params)
  | callUndefined _ => True
  | builtin _ argc => s.Exchanges accept next argc 1
  | method _ argc => s.Exchanges accept next (argc + 1) 1
  | capability _ argc => s.Exchanges accept next argc 1
  | pop => s.Exchanges accept next 1 0
  | «return» => s.inFunction = true ∧ ∃ b : Shape, s = b.raise 1
  | throw => ∃ b : Shape, s = b.raise 1
  | halt => s.height = 0 ∧ s.iterators = 0 ∧ s.inFunction = false

/-- The layout that is given by a list of shapes accepts a shape at a position. -/
def Accepts (layout : List Shape) (position : Nat) (s : Shape) : Prop :=
  ∃ t, layout[position]? = some t ∧ s.Refines t

/-- Whatever promises more is accepted, too. -/
def Upward (accept : Nat → Shape → Prop) : Prop :=
  ∀ position (s t : Shape), accept position s → t.Refines s → accept position t

theorem upward_accepts (layout : List Shape) : Upward (Accepts layout) := by
  rintro position s t ⟨u, hu, hs⟩ ht
  exact ⟨u, hu, ht.trans hs⟩

section Segments

variable (functions : Array FunctionEntry) (accept : Nat → Shape → Prop)

/-- The shapes stand in the layout from a position on. -/
def Stands (start : Nat) (shapes : List Shape) : Prop :=
  ∀ (i : Nat) (s : Shape), shapes[i]? = some s → accept (start + i) s

/-- Every instruction of a piece of code flows from the shape beside it. -/
def AllFlow : (start : Nat) → List Instr → List Shape → Prop
  | _, [], [] => True
  | start, instr :: instrs, s :: shapes =>
    instr.Flows functions accept (start + 1) s ∧ AllFlow (start + 1) instrs shapes
  | _, _, _ => False

/-- A piece of code with its layout, which is reached with the shape `s`. -/
structure Segment (start : Nat) (s : Shape) (instrs : List Instr) (shapes : List Shape) :
    Prop where
  accepted : accept start s
  flow : AllFlow functions accept start instrs shapes

end Segments

variable {functions : Array FunctionEntry} {accept : Nat → Shape → Prop}

theorem Stands.append {start : Nat} {xs ys : List Shape} (h : Stands accept start (xs ++ ys)) :
    Stands accept start xs ∧ Stands accept (start + xs.length) ys := by
  refine ⟨fun i s hs => h i s ?_, fun i s hs => ?_⟩
  · obtain ⟨hi, -⟩ := List.getElem?_eq_some_iff.1 hs
    rw [List.getElem?_append_left hi, hs]
  · rw [Nat.add_assoc]
    refine h (xs.length + i) s ?_
    rw [List.getElem?_append_right (Nat.le_add_right _ _), Nat.add_sub_cancel_left, hs]

theorem Stands.head {start : Nat} {s : Shape} {shapes : List Shape}
    (h : Stands accept start (s :: shapes)) : accept start s := h 0 s rfl

theorem Stands.tail {start : Nat} {s : Shape} {shapes : List Shape}
    (h : Stands accept start (s :: shapes)) : Stands accept (start + 1) shapes :=
  (show Stands accept start ([s] ++ shapes) from h).append.2

theorem stands_accepts (layout : List Shape) : Stands (Accepts layout) 0 layout := by
  intro i s hs
  exact ⟨s, by rwa [Nat.zero_add], .refl s⟩

theorem AllFlow.length_eq {start : Nat} {instrs : List Instr} {shapes : List Shape}
    (h : AllFlow functions accept start instrs shapes) : instrs.length = shapes.length := by
  induction instrs generalizing start shapes with
  | nil =>
    cases shapes with
    | nil => rfl
    | cons => exact h.elim
  | cons instr instrs ih =>
    cases shapes with
    | nil => exact h.elim
    | cons s shapes => exact congrArg (· + 1) (ih h.2)

theorem AllFlow.append {start : Nat} {is js : List Instr} {xs ys : List Shape}
    (h : AllFlow functions accept start is xs)
    (h' : AllFlow functions accept (start + is.length) js ys) :
    AllFlow functions accept start (is ++ js) (xs ++ ys) := by
  induction is generalizing start xs with
  | nil =>
    cases xs with
    | nil => exact h'
    | cons => exact h.elim
  | cons i is ih =>
    cases xs with
    | nil => exact h.elim
    | cons x xs =>
      refine ⟨h.1, ih h.2 ?_⟩
      rwa [List.length_cons, Nat.add_comm is.length, ← Nat.add_assoc] at h'

theorem AllFlow.get {start : Nat} {instrs : List Instr} {shapes : List Shape}
    (h : AllFlow functions accept start instrs shapes) {i : Nat} {instr : Instr}
    (hi : instrs[i]? = some instr) :
    ∃ s, shapes[i]? = some s ∧ instr.Flows functions accept (start + i + 1) s := by
  induction instrs generalizing start shapes i with
  | nil => simp at hi
  | cons j instrs ih =>
    cases shapes with
    | nil => exact h.elim
    | cons s shapes =>
      cases i with
      | zero =>
        cases hi
        exact ⟨s, rfl, h.1⟩
      | succ i =>
        obtain ⟨t, ht, hflow⟩ := ih h.2 hi
        refine ⟨t, ht, ?_⟩
        rwa [show start + (i + 1) + 1 = start + 1 + i + 1 by omega]

namespace Segment

variable {start : Nat} {s t : Shape} {is js : List Instr} {xs ys : List Shape}

/-- A piece of code behind another one, which accepts what the first one leaves. -/
theorem appendAt (middle : Nat) (hmiddle : start + is.length = middle)
    (hstands : Stands accept start (xs ++ ys)) (hlength : xs.length = is.length)
    (h' : Stands accept middle ys → Segment functions accept middle t js ys)
    (h : Stands accept start xs → accept middle t → Segment functions accept start s is xs) :
    Segment functions accept start s (is ++ js) (xs ++ ys) := by
  subst hmiddle
  obtain ⟨hxs, hys⟩ := hstands.append
  rw [hlength] at hys
  obtain ⟨hmiddle, hflow'⟩ := h' hys
  obtain ⟨haccept, hflow⟩ := h hxs hmiddle
  exact ⟨haccept, hflow.append hflow'⟩

theorem append (hstands : Stands accept start (xs ++ ys)) (hlength : xs.length = is.length)
    (h' : Stands accept (start + is.length) ys →
      Segment functions accept (start + is.length) t js ys)
    (h : Stands accept start xs → accept (start + is.length) t →
      Segment functions accept start s is xs) :
    Segment functions accept start s (is ++ js) (xs ++ ys) :=
  appendAt _ rfl hstands hlength h' h

/-- A single instruction. -/
theorem single {i : Instr} (hstands : Stands accept start [s])
    (hflow : i.Flows functions accept (start + 1) s) :
    Segment functions accept start s [i] [s] :=
  ⟨hstands.head, hflow, trivial⟩

/-- An instruction behind a piece of code. -/
theorem snoc {i : Instr} (hstands : Stands accept start (xs ++ [t]))
    (hlength : xs.length = is.length)
    (hflow : i.Flows functions accept (start + is.length + 1) t)
    (h : Stands accept start xs → accept (start + is.length) t →
      Segment functions accept start s is xs) :
    Segment functions accept start s (is ++ [i]) (xs ++ [t]) :=
  append hstands hlength (fun hstands => single hstands hflow) h

/-- An instruction before a piece of code. -/
theorem cons {i : Instr} (hstands : Stands accept start (s :: ys))
    (h : Segment functions accept (start + 1) t js ys)
    (hflow : accept (start + 1) t → i.Flows functions accept (start + 1) s) :
    Segment functions accept start s (i :: js) (s :: ys) :=
  ⟨hstands.head, hflow h.accepted, h.flow⟩

/-- A piece of code without instructions. -/
theorem nil (h : accept start s) : Segment functions accept start s [] [] := ⟨h, trivial⟩

end Segment

end Labyrinth
