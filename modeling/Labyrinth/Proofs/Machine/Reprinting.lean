import Labyrinth.Proofs.Machine.Normalization

/-!
# Reprinted programs

A program of the braced dialect is **reprinted** by being read and printed in the same dialect. The
printer writes a declaration as an assignment where all its names are bound, whether or not they are
bound as constants, and whether or not they can be written as expressions. Where they can be
assigned to, the reprinted program is refused only for being nested too deep, and otherwise has the
same runs.

## Main results

* `Program.run_reprint`: the runs of a program and of the reprinted one.
* `Program.run_reprint_constant`: a constant that is declared once more is assigned to when the
  program is reprinted.
-/

namespace Labyrinth

open Labyrinth.Braced

/-- A printable program, in which no constant is assigned to in place of a declaration, is reprinted
as a program that is refused for being nested too deep, or one that is accepted and has the same
runs: under all limits and in every world they have the same result, print the same lines and leave
the same world. -/
theorem Program.run_reprint {source : String} {body : List Stmt}
    (h : Braced.parse source = .ok body)
    (hprintable : Stmt.AllPrintable body)
    (hfree : Stmt.ReassignsAll (fun constants x => x ∉ constants) body) :
    (∃ position, Braced.parse (print body) = .error ⟨position, .nestingTooDeep⟩) ∨
      (∃ again, Braced.parse (print body) = .ok again) ∧
        ∀ (limits : Limits) (w : World),
          Program.run ⟨.braced, print body⟩ limits w = Program.run ⟨.braced, source⟩ limits w := by
  obtain ⟨hwf, hnames⟩ := Braced.wellFormed_of_parse h
  rcases parse_print_of_wellFormed hwf hnames hprintable with hdeep | hparse
  · exact .inl hdeep
  · refine .inr ⟨⟨_, hparse⟩, fun limits w => ?_⟩
    have hread : Program.read ⟨.braced, source⟩ = .ok body := h
    exact Program.run_print hread hfree hparse limits w

/-- A program that declares a name twice, and a constant. -/
def Braced.again : String := "let x = 1; let x = x + 1; const y = x;"

/-- The tree of `again`. -/
def Braced.againBody : List Stmt :=
  [.declare (.single "x") (some (.literal (.int 1))) false,
    .declare (.single "x") (some (.binary .add (.name "x") (.literal (.int 1)))) false,
    .declare (.single "y") (some (.name "x")) true]

theorem Program.run_reprint_again :
    Braced.parse Braced.again = .ok Braced.againBody ∧ Stmt.AllPrintable Braced.againBody ∧
      Stmt.ReassignsAll (fun constants x => x ∉ constants) Braced.againBody ∧
        ((∃ position, Braced.parse (print Braced.againBody) = .error ⟨position, .nestingTooDeep⟩) ∨
          (∃ again, Braced.parse (print Braced.againBody) = .ok again) ∧
            ∀ (limits : Limits) (w : World),
              Program.run ⟨.braced, print Braced.againBody⟩ limits w =
                Program.run ⟨.braced, Braced.again⟩ limits w) := by
  have hparse : Braced.parse Braced.again = .ok Braced.againBody := by cbv
  have hx : IsFree "x" := ⟨by decide, by decide, by decide⟩
  have hy : IsFree "y" := ⟨by decide, by decide, by decide⟩
  have hprintable : Stmt.AllPrintable Braced.againBody := by
    simp [Braced.againBody, Stmt.AllPrintable, Stmt.Printable, Pattern.Printable, Pattern.names,
      Expr.OptionPrintable, Expr.Printable, hx, hy]
  have hfree : Stmt.ReassignsAll (fun constants x => x ∉ constants) Braced.againBody :=
    ⟨by decide, fun d hd => absurd hd List.not_mem_nil⟩
  exact ⟨hparse, hprintable, hfree, Program.run_reprint hparse hprintable hfree⟩

/-- A constant that is declared once more, as a variable. -/
def Braced.overridden : String := "const c = 1; let c = 2;"

/-- The text as which `overridden` is reprinted. -/
def Braced.overwritten : String := "const c = 1;\nc = 2;\n"

theorem Braced.parse_overridden : Braced.parse Braced.overridden =
    .ok [.declare (.single "c") (some (.literal (.int 1))) true,
      .declare (.single "c") (some (.literal (.int 2))) false] := by cbv

theorem Braced.parse_overwritten : Braced.parse Braced.overwritten =
    .ok [.declare (.single "c") (some (.literal (.int 1))) true,
      .assign (.name "c") none (.literal (.int 2))] := by cbv

/-- A program that declares the name of a built-in object twice. -/
def Braced.shadowing : String := "let Math = 1; let Math = 2;"

theorem Braced.parse_shadowing : Braced.parse Braced.shadowing =
    .ok [.declare (.single "Math") (some (.literal (.int 1))) false,
      .declare (.single "Math") (some (.literal (.int 2))) false] := by cbv

theorem Braced.parse_print_shadowing :
    Braced.parse "let Math = 1;\nMath = 2;\n" = .error ⟨⟨2, 6⟩, .expected "." (.op "=")⟩ := by cbv

/-- The reprinted program fails where the program comes to its end. Another one is not even
accepted, for the name of a built-in object can be declared but not assigned to. -/
theorem Program.run_reprint_constant :
    (∃ body, Braced.parse Braced.overridden = .ok body ∧ print body = Braced.overwritten) ∧
      (Program.run ⟨.braced, Braced.overridden⟩ ⟨100, 10⟩ .corridor).1.result = .missed ∧
        (Program.run ⟨.braced, Braced.overwritten⟩ ⟨100, 10⟩ .corridor).1.result =
          .errored (Fault.constantAssignment "c").message ∧
        ∃ body err, Braced.parse Braced.shadowing = .ok body ∧
          Braced.parse (print body) = .error err ∧ err.cause ≠ .nestingTooDeep := by
  refine ⟨⟨_, Braced.parse_overridden, rfl⟩, ?_, ?_,
    _, _, Braced.parse_shadowing, Braced.parse_print_shadowing, nofun⟩
  · have hcode : Program.code ⟨.braced, Braced.overridden⟩ =
        .ok ⟨#[.push (.int 1), .declare "c" true, .push (.int 2), .declare "c" false, .halt],
          #[]⟩ := by
      rw [Program.code, Program.read, Braced.parse_overridden]
      rfl
    rw [Program.run_eq_drive hcode]
    cbv
  · have hcode : Program.code ⟨.braced, Braced.overwritten⟩ =
        .ok ⟨#[.push (.int 1), .declare "c" true, .push (.int 2), .store "c", .halt], #[]⟩ := by
      rw [Program.code, Program.read, Braced.parse_overwritten]
      rfl
    have hended : ((Machine.start ⟨#[.push (.int 1), .declare "c" true, .push (.int 2), .store "c",
        .halt], #[]⟩ ⟨100, 10⟩).resume World.corridor.reset).1 =
          .ended (.faulted (.constantAssignment "c")) := by cbv
    rw [Program.run_eq_drive hcode, Engine.drive_of_ended _ _ (Prod.ext hended rfl)]
    rfl

end Labyrinth
