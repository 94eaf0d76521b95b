import Labyrinth.Proofs.Language.Comments
import Labyrinth.Proofs.Language.RereadingStatements
import Labyrinth.Proofs.Machine.Runs

/-!
# Printing and reading again

The text of a printable program is refused by the braced dialect only for being nested too deep.
Otherwise the program is read from it again, without its comments, and with an assignment in place
of every declaration that the printer writes as one.

## Main results

* `parse_print_of_wellFormed`: what is read from the text of a well-formed and printable tree.
* `Program.parse_print`: the same for every program, and what is printed again.
-/

namespace Labyrinth

open Labyrinth.Parser Labyrinth.Braced

/-- The loop of a program gathers statements up to the end. -/
theorem gathers_program (p : Parser (List Stmt)) :
    Gathers (do if ← check .eof then return .stop else return .more (← p)) p [] where
  more _ _ _ hnext hp := .bind (yields_check_of_ne hnext.2.1) (Yields.map hp)
  stop _ := .bind (yields_check_of_eq rfl) .pure

/-- The whole program is read from its tokens. -/
theorem yields_program {d : Dialect} {body : List Stmt} (hwf : Stmt.AllWellFormed d .top body)
    (hprintable : Stmt.AllPrintable body) :
    Yields program ⟨Stmt.allKinds [] body, Stmt.functionNames body⟩ ⟨[], []⟩
      (Stmt.allUncommented (Stmt.reboundAll [] body)) := by
  have hgathered : Stmt.Gathered .top [] body := Stmt.gathered body hwf hprintable
  obtain ⟨pieces, hpieces, hyields⟩ :=
    hgathered.yields maxNesting _ [] [] nofun (gathers_program _)
  rw [List.append_nil, List.append_nil] at hyields
  rw [← hpieces]
  exact Yields.map hyields

/-- The text of a printable program is nested too deep, or the program is read from it again. -/
theorem parse_print_of_wellFormed {d : Dialect} {body : List Stmt}
    (hwf : Stmt.AllWellFormed d .top body)
    (hnames : (Stmt.functionNames body).Nodup) (hprintable : Stmt.AllPrintable body) :
    (∃ position, parse (print body) = .error ⟨position, .nestingTooDeep⟩) ∨
      parse (print body) = .ok (Stmt.allUncommented (Stmt.reboundAll [] body)) := by
  obtain ⟨ts, htokens, hkinds⟩ := kinds_tokens_print hwf
  have hshows := shows_ofTokens hkinds hnames
  rw [parse, htokens]
  rcases (yields_program hwf hprintable).ok_or hshows with ⟨position, herr⟩ | ⟨s, hok, -⟩
  · refine .inl ⟨position, ?_⟩
    simp only [run, bind, Except.bind, herr]
  · refine .inr ?_
    simp only [run, bind, Except.bind, hok]
    rfl

/-- The text of a tree without its comments. -/
theorem print_uncommented {d : Dialect} {body : List Stmt} (hwf : Stmt.AllWellFormed d .top body) :
    print (Stmt.allUncommented (Stmt.reboundAll [] body)) = withoutComments (print body) := by
  rw [Stmt.allUncommented_reboundAll, print_reboundAll, withoutComments_print hwf]

/-- The text of a printable program is nested too deep, or the program is read from it again,
without its comments and with assignments in place of the declarations that the printer writes as
such. What has been read is printed as the same text without its comment lines. -/
theorem Program.parse_print {p : Program} {body : List Stmt} (h : p.read = .ok body)
    (hprintable : Stmt.AllPrintable body) :
    (∃ position, parse (print body) = .error ⟨position, .nestingTooDeep⟩) ∨
      parse (print body) = .ok (Stmt.allUncommented (Stmt.reboundAll [] body)) ∧
        print (Stmt.allUncommented (Stmt.reboundAll [] body)) = withoutComments (print body) := by
  obtain ⟨hwf, hnames⟩ := Program.wellFormed_of_read h
  rcases parse_print_of_wellFormed hwf hnames hprintable with hdeep | hparse
  · exact .inl hdeep
  · exact .inr ⟨hparse, print_uncommented hwf⟩

/-- A program with a comment, and with a name that is bound twice. -/
def Program.flip : Program := ⟨.indented, "# flip\nx = True\nx = not x\n"⟩

/-- The tree of `flip`. -/
def Program.flipBody : List Stmt :=
  [.comment " flip", .declare (.single "x") (some (.literal (.bool true))) false,
    .declare (.single "x") (some (.unary .not (.name "x"))) false]

theorem Program.read_flip : Program.flip.read = .ok Program.flipBody := by cbv

theorem Program.printable_flip : Stmt.AllPrintable Program.flipBody := by
  have hx : IsFree "x" := ⟨by decide, by decide, by decide⟩
  simp [Program.flipBody, Stmt.AllPrintable, Stmt.Printable, Pattern.Printable, Pattern.names,
    Expr.OptionPrintable, Expr.Printable, hx]

theorem Program.parse_print_flip :
    Program.flip.read = .ok Program.flipBody ∧ Stmt.AllPrintable Program.flipBody ∧
      ((∃ position, parse (print Program.flipBody) = .error ⟨position, .nestingTooDeep⟩) ∨
        parse (print Program.flipBody) =
            .ok (Stmt.allUncommented (Stmt.reboundAll [] Program.flipBody)) ∧
          print (Stmt.allUncommented (Stmt.reboundAll [] Program.flipBody)) =
            withoutComments (print Program.flipBody)) :=
  ⟨Program.read_flip, Program.printable_flip,
    Program.parse_print Program.read_flip Program.printable_flip⟩

end Labyrinth
