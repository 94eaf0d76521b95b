import Labyrinth.Proofs.Language.RoundTrip
import Labyrinth.Proofs.Machine.Observations
import Labyrinth.Proofs.Verdicts

/-!
# Normalized programs

A program of the indented dialect is **normalized** by being printed in the braced dialect. If it is
printable, the braced program is refused only for being nested too deep, and otherwise its runs are
those of the indented one: comments have no code, and an assignment in place of a declaration cannot
be told from it.

A name with a meaning of its own in the braced dialect is printed as it is, and there the runs part.

## Main results

* `lower_uncommented`: comments have no code.
* `Engine.drive_eq`: an engine runs either of two codes that cannot be told apart.
* `Program.run_print`: the runs of a program and of what it is printed to.
* `Program.run_normalize`: the runs of a printable program and of the normalized one.
* `Program.run_normalize_keyword`: a program that cannot be read again when it is normalized.
-/

namespace Labyrinth

open Labyrinth.Braced

/-! ### Comments have no code -/

section Comments

variable (functions : List String)

theorem Stmt.widths_append (iterates : Bool) (xs ys : List Stmt) :
    Stmt.widths functions iterates (xs ++ ys) =
      Stmt.widths functions iterates xs + Stmt.widths functions iterates ys := by
  induction xs with
  | nil => exact (Nat.zero_add _).symm
  | cons x xs ih => rw [List.cons_append, Stmt.widths, Stmt.widths, ih, Nat.add_assoc]

mutual

theorem Stmt.width_uncommented (iterates : Bool) :
    (stmt : Stmt) → Stmt.widths functions iterates stmt.uncommented = stmt.width functions iterates
  | .comment _ => rfl
  | .function .. => rfl
  | .declare .. => rfl
  | .assign .. => rfl
  | .expr _ => rfl
  | .cond arms => Arms.width_uncommented iterates arms
  | .while _ body => by
    simp only [Stmt.uncommented, Stmt.widths, Stmt.width, Stmt.widths_uncommented false body,
      Nat.add_zero]
  | .forEach _ _ body => by
    simp only [Stmt.uncommented, Stmt.widths, Stmt.width, Stmt.widths_uncommented true body,
      Nat.add_zero]
  | .return _ => rfl
  | .break => Nat.add_zero _
  | .continue => rfl
  | .throw .. => rfl

theorem Stmt.widths_uncommented (iterates : Bool) :
    (stmts : List Stmt) → Stmt.widths functions iterates (Stmt.allUncommented stmts) =
      Stmt.widths functions iterates stmts
  | [] => rfl
  | stmt :: rest => by
    rw [Stmt.allUncommented, Stmt.widths_append, Stmt.width_uncommented iterates stmt,
      Stmt.widths_uncommented iterates rest, Stmt.widths]

theorem Arms.width_uncommented (iterates : Bool) :
    (arms : Arms) → arms.uncommented.width functions iterates = arms.width functions iterates
  | .done => rfl
  | .otherwise body => Stmt.widths_uncommented iterates body
  | .arm _ body rest => by
    rw [Arms.uncommented, Arms.width, Arms.width, Stmt.widths_uncommented iterates body,
      Arms.width_uncommented iterates rest]

end

theorem Stmt.codes_append (loop : LoopTargets) (start : Nat) (xs ys : List Stmt) :
    Stmt.codes functions loop start (xs ++ ys) =
      Stmt.codes functions loop start xs ++
        Stmt.codes functions loop (start + (Stmt.codes functions loop start xs).length) ys := by
  induction xs generalizing start with
  | nil => rfl
  | cons x xs ih =>
    simp only [List.cons_append, Stmt.codes, ih, List.append_assoc, List.length_append,
      Nat.add_assoc]

theorem Stmt.codes_singleton (loop : LoopTargets) (start : Nat) (stmt : Stmt) :
    Stmt.codes functions loop start [stmt] = stmt.code functions loop start := List.append_nil _

mutual

/-- Comments have no code. -/
theorem Stmt.code_uncommented (loop : LoopTargets) (start : Nat) :
    (stmt : Stmt) →
      Stmt.codes functions loop start stmt.uncommented = stmt.code functions loop start
  | .comment _ => rfl
  | .function .. => rfl
  | .declare .. => Stmt.codes_singleton functions loop start _
  | .assign .. => Stmt.codes_singleton functions loop start _
  | .expr _ => Stmt.codes_singleton functions loop start _
  | .cond arms => by
    simp only [Stmt.uncommented, Stmt.codes_singleton, Stmt.code, Arms.width_uncommented,
      Arms.code_uncommented loop _ start arms]
  | .while _ body => by
    simp only [Stmt.uncommented, Stmt.codes_singleton, Stmt.code, Stmt.widths_uncommented,
      Stmt.codes_uncommented _ _ body]
  | .forEach _ _ body => by
    simp only [Stmt.uncommented, Stmt.codes_singleton, Stmt.code, Stmt.widths_uncommented,
      Stmt.codes_uncommented _ _ body]
  | .return _ => Stmt.codes_singleton functions loop start _
  | .break => Stmt.codes_singleton functions loop start _
  | .continue => rfl
  | .throw .. => Stmt.codes_singleton functions loop start _

theorem Stmt.codes_uncommented (loop : LoopTargets) (start : Nat) :
    (stmts : List Stmt) → Stmt.codes functions loop start (Stmt.allUncommented stmts) =
      Stmt.codes functions loop start stmts
  | [] => rfl
  | stmt :: rest => by
    rw [Stmt.allUncommented, Stmt.codes_append, Stmt.code_uncommented loop start stmt,
      Stmt.codes_uncommented loop _ rest, Stmt.codes]

theorem Arms.code_uncommented (loop : LoopTargets) (exit start : Nat) :
    (arms : Arms) →
      arms.uncommented.code functions loop exit start = arms.code functions loop exit start
  | .done => rfl
  | .otherwise body => Stmt.codes_uncommented loop start body
  | .arm _ body rest => by
    simp only [Arms.uncommented, Arms.code, Stmt.codes_uncommented loop _ body,
      Arms.code_uncommented loop exit _ rest]

end

end Comments

/-- The function without the comments in its body. -/
def Definition.uncommented (d : Definition) : Definition :=
  { d with body := Stmt.allUncommented d.body }

mutual

theorem Stmt.definitions_uncommented :
    (stmt : Stmt) →
      Stmt.allDefinitions stmt.uncommented = stmt.definitions.map Definition.uncommented
  | .comment _ => rfl
  | .function _ _ body => by
    simp only [Stmt.uncommented, Stmt.allDefinitions, Stmt.definitions, List.append_nil,
      List.map_cons, Definition.uncommented, Stmt.allDefinitions_uncommented body]
  | .declare .. => rfl
  | .assign .. => rfl
  | .expr _ => rfl
  | .cond arms => by
    simp only [Stmt.uncommented, Stmt.allDefinitions, Stmt.definitions, List.append_nil,
      Arms.definitions_uncommented arms]
  | .while _ body => by
    simp only [Stmt.uncommented, Stmt.allDefinitions, Stmt.definitions, List.append_nil,
      Stmt.allDefinitions_uncommented body]
  | .forEach _ _ body => by
    simp only [Stmt.uncommented, Stmt.allDefinitions, Stmt.definitions, List.append_nil,
      Stmt.allDefinitions_uncommented body]
  | .return _ => rfl
  | .break => rfl
  | .continue => rfl
  | .throw .. => rfl

theorem Stmt.allDefinitions_uncommented :
    (stmts : List Stmt) → Stmt.allDefinitions (Stmt.allUncommented stmts) =
      (Stmt.allDefinitions stmts).map Definition.uncommented
  | [] => rfl
  | stmt :: rest => by
    rw [Stmt.allUncommented, Stmt.allDefinitions_append, Stmt.definitions_uncommented stmt,
      Stmt.allDefinitions_uncommented rest, Stmt.allDefinitions, List.map_append]

theorem Arms.definitions_uncommented :
    (arms : Arms) → arms.uncommented.definitions = arms.definitions.map Definition.uncommented
  | .done => rfl
  | .otherwise body => Stmt.allDefinitions_uncommented body
  | .arm _ body rest => by
    rw [Arms.uncommented, Arms.definitions, Arms.definitions, Stmt.allDefinitions_uncommented body,
      Arms.definitions_uncommented rest, List.map_append]

end

theorem Definition.codes_uncommented (functions : List String) (start : Nat)
    (definitions : List Definition) :
    Definition.codes functions start (definitions.map Definition.uncommented) =
      Definition.codes functions start definitions := by
  induction definitions generalizing start with
  | nil => rfl
  | cons d definitions ih =>
    have hcode : d.uncommented.code functions start = d.code functions start := by
      rw [Definition.code, Definition.code, Definition.uncommented, Stmt.codes_uncommented]
    rw [List.map_cons, Definition.codes, Definition.codes, hcode, ih]
    rfl

/-- A program has the same code without its comments. -/
theorem lower_uncommented (body : List Stmt) : lower (Stmt.allUncommented body) = lower body := by
  have hnames : ((Stmt.allDefinitions body).map Definition.uncommented).map Definition.name =
      (Stmt.allDefinitions body).map Definition.name := by
    rw [List.map_map]
    rfl
  simp only [lower, Stmt.allDefinitions_uncommented, hnames, Stmt.codes_uncommented,
    Definition.codes_uncommented]

/-! ### Codes that cannot be told apart -/

/-- An engine comes to the same end with either code. -/
theorem Engine.drive_eq {code code' : Code} {P : State → Prop}
    (h : Interchangeable code code' P) (limits : Limits) {m : Machine} (hcode : m.code = code)
    (hm : m.GoesOn P) (output : Array String) (w : World) :
    Engine.drive ⟨limits, some (m.withCode code'), output⟩ w =
      Engine.drive ⟨limits, some m, output⟩ w := by
  induction hleft : m.left using Nat.strong_induction_on generalizing m output w with
  | _ left ih =>
    have hlt := m.left_resume_lt w
    obtain ⟨hresume', hcode', hm'⟩ := h.resume_eq hcode hm w
    cases hresume : m.resume w with
    | mk step rest =>
      obtain ⟨m', w'⟩ := rest
      rw [hresume] at hlt hresume' hcode' hm'
      cases hstep : step.isEnding with
      | true =>
        obtain ⟨ending, rfl⟩ := Step.exists_ending hstep
        rw [drive_of_ended limits output hresume, drive_of_ended limits output hresume']
        rfl
      | false =>
        rw [drive_of_step limits output hstep hresume, drive_of_step limits output hstep hresume']
        have hcode : (m'.withOutput #[]).code = code := hcode'
        exact ih m'.left (hleft ▸ hlt hstep) hcode hm' (output ++ m'.output) w' rfl

/-! ### Runs of normalized programs -/

/-- The braced program that a program is printed to has the same runs, if it is read as it has been
printed, and nothing is assigned to a constant in place of a declaration. -/
theorem Program.run_print {p : Program} {body : List Stmt} (h : p.read = .ok body)
    (hfree : Stmt.ReassignsAll (fun constants x => x ∉ constants) body)
    (hparse : Braced.parse (print body) = .ok (Stmt.allUncommented (Stmt.reboundAll [] body)))
    (limits : Limits) (w : World) :
    Program.run ⟨.braced, print body⟩ limits w = p.run limits w := by
  obtain ⟨hwf, -⟩ := Program.wellFormed_of_read h
  have hcode : p.code = .ok (lower body) := by
    rw [Program.code, h]
    rfl
  have hcode' : Program.code ⟨.braced, print body⟩ = .ok (lower (Stmt.reboundAll [] body)) := by
    rw [Program.code, Program.read, hparse, ← lower_uncommented]
    rfl
  have hsame := interchangeable_lower hwf hfree
  have hstart := Machine.goesOn_start (State.FitsFrames.init hwf) (lower body) limits
  have hdrive := Engine.drive_eq hsame limits rfl hstart #[] w.reset
  rw [Program.run_eq_drive hcode', Program.run_eq_drive hcode, ← hdrive]
  rfl

/-- A printable program is normalized to a program that is refused for being nested too deep, or one
with the same runs: under all limits and in every world they have the same result, print the same
lines and leave the same world. -/
theorem Program.run_normalize {source : String} {body : List Stmt}
    (h : Indented.parse source = .ok body) (hprintable : Stmt.AllPrintable body) :
    ∃ text, normalize source = .ok text ∧
      ((∃ position, Braced.parse text = .error ⟨position, .nestingTooDeep⟩) ∨
        ∀ (limits : Limits) (w : World),
          Program.run ⟨.braced, text⟩ limits w = Program.run ⟨.indented, source⟩ limits w) := by
  refine ⟨print body, by rw [Braced.normalize, h]; rfl, ?_⟩
  obtain ⟨hwf, hnames⟩ := Indented.wellFormed_of_parse h
  exact (parse_print_of_wellFormed hwf hnames hprintable).imp_right
    (Program.run_print h (Stmt.reassignsAll_of_indented hwf))

theorem Program.run_normalize_flip :
    Indented.parse Program.flip.source = .ok Program.flipBody ∧
      Stmt.AllPrintable Program.flipBody ∧
        ∃ text, normalize Program.flip.source = .ok text ∧
          ((∃ position, Braced.parse text = .error ⟨position, .nestingTooDeep⟩) ∨
            ∀ (limits : Limits) (w : World),
              Program.run ⟨.braced, text⟩ limits w =
                Program.run ⟨.indented, Program.flip.source⟩ limits w) :=
  ⟨Program.read_flip, Program.printable_flip,
    Program.run_normalize Program.read_flip Program.printable_flip⟩

/-- A step whose outcome is kept under a name that is a keyword of the braced dialect. -/
def Indented.keepNew : String := "new = move_right()\n"

/-- The text to which `keepNew` is normalized. -/
def Braced.keepNew : String := "let new = await moveRight();\n"

theorem Indented.parse_keepNew : Indented.parse Indented.keepNew =
    .ok [.declare (.single "new") (some (.capability (.move .right) [])) false] := by cbv

/-- The program leads to the exit, but what it is normalized to is refused. -/
theorem Program.run_normalize_keyword :
    normalize Indented.keepNew = .ok Braced.keepNew ∧
      (Program.run ⟨.indented, Indented.keepNew⟩ ⟨100, 10⟩ .corridor).1.result = .win ∧
        ∃ message,
          (Program.run ⟨.braced, Braced.keepNew⟩ ⟨100, 10⟩ .corridor).1.result =
            .errored message := by
  refine ⟨?_, ?_, ?_⟩
  · rw [Braced.normalize, Indented.parse_keepNew]
    rfl
  · have hcode : Program.code ⟨.indented, Indented.keepNew⟩ =
        .ok ⟨#[.capability (.move .right) 0, .declare "new" false, .halt], #[]⟩ := by
      rw [Program.code, Program.read, Indented.parse_keepNew]
      rfl
    rw [Program.run_eq_drive hcode]
    cbv
  · have hcode : ∃ err, Program.code ⟨.braced, Braced.keepNew⟩ = .error err := ⟨_, by cbv⟩
    obtain ⟨err, hcode⟩ := hcode
    rw [Program.run_of_error hcode]
    exact ⟨_, rfl⟩

end Labyrinth
