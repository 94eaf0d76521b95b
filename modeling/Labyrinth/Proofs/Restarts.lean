import Labyrinth.Proofs.Machine.Runs
import Labyrinth.Proofs.Resumptions

/-!
# Engines that have been used before

An engine can be started again and again. The run of a program then does not depend on what the
engine and the world have been used for: whoever resumes the run hears of the same progress and sees
the same cursor, trail and moves as with a new engine in a new world.

The lines are another matter. Those that have been printed before the start and have not been taken
are still there. They come before the lines of the new run, with the first lines that are taken.

## Main results

* `Engine.start_eq_prepend`: what a start leaves of the engine is the lines that have not been
  taken.
* `Engine.answers_prepend`: such lines come with the first lines that are taken, and change nothing
  else.
* `Engine.answers_start`: the runs of an engine that has been used before.
* `Engine.answers_start_shout`: lines of an earlier run that come up in a later one.
-/

namespace Labyrinth

/-- What can be asked of an engine during a run. -/
inductive Request
  /-- To resume the run. -/
  | resume
  /-- To hand out the lines. -/
  | takeOutput
  deriving DecidableEq, Repr

/-- What an engine answers. -/
inductive Reply
  | progress (progress : Progress)
  | lines (lines : Array String)
  deriving DecidableEq, Repr

/-- An answer of an engine, and what is seen of the run in the world then. -/
structure Answer where
  reply : Reply
  cursor : Coord
  trail : Array Coord
  moves : UInt32
  deriving DecidableEq, Repr

/-- A reply, seen together with a world. -/
def Reply.seen (reply : Reply) (w : World) : Answer := ⟨reply, w.cursor, w.trail, w.moves⟩

/-- The answers if some lines have not been taken before: they come with the first lines that are
taken. -/
def Answer.deliver (earlier : Array String) : List Answer → List Answer
  | [] => []
  | ⟨.progress progress, cursor, trail, moves⟩ :: answers =>
    ⟨.progress progress, cursor, trail, moves⟩ :: deliver earlier answers
  | ⟨.lines lines, cursor, trail, moves⟩ :: answers =>
    ⟨.lines (earlier ++ lines), cursor, trail, moves⟩ :: answers

/-- If all lines have been taken before, nothing is delivered late. -/
theorem Answer.deliver_empty (answers : List Answer) : deliver #[] answers = answers := by
  induction answers with
  | nil => rfl
  | cons answer answers ih =>
    obtain ⟨reply, cursor, trail, moves⟩ := answer
    cases reply with
    | progress progress => rw [deliver, ih]
    | lines lines => rw [deliver, Array.empty_append]

namespace Engine

/-- Carries out a request. -/
def answer (e : Engine) (w : World) : Request → Reply × Engine × World
  | .resume => (.progress (e.resume w).1, (e.resume w).2)
  | .takeOutput => (.lines e.takeOutput.1, e.takeOutput.2, w)

/-- The answers to several requests, one after the other. -/
def answers (e : Engine) (w : World) : List Request → List Answer
  | [] => []
  | request :: requests =>
    let (reply, e, w) := e.answer w request
    reply.seen w :: e.answers w requests

/-! ### Lines that have not been taken -/

theorem takeOutput_prepend (earlier : Array String) (e : Engine) :
    (e.prepend earlier).takeOutput = (earlier ++ e.takeOutput.1, e.takeOutput.2) := rfl

/-- Lines that have not been taken before come with the first lines that are taken, and change
nothing else. -/
theorem answers_prepend (earlier : Array String) (e : Engine) (w : World)
    (requests : List Request) :
    (e.prepend earlier).answers w requests = Answer.deliver earlier (e.answers w requests) := by
  induction requests generalizing e w with
  | nil => rfl
  | cons request requests ih =>
    cases request with
    | resume =>
      simp only [answers, answer, resume_prepend, ih]
      rfl
    | takeOutput =>
      simp only [answers, answer, takeOutput_prepend]
      rfl

/-- What a start leaves of an engine is the lines that have not been taken. -/
theorem start_eq_prepend (e : Engine) (p : Program) {w w' : World} (hgrid : w.grid = w'.grid) :
    e.start p w =
      (((new e.limits).start p w').1, ((new e.limits).start p w').2.1.prepend e.output,
        ((new e.limits).start p w').2.2) := by
  have hreset : w.reset = w'.reset := congrArg World.new hgrid
  cases hcode : p.code with
  | ok code => simp [start, hcode, hreset, new, prepend]
  | error err => simp [start, hcode, hreset, new, prepend, cancel]

/-! ### Runs of used engines -/

/-- Whatever two engines with the same limits and two worlds with the same grid have been used for,
a program that is started on both of them does the same: its beginning is told alike, and whatever
is asked then is answered alike, in the same worlds, as by a new engine. Only the lines that have
not been taken before the start come with the first lines that are taken after it; so the answers
are those of the new engine if there are none, and they agree if both engines have the same ones. -/
theorem answers_start {e e' : Engine} (hlimits : e.limits = e'.limits) {w w' : World}
    (hgrid : w.grid = w'.grid) (p : Program) (requests : List Request) :
    let begun := e.start p w
    let begun' := e'.start p w'
    let fresh := (new e.limits).start p (.new w.grid)
    let expected := fresh.2.1.answers fresh.2.2 requests
    begun.1 = fresh.1 ∧ begun'.1 = fresh.1 ∧ begun.2.2 = fresh.2.2 ∧ begun'.2.2 = fresh.2.2 ∧
      begun.2.1.answers begun.2.2 requests = Answer.deliver e.output expected ∧
      begun'.2.1.answers begun'.2.2 requests = Answer.deliver e'.output expected ∧
      (e.output = #[] → begun.2.1.answers begun.2.2 requests = expected) ∧
      (e.output = e'.output →
        begun.2.1.answers begun.2.2 requests = begun'.2.1.answers begun'.2.2 requests) := by
  intro begun begun' fresh expected
  have hbegun : begun = (fresh.1, fresh.2.1.prepend e.output, fresh.2.2) :=
    start_eq_prepend e p rfl
  have hbegun' : begun' = (fresh.1, fresh.2.1.prepend e'.output, fresh.2.2) := by
    have hgrid' : w'.grid = (World.new w.grid).grid := hgrid.symm
    exact (start_eq_prepend e' p hgrid').trans (by rw [← hlimits])
  have hanswers : begun.2.1.answers begun.2.2 requests = Answer.deliver e.output expected := by
    rw [hbegun, answers_prepend]
  have hanswers' : begun'.2.1.answers begun'.2.2 requests =
      Answer.deliver e'.output expected := by
    rw [hbegun', answers_prepend]
  refine ⟨by rw [hbegun], by rw [hbegun'], by rw [hbegun], by rw [hbegun'], hanswers, hanswers',
    fun hempty => ?_, fun hsame => ?_⟩
  · rw [hanswers, hempty, Answer.deliver_empty]
  · rw [hanswers, hanswers', hsame]

end Engine

/-- A program that prints a line. -/
def Program.shout : Program := ⟨.indented, "print(1)\n"⟩

/-- The code of `shout`. -/
def Code.shout : Code := ⟨#[.push (.int 1), .builtin .print 1, .pop, .halt], #[]⟩

theorem Program.code_shout : Program.shout.code = .ok Code.shout := by cbv

namespace Engine

/-- An engine in which `shout` has been run in a corridor. Its line has not been taken. -/
def afterShout (limits : Limits) : Engine :=
  let begun := (new limits).start .shout .corridor
  (begun.2.1.resume begun.2.2).2.1

theorem afterShout_eq : afterShout ⟨20, 5⟩ = ⟨⟨20, 5⟩, none, #["1"]⟩ := by
  simp only [afterShout, start, Program.code_shout]
  rfl

/-- The line that has been printed in an earlier run, which is over, comes up in the run of a
program that prints nothing. A new engine hands out no lines then. -/
theorem answers_start_shout :
    let e := afterShout ⟨20, 5⟩
    let e' := new ⟨20, 5⟩
    let begun := e.start .stepRight .corridor
    let begun' := e'.start .stepRight .corridor
    e.isRunning = false ∧ e.limits = e'.limits ∧
      begun.2.1.answers begun.2.2 [.takeOutput] = [Reply.seen (.lines #["1"]) .corridor] ∧
      begun'.2.1.answers begun'.2.2 [.takeOutput] = [Reply.seen (.lines #[]) .corridor] := by
  intro e e' begun begun'
  have hbegun : begun = (.started, ⟨⟨20, 5⟩, some (.start .stepRight ⟨20, 5⟩), #["1"]⟩,
      World.corridor.reset) := by
    simp only [begun, e, afterShout_eq, start, Program.code_stepRight]
  have hbegun' : begun' = (.started, ⟨⟨20, 5⟩, some (.start .stepRight ⟨20, 5⟩), #[]⟩,
      World.corridor.reset) := by
    simp only [begun', e', new, start, Program.code_stepRight]
  rw [hbegun, hbegun']
  refine ⟨?_, ?_, rfl, rfl⟩
  · simp only [e, afterShout_eq]
    rfl
  · simp only [e, e', afterShout_eq]
    rfl

/-- The run of a program of one step is the same in an engine that has been used before, but for the
line that has not been taken. -/
theorem answers_start_stepRight :
    let e := new ⟨20, 5⟩
    let e' := afterShout ⟨20, 5⟩
    let w := (World.corridor.step .right).2
    let begun := e.start .stepRight .corridor
    let begun' := e'.start .stepRight w
    let fresh := (new e.limits).start .stepRight (.new World.corridor.grid)
    let expected := fresh.2.1.answers fresh.2.2 [.resume, .takeOutput, .resume]
    e.limits = e'.limits ∧ World.corridor.grid = w.grid ∧ begun'.2.2 = fresh.2.2 ∧
      e.output = #[] ∧ begun.2.1.answers begun.2.2 [.resume, .takeOutput, .resume] = expected ∧
      begun'.2.1.answers begun'.2.2 [.resume, .takeOutput, .resume] =
        Answer.deliver e'.output expected := by
  intro e e' w begun begun' fresh expected
  have hlimits : e.limits = e'.limits := by
    simp only [e, e', afterShout_eq]
    rfl
  have hgrid : World.corridor.grid = w.grid := (World.grid_step _ _).symm
  obtain ⟨-, -, -, hworld, -, hlate, hdrained, -⟩ :=
    answers_start hlimits hgrid .stepRight [.resume, .takeOutput, .resume]
  exact ⟨hlimits, hgrid, hworld, rfl, hdrained rfl, hlate⟩

end Engine

end Labyrinth
