import Labyrinth.Machine
import Labyrinth.Proofs.Machine.Fits
import Labyrinth.Proofs.Machine.ProgramLayout

/-!
# Safety of instructions

An instruction that flows from the shape of a state finds its operands in it, and leaves a state
that fits the shape at its new position. A program that ends does so without operands, calls and
iterators.

## Main results

* `safe_execute`: what one instruction preserves.
* `Laid.sound_next`, `Laid.poised_next`: the same for one step of a machine whose code has a
  layout.
-/

namespace Labyrinth

open Labyrinth.Action

/-- The state of a program that has come to its end. -/
structure State.AtRest (st : State) : Prop where
  calls : st.calls = #[]
  stack : st.stack = #[]
  iterators : st.globals.iterators = []

/-- What an instruction leaves: a state that fits the layout, unless the program ends. -/
def Settled (L : List Shape) : Effect → State → Prop
  | .halt, st => st.AtRest
  | _, st => st.Poised L

/-- What is left by an instruction that does not end the program fits the layout. -/
theorem Settled.poised {L : List Shape} {effect : Effect} {st : State} (h : Settled L effect st)
    (heffect : effect ≠ .halt) : st.Poised L := by
  cases effect with
  | halt => exact absurd rfl heffect
  | _ => exact h

section Instructions

variable {L : List Shape} {p : Nat} {s : Shape}

theorem Safe.lift {α : Type} {P : State → Prop} {x : Except Fault α} (hx : Sound x) :
    Safe P (liftM x : Action α) fun _ => P := by
  intro st hst
  refine ⟨.bind hx fun _ => .pure _, fun v st' h => ?_⟩
  obtain ⟨w, -, h⟩ := bind_eq_ok_iff.1 h
  cases h
  exact hst

theorem safe_operands (n : Nat) : Safe (At L p (s.raise n)) (popMany n) fun _ => At L p s :=
  (safe_popMany n).mono fun _ _ h => h.2

/-- An instruction is over, and the next one is accepted. -/
theorem safe_settle (haccept : Accepts L p s) {effect : Effect} (heffect : effect ≠ .halt) :
    Safe (At L p s) (pure effect) (Settled L) := by
  refine .pure ?_
  rintro st ⟨rfl, hst⟩
  have hpoised := hst.poised haccept
  cases effect with
  | halt => exact absurd rfl heffect
  | _ => exact hpoised

theorem safe_line (values : List Value) : Safe (At L p s) (line values) fun _ => At L p s :=
  .bind safe_get fun _ => .pure fun _ h => h.2

theorem safe_capability (w : World) (c : Capability) (args : List Value)
    (haccept : Accepts L p (s.raise 1)) :
    Safe (At L p s) (capability w c args) (Settled L) := by
  unfold capability
  refine .bind (.lift (sound_check _ _ _)) fun _ => ?_
  split
  · exact .bind (safe_push _) fun _ => safe_settle haccept nofun
  · refine .bind (.lift (sound_integerArgument _ _)) fun _ => ?_
    refine .bind (.lift (sound_integerArgument _ _)) fun _ => ?_
    exact .bind (safe_push _) fun _ => safe_settle haccept nofun
  · refine .bind (.lift (sound_integerArgument _ _)) fun _ => ?_
    refine .bind (.lift (sound_integerArgument _ _)) fun _ => ?_
    exact .bind (safe_push _) fun _ => safe_settle haccept nofun
  · exact .bind (safe_compute fun _ => .ok _) fun _ => safe_settle haccept nofun

theorem safe_call {code : Code} {maxCalls function argc : Nat} {f : FunctionEntry}
    (hf : code.functions[function]? = some f) (haccept : Accepts L p (s.raise 1))
    (hentry : Accepts L f.entry (.entry f.params)) :
    Safe (At L p (s.raise argc)) (call code maxCalls function argc) fun _ st => st.Poised L := by
  unfold call
  rw [hf]
  refine .ite (fun _ => .fail nofun) fun hargc => .bind safe_get fun st => ?_
  refine .ite (fun _ => .fail nofun) fun _ => ?_
  have henter : Safe (At L p (s.raise argc)) (do enter f (← popMany argc)) fun _ st =>
      st.Poised L := by
    refine .bind (safe_popMany argc) fun args => .of_forall ?_
    rintro st ⟨hlength, hst⟩ st' rfl
    have hargs : args.length = f.params.length := hlength.trans (Decidable.not_not.1 hargc).symm
    obtain ⟨hsound, hQ⟩ := safe_enter hargs haccept st' hst
    refine ⟨hsound, fun v st'' h => ?_⟩
    obtain ⟨hposition, hfits⟩ := hQ v st'' h
    exact hfits.poised (hposition ▸ hentry)
  exact fun st' h => henter st' h.2

/-- An instruction finds its operands, and leads to a position whose shape the state fits. -/
theorem safe_execute {code : Code} (maxCalls : Nat) (w : World) (instr : Instr)
    (h : instr.Flows code.functions (Accepts L) p s) :
    Safe (At L p s) (instr.execute code maxCalls w) (Settled L) := by
  cases instr with
  | push value => exact .bind (safe_push _) fun _ => safe_settle h nofun
  | load x => exact .bind (safe_load x) fun _ => safe_settle h nofun
  | declare x constant =>
    obtain ⟨b, rfl, h⟩ := h
    exact .bind safe_pop fun v => .bind (safe_declare x _) fun _ => safe_settle h nofun
  | store x =>
    obtain ⟨b, rfl, h⟩ := h
    exact .bind safe_pop fun v => .bind (safe_store x v) fun _ => safe_settle h nofun
  | unpack count =>
    obtain ⟨b, rfl, h⟩ := h
    refine .bind safe_pop fun v => .bind (safe_elements v) fun values => ?_
    refine .ite (fun _ => .bind (Q := fun _ _ => False) (.fail nofun) fun _ _ h => h.elim)
      fun hlength => ?_
    have hpush := safe_pushAll (L := L) (p := p) (s := b) values.reverse
    rw [List.length_reverse, Decidable.not_not.1 hlength] at hpush
    exact .bind hpush fun _ => safe_settle h nofun
  | loadIndex =>
    obtain ⟨b, rfl, h⟩ := h
    refine .bind (safe_pop (s := b.raise 1)) fun i => .bind safe_pop fun object => ?_
    exact .bind (safe_inspect fun h => h.sound_loadIndex _ _) fun _ => safe_settle h nofun
  | storeIndex =>
    obtain ⟨b, rfl, h⟩ := h
    refine .bind (safe_pop (s := b.raise 2)) fun v => .bind (safe_pop (s := b.raise 1)) fun i => ?_
    refine .bind safe_pop fun object => ?_
    exact .bind (safe_change fun h => h.sound_storeIndex _ _ _) fun _ => safe_settle h nofun
  | duplicatePair =>
    obtain ⟨b, rfl, h⟩ := h
    exact .bind safe_duplicatePair fun _ => safe_settle h nofun
  | loadAttribute x =>
    obtain ⟨b, rfl, h⟩ := h
    refine .bind safe_pop fun object => ?_
    exact .bind (safe_inspect fun h => h.sound_loadAttribute _ _) fun _ => safe_settle h nofun
  | unary op =>
    obtain ⟨b, rfl, h⟩ := h
    refine .bind safe_pop fun v => ?_
    exact .bind (safe_inspect fun h => h.sound_unary _ _) fun _ => safe_settle h nofun
  | binary op =>
    obtain ⟨b, rfl, h⟩ := h
    refine .bind (safe_pop (s := b.raise 1)) fun y => .bind safe_pop fun x => ?_
    exact .bind (safe_compute fun h => h.sound_binary _ _ _) fun _ => safe_settle h nofun
  | jump target => exact .bind (safe_jump target) fun _ => safe_settle h nofun
  | jumpIfFalse target =>
    obtain ⟨b, rfl, hnext, htarget⟩ := h
    refine .bind safe_topTruth fun truth => .bind safe_pop fun _ => .ite (fun _ => ?_) fun _ => ?_
    · exact safe_settle hnext nofun
    · exact .bind (safe_jump target) fun _ => safe_settle htarget nofun
  | jumpIfFalseElsePop target =>
    obtain ⟨b, rfl, hnext, htarget⟩ := h
    refine .bind safe_topTruth fun truth => .ite (fun _ => ?_) fun _ => ?_
    · exact .bind safe_pop fun _ => safe_settle hnext nofun
    · exact .bind (safe_jump target) fun _ => safe_settle htarget nofun
  | jumpIfTrueElsePop target =>
    obtain ⟨b, rfl, hnext, htarget⟩ := h
    refine .bind safe_topTruth fun truth => .ite (fun _ => ?_) fun _ => ?_
    · exact .bind (safe_jump target) fun _ => safe_settle htarget nofun
    · exact .bind safe_pop fun _ => safe_settle hnext nofun
  | buildList count =>
    obtain ⟨b, rfl, h⟩ := h
    refine .bind (safe_operands count) fun items => ?_
    exact .bind (safe_compute fun _ => .ok _) fun _ => safe_settle h nofun
  | buildSet =>
    obtain ⟨b, rfl, h⟩ := h
    refine .bind safe_pop fun v => ?_
    exact .bind (safe_compute fun h => h.sound_buildSet _) fun _ => safe_settle h nofun
  | buildMap =>
    obtain ⟨b, rfl, h⟩ := h
    refine .bind safe_pop fun v => ?_
    exact .bind (safe_compute fun h => h.sound_buildMap _) fun _ => safe_settle h nofun
  | iterStart =>
    obtain ⟨b, rfl, h⟩ := h
    refine .bind safe_pop fun v => .bind (safe_elements v) fun values => ?_
    exact .bind (safe_iterate values) fun _ => safe_settle h nofun
  | iterNext exit =>
    obtain ⟨b, rfl, hnext, hexit⟩ := h
    refine .bind (safe_next exit) fun _ => .of_forall ?_
    rintro st (hst | hst) st' rfl
    · exact (safe_settle hnext nofun : Safe _ (pure Effect.none) _) st' hst
    · exact (safe_settle hexit nofun : Safe _ (pure Effect.none) _) st' hst
  | iterDrop =>
    obtain ⟨b, rfl, h⟩ := h
    exact .bind safe_dropIterator fun _ => safe_settle h nofun
  | call function argc =>
    obtain ⟨⟨b, rfl, h⟩, f, hf, hentry⟩ := h
    exact .bind (safe_call hf h hentry) fun _ => .pure fun _ h => h
  | callUndefined x => exact .fail nofun
  | builtin function argc =>
    obtain ⟨b, rfl, h⟩ := h
    cases function with
    | print =>
      refine .bind (safe_operands argc) fun values => .bind (safe_line values) fun text => ?_
      exact .bind (safe_push _) fun _ => safe_settle h nofun
    | _ =>
      refine .bind (safe_operands argc) fun args => ?_
      exact .bind (safe_compute fun h => h.sound_builtin _ args) fun _ => safe_settle h nofun
  | method m argc =>
    obtain ⟨b, rfl, h⟩ := h
    rw [← Shape.raise_raise]
    refine .bind (safe_operands argc) fun args => .bind safe_pop fun receiver => ?_
    exact .bind (safe_compute fun h => h.sound_callMethod _ m args) fun _ => safe_settle h nofun
  | capability c argc =>
    obtain ⟨b, rfl, h⟩ := h
    exact .bind (safe_operands argc) fun args => safe_capability w c args h
  | pop =>
    obtain ⟨b, rfl, h⟩ := h
    exact .bind safe_pop fun _ => safe_settle h nofun
  | «return» =>
    obtain ⟨hin, b, rfl⟩ := h
    exact .bind safe_pop fun v => .bind (safe_leave v hin) fun _ => .pure fun _ h => h
  | throw =>
    obtain ⟨b, rfl⟩ := h
    exact .bind safe_pop fun v => .bind safe_get fun st => .fail nofun
  | halt =>
    obtain ⟨hheight, hiterators, hin⟩ := h
    refine .pure ?_
    rintro st ⟨-, hst⟩
    have hframes : st.frames = [] := by simpa [hin] using hst.inFunction
    have hscope := hst.scope.iterators
    have hsize := hst.height
    rw [hframes] at hscope hsize
    rw [hiterators] at hscope
    rw [hheight] at hsize
    refine ⟨?_, Array.eq_empty_of_size_eq_zero hsize, List.eq_nil_of_length_eq_zero hscope⟩
    simpa [State.frames] using hframes

end Instructions

namespace Laid

variable {code : Code} {L : List Shape} (hlaid : Laid code L)
include hlaid

/-- One step of a machine whose code has a layout. -/
theorem safe_next (maxCalls : Nat) (w : World) :
    Safe (State.Poised L) (State.next code maxCalls w) (Settled L) := by
  rintro st ⟨s, hs, hst⟩
  obtain ⟨hlt, -⟩ := List.getElem?_eq_some_iff.1 hs
  rw [← hlaid.size] at hlt
  have hinstr : code.instructions[st.position]? = some code.instructions[st.position] :=
    Array.getElem?_eq_getElem hlt
  have hsafe := safe_execute maxCalls w _ (hlaid.flows _ _ s hinstr hs)
  unfold State.next
  rw [hinstr]
  exact hsafe _ ⟨rfl, hst.operands hst.height⟩

end Laid

end Labyrinth
