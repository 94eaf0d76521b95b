import Labyrinth.Proofs.Machine.Footprints

/-!
# Where constants are bound

A constant cannot be assigned to, so whether a name may be assigned to depends on what its scope has
bound as a constant. Every frame has its own scope and its own part of the code. A state is
**confined** if all scopes bind no other constants than those that are named for the part of the
code where their frame goes on. An instruction that declares only such constants, and from which no
jump leads to another part, leaves a confined state confined.

## Main results

* `confines_execute`: every instruction but calls and returns stays within its frame.
* `State.Confined.next`: a step leaves a confined state confined.
-/

namespace Labyrinth

/-- The scope binds no constants but the given ones. -/
def Scope.Within (constants : List String) (scope : Scope) : Prop :=
  ∀ x b, scope.lookup? x = some b → b.constant = true → x ∈ constants

namespace Scope.Within

variable {constants : List String} {scope : Scope}

theorem empty : Scope.empty.Within constants := fun _ _ h => nomatch h

theorem bind (h : scope.Within constants) {x : String} {b : Binding}
    (hb : b.constant = true → x ∈ constants) : (scope.bind x b).Within constants := by
  intro y c hc hconstant
  rw [Scope.lookup?_bind] at hc
  split at hc
  · rename_i hyx
    cases hc
    rw [eq_of_beq hyx]
    exact hb hconstant
  · exact h y c hc hconstant

theorem bindValue (h : scope.Within constants) (x : String) (v : Value) :
    (scope.bind x ⟨v, false⟩).Within constants := h.bind fun hconstant => Bool.noConfusion hconstant

theorem bindParams (h : scope.Within constants) (params : List String) (args : List Value) :
    (scope.bindParams params args).Within constants := by
  induction params generalizing scope args with
  | nil => exact h
  | cons p ps ih =>
    cases args with
    | nil => exact h
    | cons v vs => exact ih (h.bindValue p v) vs

end Scope.Within

/-- The scopes bind no constants but those that `named` has for the positions where their frames go
on; the innermost one goes on where the given constants are named. -/
def FramesConfined (named : Nat → List String) (globals : Scope) :
    (constants : List String) → List Frame → Prop
  | constants, [] => globals.Within constants
  | constants, frame :: rest =>
    frame.scope.Within constants ∧ FramesConfined named globals (named frame.returnTo) rest

/-- The scopes of a state bind no constants but those that are named for their frames. -/
def State.Confined (named : Nat → List String) (st : State) : Prop :=
  FramesConfined named st.globals (named st.position) st.frames

/-- A confined state that goes on where the given constants are named. -/
structure State.ConfinedTo (named : Nat → List String) (constants : List String) (st : State) :
    Prop where
  position : named st.position = constants
  frames : FramesConfined named st.globals constants st.frames

section Confinement

variable {named : Nat → List String} {constants : List String}

theorem FramesConfined.scope {globals : Scope} {frames : List Frame}
    (h : FramesConfined named globals constants frames) :
    (scopeOf globals frames).Within constants := by
  cases frames with
  | nil => exact h
  | cons frame rest => exact h.1

theorem FramesConfined.changeGlobals {globals globals' : Scope} {frames : List Frame}
    (hglobals : ∀ others, globals.Within others → globals'.Within others)
    (h : FramesConfined named globals constants frames) :
    FramesConfined named globals' constants frames := by
  induction frames generalizing constants with
  | nil => exact hglobals _ h
  | cons frame rest ih => exact ⟨h.1, ih h.2⟩

theorem State.ConfinedTo.confined {st : State} (h : st.ConfinedTo named constants) :
    st.Confined named := by
  rw [State.Confined, h.position]
  exact h.frames

theorem State.Confined.init (named : Nat → List String) : State.init.Confined named :=
  Scope.Within.empty

/-- The action leaves behind a state that is confined to the same constants. -/
def Action.Confines {α : Type} (named : Nat → List String) (constants : List String)
    (a : Action α) : Prop :=
  ∀ st, st.ConfinedTo named constants → ∀ v st', a st = .ok (v, st') →
    st'.ConfinedTo named constants

namespace Action.Confines

variable {α β : Type}

theorem bind {a : Action α} {f : α → Action β} (ha : a.Confines named constants)
    (hf : ∀ v, (f v).Confines named constants) : (a >>= f).Confines named constants := by
  intro st hst w st'' h
  obtain ⟨v, st', hv, h⟩ := stateBind_eq_ok_iff.1 h
  exact hf v st' (ha st hst v st' hv) w st'' h

theorem pure (v : α) : (Pure.pure v : Action α).Confines named constants := by
  intro st hst w st' h
  cases h
  exact hst

theorem fail (fault : Fault) : (Action.fail fault : Action α).Confines named constants :=
  fun _ _ _ _ h => nomatch h

theorem ite {c : Prop} [Decidable c] {a b : Action α} (ha : a.Confines named constants)
    (hb : b.Confines named constants) : (if c then a else b).Confines named constants := by
  split
  · exact ha
  · exact hb

theorem lift (x : Except Fault α) : (liftM x : Action α).Confines named constants := by
  intro st hst v st' h
  obtain ⟨w, -, h⟩ := bind_eq_ok_iff.1 h
  cases h
  exact hst

/-- An action that leaves the scopes alone and does not jump. -/
theorem of_scopes {a : Action α} (h : ∀ st v st', a st = .ok (v, st') →
    st'.position = st.position ∧ st'.globals = st.globals ∧ st'.calls = st.calls) :
    a.Confines named constants := by
  intro st hst v st' hv
  obtain ⟨hposition, hglobals, hcalls⟩ := h st v st' hv
  refine ⟨hposition ▸ hst.position, ?_⟩
  rw [State.frames, hglobals, hcalls]
  exact hst.frames

/-! ### Actions that leave the scopes alone -/

theorem get : (MonadState.get : Action State).Confines named constants :=
  .of_scopes fun _ _ _ h => by cases h; exact ⟨rfl, rfl, rfl⟩

theorem push (v : Value) : (Action.push v).Confines named constants :=
  .of_scopes fun _ _ _ h => by cases h; exact ⟨rfl, rfl, rfl⟩

theorem pop : Action.pop.Confines named constants := by
  refine .of_scopes fun ⟨position, stack, heap, globals, calls⟩ v st' h => ?_
  simp only [Action.pop] at h
  split at h
  · cases h
    exact ⟨rfl, rfl, rfl⟩
  · cases h

theorem popMany (count : Nat) : (Action.popMany count).Confines named constants := by
  refine .of_scopes fun st v st' h => ?_
  obtain ⟨-, rfl⟩ := popMany_eq_ok h
  exact ⟨rfl, rfl, rfl⟩

theorem topTruth : Action.topTruth.Confines named constants := by
  refine .bind get fun st => ?_
  split
  · exact .pure _
  · exact .fail _

theorem duplicatePair : Action.duplicatePair.Confines named constants := by
  refine .of_scopes fun ⟨position, stack, heap, globals, calls⟩ v st' h => ?_
  simp only [Action.duplicatePair] at h
  split at h
  · cases h
    exact ⟨rfl, rfl, rfl⟩
  · cases h

theorem compute (f : Heap → Except Fault (Value × Heap)) :
    (Action.compute f).Confines named constants := by
  refine .of_scopes fun st v st' h => ?_
  obtain ⟨r, -, h⟩ := bind_eq_ok_iff.1 h
  cases h
  exact ⟨rfl, rfl, rfl⟩

theorem change (f : Heap → Except Fault Heap) : (Action.change f).Confines named constants := by
  refine .of_scopes fun st v st' h => ?_
  obtain ⟨heap, -, h⟩ := bind_eq_ok_iff.1 h
  cases h
  exact ⟨rfl, rfl, rfl⟩

theorem elements (v : Value) : (Action.elements v).Confines named constants := by
  refine .of_scopes fun st v st' h => ?_
  obtain ⟨r, -, h⟩ := bind_eq_ok_iff.1 h
  cases h
  exact ⟨rfl, rfl, rfl⟩

theorem pushAll (values : List Value) : (values.forM Action.push).Confines named constants := by
  induction values with
  | nil => exact .pure _
  | cons v values ih => exact .bind (push v) fun _ => ih

theorem line (values : List Value) : (Action.line values).Confines named constants :=
  .bind get fun _ => .pure _

theorem capability (w : World) (c : Capability) (args : List Value) :
    (Action.capability w c args).Confines named constants := by
  unfold Action.capability
  refine .bind (.lift _) fun _ => ?_
  split
  · exact .bind (push _) fun _ => .pure _
  · exact .bind (.lift _) fun _ => .bind (.lift _) fun _ => .bind (push _) fun _ => .pure _
  · exact .bind (.lift _) fun _ => .bind (.lift _) fun _ => .bind (push _) fun _ => .pure _
  · exact .bind (compute _) fun _ => .pure _

/-! ### Jumps and scopes -/

/-- A jump to where the same constants are named. -/
theorem jump {target : Nat} (htarget : named target = constants) :
    (Action.jump target).Confines named constants := by
  intro st hst v st' h
  cases h
  exact ⟨htarget, hst.frames⟩

theorem changeScope {f : Scope → Scope}
    (hf : ∀ scope : Scope, scope.Within constants → (f scope).Within constants) :
    (Action.changeScope f).Confines named constants := by
  rintro ⟨position, stack, heap, globals, calls⟩ ⟨hposition, hframes⟩ v st' h
  rcases eq_empty_or_push calls with rfl | ⟨calls, frame, rfl⟩
  · cases h
    exact ⟨hposition, hf _ hframes⟩
  · rw [changeScope_push] at h
    cases h
    rw [frames_push] at hframes
    refine ⟨hposition, ?_⟩
    rw [frames_push]
    exact ⟨hf _ hframes.1, hframes.2⟩

theorem load (x : String) : (Action.load x).Confines named constants := by
  refine .bind get fun st => ?_
  split
  · exact push _
  · exact .fail _

theorem declare {x : String} {b : Binding} (hb : b.constant = true → x ∈ constants) :
    (Action.declare x b).Confines named constants := changeScope fun _ h => h.bind hb

theorem store (x : String) (v : Value) : (Action.store x v).Confines named constants := by
  refine .bind get fun st => ?_
  split
  · exact .ite (.fail _) (changeScope fun _ h => h.bindValue x v)
  · split
    · refine .ite (.fail _) fun st hst v st' h => ?_
      cases h
      exact ⟨hst.position, hst.frames.changeGlobals fun _ h => h.bindValue x v⟩
    · exact .fail _

theorem dropIterator : Action.dropIterator.Confines named constants := changeScope fun _ h => h

theorem next {exit : Nat} (hexit : named exit = constants) :
    (Action.next exit).Confines named constants := by
  refine .bind get fun st => ?_
  split
  · exact .bind (changeScope fun _ h => h) fun _ => push _
  · exact .bind dropIterator fun _ => jump hexit
  · exact .fail _

end Action.Confines

/-! ### Instructions -/

/-- The instruction declares no constants but the given ones, and jumps only to where the same ones
are named. -/
structure Instr.Within (named : Nat → List String) (constants : List String)
    (i : Instr) : Prop where
  declares : ∀ x, i = .declare x true → x ∈ constants
  jumps : ∀ target, i.target? = some target → named target = constants

/-- Every instruction but calls and returns leaves behind a state that is confined to the same
constants. -/
theorem confines_execute (code : Code) (maxCalls : Nat) (w : World) {i : Instr}
    (hi : i.Within named constants) (h : ¬i.IsTransfer) :
    (i.execute code maxCalls w).Confines named constants := by
  have htarget := hi.jumps
  cases i with
  | push value => exact .bind (.push _) fun _ => .pure _
  | load x => exact .bind (.load x) fun _ => .pure _
  | declare x constant =>
    have hx : constant = true → x ∈ constants := by
      rintro rfl
      exact hi.declares x rfl
    exact .bind .pop fun v => .bind (.declare hx) fun _ => .pure _
  | store x => exact .bind .pop fun v => .bind (.store x v) fun _ => .pure _
  | unpack count =>
    refine .bind .pop fun v => .bind (.elements v) fun values => ?_
    refine .ite (.bind (.fail _) fun _ => ?_) ?_
    · exact .bind (.pushAll _) fun _ => .pure _
    · exact .bind (.pushAll _) fun _ => .pure _
  | loadIndex => exact .bind .pop fun _ => .bind .pop fun _ => .bind (.compute _) fun _ => .pure _
  | storeIndex =>
    refine .bind .pop fun _ => .bind .pop fun _ => .bind .pop fun _ => ?_
    exact .bind (.change _) fun _ => .pure _
  | duplicatePair => exact .bind .duplicatePair fun _ => .pure _
  | loadAttribute x => exact .bind .pop fun _ => .bind (.compute _) fun _ => .pure _
  | unary op => exact .bind .pop fun _ => .bind (.compute _) fun _ => .pure _
  | binary op => exact .bind .pop fun _ => .bind .pop fun _ => .bind (.compute _) fun _ => .pure _
  | jump target => exact .bind (.jump (htarget target rfl)) fun _ => .pure _
  | jumpIfFalse target =>
    refine .bind .topTruth fun truth => .bind .pop fun _ => .ite (.pure _) ?_
    exact .bind (.jump (htarget target rfl)) fun _ => .pure _
  | jumpIfFalseElsePop target =>
    refine .bind .topTruth fun truth => .ite ?_ ?_
    · exact .bind .pop fun _ => .pure _
    · exact .bind (.jump (htarget target rfl)) fun _ => .pure _
  | jumpIfTrueElsePop target =>
    refine .bind .topTruth fun truth => .ite ?_ ?_
    · exact .bind (.jump (htarget target rfl)) fun _ => .pure _
    · exact .bind .pop fun _ => .pure _
  | buildList count => exact .bind (.popMany count) fun _ => .bind (.compute _) fun _ => .pure _
  | buildSet => exact .bind .pop fun _ => .bind (.compute _) fun _ => .pure _
  | buildMap => exact .bind .pop fun _ => .bind (.compute _) fun _ => .pure _
  | iterStart =>
    refine .bind .pop fun v => .bind (.elements v) fun values => ?_
    exact .bind (.changeScope fun _ h => h) fun _ => .pure _
  | iterNext exit => exact .bind (.next (htarget exit rfl)) fun _ => .pure _
  | iterDrop => exact .bind .dropIterator fun _ => .pure _
  | call function argc => exact absurd trivial h
  | callUndefined x => exact .fail _
  | builtin function argc =>
    cases function with
    | print =>
      refine .bind (.popMany argc) fun values => .bind (.line values) fun text => ?_
      exact .bind (.push _) fun _ => .pure _
    | _ => exact .bind (.popMany argc) fun _ => .bind (.compute _) fun _ => .pure _
  | method m argc =>
    refine .bind (.popMany argc) fun _ => .bind .pop fun _ => ?_
    exact .bind (.compute _) fun _ => .pure _
  | capability c argc => exact .bind (.popMany argc) fun args => .capability w c args
  | pop => exact .bind .pop fun _ => .pure _
  | «return» => exact absurd trivial h
  | throw => exact .bind .pop fun v => .bind .get fun _ => .fail _
  | halt => exact .pure _

/-- The instruction at a position stays where the same constants are named, unless it leaves its
frame for good. -/
structure Instr.Stays (named : Nat → List String) (position : Nat) (i : Instr) : Prop where
  within : i.Within named (named position)
  next : i ≠ .return → i ≠ .halt → named (position + 1) = named position

/-- A step leaves a confined state confined. -/
theorem State.Confined.next {code : Code} {maxCalls : Nat} {w : World} {st st' : State}
    {effect : Effect} (hst : st.Confined named)
    (hstays : ∀ i, code.instructions[st.position]? = some i → i.Stays named st.position)
    (hnext : st.next code maxCalls w = .ok (effect, st')) (heffect : effect ≠ .halt) :
    st'.Confined named := by
  obtain ⟨i, hi, h⟩ := State.next_eq_ok hnext heffect
  obtain ⟨hwithin, hbehind⟩ := hstays i hi
  by_cases htransfer : i.IsTransfer
  · cases i with
    | call function argc =>
      obtain ⟨-, -, -, f, args, -, rfl⟩ := execute_call_eq_ok h
      have hreturn : named (st.position + 1) = named st.position := hbehind nofun nofun
      rw [State.Confined, frames_push]
      refine ⟨Scope.Within.empty.bindParams f.params args, ?_⟩
      rw [hreturn]
      exact hst
    | «return» =>
      obtain ⟨-, v, calls, frame, -, hcalls, rfl⟩ := execute_return_eq_ok h
      have hcalls : st.calls = calls.push frame := hcalls
      rw [State.Confined, State.frames, hcalls, Array.toList_push, List.reverse_append] at hst
      exact hst.2
    | _ => exact htransfer.elim
  · have hposition : named (st.position + 1) = named st.position := by
      refine hbehind ?_ ?_
      · rintro rfl
        exact htransfer trivial
      · rintro rfl
        cases h
        exact heffect rfl
    have hfetched : State.ConfinedTo named (named st.position)
        { st with position := st.position + 1 } :=
      ⟨hposition, hst⟩
    exact (confines_execute code maxCalls w hwithin htransfer _ hfetched _ _ h).confined

end Confinement

end Labyrinth
