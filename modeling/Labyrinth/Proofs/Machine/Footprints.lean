import Labyrinth.Proofs.Machine.Fits

/-!
# The footprints of instructions

An instruction that neither calls nor returns takes some operands from the top of the stack and
changes at most the innermost scope and the names of the top level. All else it **spares**: the
operands below, the frames of the callers, and where the innermost call began. This holds of every
code, also of one in which an instruction takes operands that do not belong to its call; that the
instructions of a program never do so is a matter of the shapes beside them.

## Main results

* `spares_execute`: what an instruction spares.
* `Instr.Flows.operands_le`: an instruction takes no more operands than its shape promises.
* `execute_call_eq_ok`, `execute_return_eq_ok`: all that a call and a return can do.
-/

namespace Labyrinth

/-- All is spared but so many operands on top, the innermost scope, and the names of the top
level. -/
structure State.Spares (n : Nat) (st st' : State) : Prop where
  operands : ∀ i, i + n < st.stack.size → st'.stack[i]? = st.stack[i]?
  frames : ∃ f, st'.frames = st.frames.modifyHead (Frame.change f)
  /-- The iterators of the top level can only change where it is the innermost scope. -/
  iterators : st.frames ≠ [] → st'.globals.iterators = st.globals.iterators

namespace State.Spares

variable {m n : Nat} {st st' st'' : State}

theorem refl (st : State) : st.Spares 0 st :=
  ⟨fun _ _ => rfl, ⟨id, by cases st.frames <;> rfl⟩, fun _ => rfl⟩

theorem mono (h : st.Spares m st') (hmn : m ≤ n) : st.Spares n st' :=
  ⟨fun i hi => h.operands i (by omega), h.frames, h.iterators⟩

theorem frames_ne_nil (h : st.Spares n st') (hst : st.frames ≠ []) : st'.frames ≠ [] := by
  obtain ⟨f, hf⟩ := h.frames
  rw [hf]
  intro hnil
  exact hst (List.modifyHead_eq_nil_iff.1 hnil)

theorem trans (h : st.Spares m st') (h' : st'.Spares n st'') : st.Spares (m + n) st'' := by
  refine ⟨fun i hi => ?_, ?_, fun hst => ?_⟩
  · -- The operand stands so deep that it is still there when the second part begins.
    have hdeep := h.operands (i + n) (by omega)
    rw [Array.getElem?_eq_getElem (by omega : i + n < st.stack.size)] at hdeep
    obtain ⟨hlt, -⟩ := Array.getElem?_eq_some_iff.1 hdeep
    rw [h'.operands i hlt, h.operands i (by omega)]
  · obtain ⟨f, hf⟩ := h.frames
    obtain ⟨f', hf'⟩ := h'.frames
    refine ⟨f' ∘ f, ?_⟩
    rw [hf', hf, List.modifyHead_modifyHead]
    rfl
  · rw [h'.iterators (h.frames_ne_nil hst), h.iterators hst]

end State.Spares

/-- An action that spares all but so many operands on top. -/
def Action.Spares {α : Type} (n : Nat) (a : Action α) : Prop :=
  ∀ st v st', a st = .ok (v, st') → st.Spares n st'

namespace Action.Spares

variable {α β : Type} {m n : Nat}

theorem bind {a : Action α} {f : α → Action β} (ha : Action.Spares m a)
    (hf : ∀ v, Action.Spares n (f v)) : Action.Spares (m + n) (a >>= f) := by
  intro st w st'' h
  obtain ⟨v, st', hv, h⟩ := stateBind_eq_ok_iff.1 h
  exact (ha st v st' hv).trans (hf v st' w st'' h)

theorem pure (v : α) : Action.Spares 0 (Pure.pure v : Action α) := by
  intro st w st' h
  cases h
  exact .refl st

/-- An action that is followed by a result. -/
theorem thenPure {a : Action α} (ha : Action.Spares n a) (v : β) :
    Action.Spares n (a >>= fun _ => Pure.pure v) := ha.bind fun _ => pure v

theorem fail (fault : Fault) : Action.Spares n (Action.fail fault : Action α) :=
  fun _ _ _ h => nomatch h

theorem ite {c : Prop} [Decidable c] {a b : Action α} (ha : Action.Spares n a)
    (hb : Action.Spares n b) : Action.Spares n (if c then a else b) := by
  split
  · exact ha
  · exact hb

theorem mono {a : Action α} (ha : Action.Spares m a) (h : m ≤ n) : Action.Spares n a :=
  fun st v st' hv => (ha st v st' hv).mono h

theorem lift (x : Except Fault α) : Action.Spares 0 (liftM x : Action α) := by
  intro st v st' h
  obtain ⟨w, -, h⟩ := bind_eq_ok_iff.1 h
  cases h
  exact .refl st

/-- An action that leaves the scopes alone. -/
theorem of_operands {a : Action α} (h : ∀ st v st', a st = .ok (v, st') →
    (∀ i, i + n < st.stack.size → st'.stack[i]? = st.stack[i]?) ∧
      st'.globals = st.globals ∧ st'.calls = st.calls) : Action.Spares n a := by
  intro st v st' hv
  obtain ⟨hoperands, hglobals, hcalls⟩ := h st v st' hv
  have hframes : st'.frames = st.frames := by rw [State.frames, State.frames, hcalls]
  exact ⟨hoperands, ⟨id, by rw [hframes]; cases st.frames <;> rfl⟩, fun _ => by rw [hglobals]⟩

end Action.Spares

open Labyrinth.Action

/-! ### Operands -/

theorem getElem?_push_of_lt (stack : Array Value) (v : Value) {i : Nat} (hi : i < stack.size) :
    (stack.push v)[i]? = stack[i]? := by
  rw [Array.getElem?_push, if_neg (Nat.ne_of_lt hi)]

theorem getElem?_shrink_of_lt (stack : Array Value) {n i : Nat} (hi : i < n) :
    (stack.shrink n)[i]? = stack[i]? := by
  rw [← Array.getElem?_toList, Array.toList_shrink, List.getElem?_take_of_lt hi,
    Array.getElem?_toList]

theorem spares_get : Action.Spares 0 get :=
  .of_operands fun _ _ _ h => by cases h; exact ⟨fun _ _ => rfl, rfl, rfl⟩

theorem spares_push (v : Value) : Action.Spares 0 (push v) := by
  refine .of_operands fun st w st' h => ?_
  cases h
  exact ⟨fun i hi => getElem?_push_of_lt st.stack v hi, rfl, rfl⟩

theorem spares_pop : Action.Spares 1 pop := by
  refine .of_operands fun ⟨position, stack, heap, globals, calls⟩ v st' h => ?_
  simp only [pop] at h
  split at h
  · cases h
    refine ⟨fun i hi => ?_, rfl, rfl⟩
    rw [Array.getElem?_pop, if_pos (Nat.lt_sub_of_add_lt hi)]
  · cases h

theorem spares_popMany (count : Nat) : Action.Spares count (popMany count) := by
  refine .of_operands fun ⟨position, stack, heap, globals, calls⟩ v st' h => ?_
  simp only [popMany] at h
  split at h
  · cases h
    exact ⟨fun i hi => getElem?_shrink_of_lt stack (Nat.lt_sub_of_add_lt hi), rfl, rfl⟩
  · cases h

theorem spares_topTruth : Action.Spares 0 topTruth := by
  refine .bind (n := 0) spares_get fun st => ?_
  split
  · exact .pure _
  · exact .fail _

theorem spares_duplicatePair : Action.Spares 0 duplicatePair := by
  refine .of_operands fun ⟨position, stack, heap, globals, calls⟩ v st' h => ?_
  simp only [duplicatePair] at h
  split at h
  · cases h
    refine ⟨fun i hi => ?_, rfl, rfl⟩
    have hi' : i < (stack.push stack[stack.size - 2]).size := by
      rw [Array.size_push]
      exact Nat.lt_succ_of_lt hi
    rw [getElem?_push_of_lt _ _ hi']
    exact getElem?_push_of_lt stack _ hi
  · cases h

theorem spares_jump (target : Nat) : Action.Spares 0 (jump target) :=
  .of_operands fun _ _ _ h => by cases h; exact ⟨fun _ _ => rfl, rfl, rfl⟩

theorem spares_compute (f : Heap → Except Fault (Value × Heap)) : Action.Spares 0 (compute f) := by
  refine .of_operands fun st v st' h => ?_
  obtain ⟨⟨w, heap⟩, -, h⟩ := bind_eq_ok_iff.1 h
  cases h
  exact ⟨fun i hi => getElem?_push_of_lt st.stack w hi, rfl, rfl⟩

theorem spares_inspect (f : Heap → Except Fault Value) : Action.Spares 0 (inspect f) :=
  spares_compute _

theorem spares_change (f : Heap → Except Fault Heap) : Action.Spares 0 (change f) := by
  refine .of_operands fun st v st' h => ?_
  obtain ⟨heap, -, h⟩ := bind_eq_ok_iff.1 h
  cases h
  exact ⟨fun _ _ => rfl, rfl, rfl⟩

theorem spares_elements (v : Value) : Action.Spares 0 (elements v) := by
  refine .of_operands fun st w st' h => ?_
  obtain ⟨⟨values, heap⟩, -, h⟩ := bind_eq_ok_iff.1 h
  cases h
  exact ⟨fun _ _ => rfl, rfl, rfl⟩

theorem spares_pushAll (values : List Value) : Action.Spares 0 (values.forM push) := by
  induction values with
  | nil => exact .pure _
  | cons v values ih => exact .bind (n := 0) (spares_push v) fun _ => ih

theorem spares_line (values : List Value) : Action.Spares 0 (line values) :=
  spares_get.bind (n := 0) fun _ => .pure _

/-! ### Scopes -/

/-- A change of the innermost scope. -/
theorem spares_changeScope (f : Scope → Scope) : Action.Spares 0 (changeScope f) := by
  rintro ⟨position, stack, heap, globals, calls⟩ v st' h
  rcases eq_empty_or_push calls with rfl | ⟨calls, frame, rfl⟩
  · cases h
    exact ⟨fun _ _ => rfl, ⟨id, rfl⟩, fun hne => absurd rfl hne⟩
  · rw [changeScope_push] at h
    cases h
    exact ⟨fun _ _ => rfl, ⟨f, by rw [frames_push, frames_push]; rfl⟩, fun _ => rfl⟩

/-- A change of the names of the top level. -/
theorem spares_changeGlobals {f : Scope → Scope}
    (hf : ∀ scope : Scope, (f scope).iterators = scope.iterators) :
    Action.Spares 0 (changeGlobals f) := by
  intro st v st' h
  cases h
  exact ⟨fun _ _ => rfl, ⟨id, by cases hframes : st.frames <;> exact hframes⟩, fun _ => hf _⟩

theorem spares_load (x : String) : Action.Spares 0 (load x) := by
  refine .bind (n := 0) spares_get fun st => ?_
  split
  · exact spares_push _
  · exact .fail _

theorem spares_store (x : String) (v : Value) : Action.Spares 0 (store x v) := by
  refine .bind (n := 0) spares_get fun st => ?_
  split
  · exact .ite (.fail _) (spares_changeScope _)
  · split
    · exact .ite (.fail _) (spares_changeGlobals fun _ => rfl)
    · exact .fail _

theorem spares_next (exit : Nat) : Action.Spares 0 (next exit) := by
  refine .bind (n := 0) spares_get fun st => ?_
  split
  · exact .bind (n := 0) (spares_changeScope _) fun _ => spares_push _
  · exact .bind (n := 0) (spares_changeScope _) fun _ => spares_jump exit
  · exact .fail _

theorem spares_capability (w : World) (c : Capability) (args : List Value) :
    Action.Spares 0 (capability w c args) := by
  have hquestion (value : Bool) : Action.Spares 0
      (push (.bool value) >>= fun _ => pure Effect.none) := (spares_push _).thenPure _
  unfold capability
  refine .bind (n := 0) (.lift _) fun _ => ?_
  split
  · exact (spares_push _).thenPure _
  · exact .bind (n := 0) (.lift _) fun _ => .bind (n := 0) (.lift _) fun _ => hquestion _
  · exact .bind (n := 0) (.lift _) fun _ => .bind (n := 0) (.lift _) fun _ => hquestion _
  · exact (spares_compute _).thenPure _

/-! ### Instructions -/

/-- How many operands an instruction takes at most. -/
def Instr.operands : Instr → Nat
  | push _ | load _ | duplicatePair | jump _ | iterNext _ | iterDrop | callUndefined _ | halt => 0
  | declare .. | store _ | unpack _ | loadAttribute _ | unary _ | jumpIfFalse _
  | jumpIfFalseElsePop _ | jumpIfTrueElsePop _ | buildSet | buildMap | iterStart | pop
  | «return» | throw => 1
  | loadIndex | binary _ => 2
  | storeIndex => 3
  | buildList count => count
  | call _ argc | builtin _ argc | capability _ argc => argc
  | method _ argc => argc + 1

/-- An instruction that begins or ends a call. -/
def Instr.IsTransfer : Instr → Prop
  | call .. | «return» => True
  | _ => False

/-- Every instruction but calls and returns spares all but its operands. -/
theorem spares_execute (code : Code) (maxCalls : Nat) (w : World) {instr : Instr}
    (h : ¬instr.IsTransfer) : Action.Spares instr.operands (instr.execute code maxCalls w) := by
  cases instr with
  | push value => exact (spares_push _).thenPure _
  | load x => exact (spares_load x).thenPure _
  | declare x constant => exact spares_pop.bind fun v => (spares_changeScope _).thenPure _
  | store x => exact spares_pop.bind fun v => (spares_store x v).thenPure _
  | unpack count =>
    refine spares_pop.bind (n := 0) fun v => (spares_elements v).bind (n := 0) fun values => ?_
    have hpush := (spares_pushAll values.reverse).thenPure Effect.none
    exact .ite (.bind (m := 0) (n := 0) (.fail _) fun _ => hpush) hpush
  | loadIndex =>
    refine spares_pop.bind (n := 1) fun i => spares_pop.bind (n := 0) fun object => ?_
    exact (spares_inspect _).thenPure _
  | storeIndex =>
    refine spares_pop.bind (n := 2) fun v => spares_pop.bind (n := 1) fun i => ?_
    exact spares_pop.bind (n := 0) fun object => (spares_change _).thenPure _
  | duplicatePair => exact spares_duplicatePair.thenPure _
  | loadAttribute x => exact spares_pop.bind fun object => (spares_inspect _).thenPure _
  | unary op => exact spares_pop.bind fun v => (spares_inspect _).thenPure _
  | binary op =>
    refine spares_pop.bind (n := 1) fun y => spares_pop.bind (n := 0) fun x => ?_
    exact (spares_compute _).thenPure _
  | jump target => exact (spares_jump target).thenPure _
  | jumpIfFalse target =>
    refine spares_topTruth.bind (n := 1) fun truth => spares_pop.bind (n := 0) fun _ => ?_
    exact .ite (.pure _) ((spares_jump target).thenPure _)
  | jumpIfFalseElsePop target =>
    refine spares_topTruth.bind (n := 1) fun truth => ?_
    exact .ite (spares_pop.thenPure _) (((spares_jump target).thenPure _).mono (Nat.zero_le 1))
  | jumpIfTrueElsePop target =>
    refine spares_topTruth.bind (n := 1) fun truth => ?_
    exact .ite (((spares_jump target).thenPure _).mono (Nat.zero_le 1)) (spares_pop.thenPure _)
  | buildList count => exact (spares_popMany count).bind fun _ => (spares_compute _).thenPure _
  | buildSet => exact spares_pop.bind fun v => (spares_compute _).thenPure _
  | buildMap => exact spares_pop.bind fun v => (spares_compute _).thenPure _
  | iterStart =>
    refine spares_pop.bind (n := 0) fun v => (spares_elements v).bind (n := 0) fun values => ?_
    exact (spares_changeScope _).thenPure _
  | iterNext exit => exact (spares_next exit).thenPure _
  | iterDrop => exact (spares_changeScope _).thenPure _
  | call function argc => exact absurd trivial h
  | callUndefined x => exact .fail _
  | builtin function argc =>
    cases function with
    | print =>
      refine (spares_popMany argc).bind (n := 0) fun values => ?_
      exact (spares_line values).bind (n := 0) fun text => (spares_push _).thenPure _
    | _ => exact (spares_popMany argc).bind fun _ => (spares_compute _).thenPure _
  | method m argc =>
    refine (spares_popMany argc).bind (n := 1) fun args => ?_
    exact spares_pop.bind fun receiver => (spares_compute _).thenPure _
  | capability c argc => exact (spares_popMany argc).bind fun args => spares_capability w c args
  | pop => exact spares_pop.thenPure _
  | «return» => exact absurd trivial h
  | throw => exact spares_pop.bind fun v => spares_get.bind (n := 0) fun _ => .fail _
  | halt => exact .pure _

/-- An instruction takes no more operands than the shape promises from which it flows. -/
theorem Instr.Flows.operands_le {functions : Array FunctionEntry} {accept : Nat → Shape → Prop}
    {next : Nat} {s : Shape} {instr : Instr} (h : instr.Flows functions accept next s) :
    instr.operands ≤ s.height := by
  have hraise (b : Shape) (n : Nat) : n ≤ (b.raise n).height := Nat.le_add_left n b.height
  cases instr with
  | push | load | jump | iterNext | iterDrop | callUndefined | halt => exact Nat.zero_le _
  | duplicatePair => exact Nat.zero_le _
  | «return» =>
    obtain ⟨-, b, rfl⟩ := h
    exact hraise b 1
  | call function argc =>
    obtain ⟨⟨b, rfl, -⟩, -⟩ := h
    exact hraise b argc
  | throw =>
    obtain ⟨b, rfl⟩ := h
    exact hraise b 1
  | _ =>
    obtain ⟨b, rfl, -⟩ := h
    exact hraise b _

/-! ### Calls and returns -/

section Transfers

variable {code : Code} {maxCalls : Nat} {w : World} {st st' : State} {effect : Effect}

/-- An instruction that does not end the program is read at the position of the state. -/
theorem State.next_eq_ok (h : st.next code maxCalls w = .ok (effect, st'))
    (heffect : effect ≠ .halt) :
    ∃ instr, code.instructions[st.position]? = some instr ∧
      instr.execute code maxCalls w { st with position := st.position + 1 } =
        .ok (effect, st') := by
  unfold State.next at h
  split at h
  · rename_i instr hinstr
    exact ⟨instr, hinstr, h⟩
  · cases h
    exact absurd rfl heffect

theorem popMany_eq_ok {count : Nat} {values : List Value}
    (h : popMany count st = .ok (values, st')) :
    count ≤ st.stack.size ∧ st' = { st with stack := st.stack.shrink (st.stack.size - count) } := by
  simp only [popMany] at h
  split at h
  · rename_i hle
    cases h
    exact ⟨hle, rfl⟩
  · cases h

/-- A call takes the arguments from the stack and enters a function of the table, whose frame tells
where the caller goes on, and where its operands end. -/
theorem execute_call_eq_ok {function argc : Nat}
    (h : (Instr.call function argc).execute code maxCalls w st = .ok (effect, st')) :
    st.calls.size < maxCalls ∧ argc ≤ st.stack.size ∧ effect = .none ∧
      ∃ (f : FunctionEntry) (args : List Value), code.functions[function]? = some f ∧
        st' = ⟨f.entry, st.stack.shrink (st.stack.size - argc), st.heap, st.globals,
          st.calls.push ⟨.bindParams .empty f.params args, st.position, st.stack.size - argc⟩⟩ := by
  rw [Instr.execute] at h
  obtain ⟨_, _, hcall, h⟩ := stateBind_eq_ok_iff.1 h
  cases h
  unfold Action.call at hcall
  cases hf : code.functions[function]? with
  | none =>
    rw [hf] at hcall
    cases hcall
  | some f =>
    rw [hf] at hcall
    by_cases hlength : f.params.length ≠ argc
    · simp only [if_pos hlength] at hcall
      cases hcall
    simp only [if_neg hlength, get_bind] at hcall
    by_cases hdepth : maxCalls ≤ st.calls.size
    · rw [if_pos hdepth] at hcall
      cases hcall
    rw [if_neg hdepth] at hcall
    obtain ⟨args, st₁, hpop, henter⟩ := stateBind_eq_ok_iff.1 hcall
    obtain ⟨hargc, rfl⟩ := popMany_eq_ok hpop
    cases henter
    refine ⟨Nat.lt_of_not_le hdepth, hargc, rfl, f, args, rfl, ?_⟩
    have hsize : (st.stack.shrink (st.stack.size - argc)).size = st.stack.size - argc := by
      rw [Array.size_shrink]
      omega
    rw [hsize]

/-- A return takes the result from the stack and leaves the innermost call for its caller. -/
theorem execute_return_eq_ok
    (h : Instr.return.execute code maxCalls w st = .ok (effect, st')) :
    effect = .none ∧ ∃ v calls frame, st.stack.back? = some v ∧ st.calls = calls.push frame ∧
      st' = ⟨frame.returnTo, (st.stack.pop.shrink frame.base).push v, st.heap, st.globals,
        calls⟩ := by
  obtain ⟨v, st₁, hpop, h⟩ := stateBind_eq_ok_iff.1 h
  obtain ⟨_, _, hleave, h⟩ := stateBind_eq_ok_iff.1 h
  cases h
  obtain ⟨position, stack, heap, globals, calls⟩ := st
  simp only [pop] at hpop
  split at hpop
  · rename_i _ hback
    cases hpop
    rcases eq_empty_or_push calls with rfl | ⟨calls, frame, rfl⟩
    · cases hleave
    · simp only [leave, Array.back?_push, Array.pop_push, Except.ok.injEq, Prod.mk.injEq] at hleave
      exact ⟨rfl, v, calls, frame, hback, rfl, hleave.2.symm⟩
  · cases hpop

end Transfers

end Labyrinth
