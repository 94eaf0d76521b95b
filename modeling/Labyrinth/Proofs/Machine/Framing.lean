import Labyrinth.Proofs.Machine.Footprints
import Labyrinth.Proofs.Machine.Runs
import Labyrinth.Proofs.Machine.Steps

/-!
# Calls are framed

From a call to the return that ends it, a program leaves its callers alone: the operands below the
arguments, the frames of the calls around it with their names and their iterators, and the iterators
of the top level. Only the names of the top level can be assigned to from within. The return leaves
the result in place of the arguments and goes on behind the call.

Code that is not that of a program may do otherwise, for its functions may take operands from below
their own. The shapes beside the instructions of a program exclude this.

## Main results

* `State.Calling.next`: what one instruction does within a call.
* `State.Calling.within`: what all instructions within a call preserve.
* `Program.framed_call`: a call from its beginning to its end.
-/

namespace Labyrinth

/-! ### Within a call -/

/-- In the state `st`, a call is in progress that has been begun in the state `caller` with so many
arguments: its frame lies above those of its caller, and nothing of the caller is touched. -/
structure State.Calling (caller : State) (argc : Nat) (st : State) : Prop where
  operands : ∀ i < caller.stack.size - argc, st.stack[i]? = caller.stack[i]?
  iterators : st.globals.iterators = caller.globals.iterators
  /-- The frames of further calls lie above, and their operands above those of the caller. -/
  frames : ∃ inner callee, st.frames = inner ++ callee :: caller.frames ∧
    callee.returnTo = caller.position + 1 ∧ callee.base = caller.stack.size - argc ∧
      ∀ frame ∈ inner, caller.stack.size - argc ≤ frame.base

/-- The state `st` keeps what belongs to the callers of a call that has been begun in the state
`caller` with so many arguments. -/
structure State.Framed (caller : State) (argc : Nat) (st : State) : Prop where
  /-- The operands below the arguments lie where they have been. -/
  operands : caller.stack.toList.take (caller.stack.size - argc) <+: st.stack.toList
  /-- The frames of the callers, with their names and their iterators. -/
  callers : caller.calls.toList <+: st.calls.toList
  iterators : st.globals.iterators = caller.globals.iterators

/-- In the state `st`, a call has returned a value that was begun in the state `caller` with so many
arguments. -/
structure State.Resumed (caller : State) (argc : Nat) (v : Value) (st : State) : Prop where
  position : st.position = caller.position + 1
  /-- The value lies in place of the arguments. -/
  stack : st.stack = (caller.stack.shrink (caller.stack.size - argc)).push v
  calls : st.calls = caller.calls
  iterators : st.globals.iterators = caller.globals.iterators

namespace State.Calling

variable {caller st st' : State} {argc : Nat}

/-- The operands of the innermost call lie above those of the caller. -/
theorem le_baseOf (h : caller.Calling argc st) :
    caller.stack.size - argc ≤ baseOf st.frames := by
  obtain ⟨inner, callee, hframes, -, hbase, hinner⟩ := h.frames
  rw [hframes]
  cases inner with
  | nil => exact hbase.ge
  | cons frame inner => exact hinner frame List.mem_cons_self

theorem size_lt (h : caller.Calling argc st) : caller.calls.size < st.calls.size := by
  obtain ⟨inner, callee, hframes, -⟩ := h.frames
  have hlength := congrArg List.length hframes
  simp only [State.frames, List.length_append, List.length_cons, List.length_reverse,
    Array.length_toList] at hlength
  omega

theorem framed (h : caller.Calling argc st) : caller.Framed argc st := by
  obtain ⟨inner, callee, hframes, -⟩ := h.frames
  refine ⟨?_, ?_, h.iterators⟩
  · rw [List.prefix_iff_getElem?]
    intro i hi
    rw [List.length_take, Array.length_toList] at hi
    have hlt : i < caller.stack.size - argc := by omega
    rw [Array.getElem?_toList, h.operands i hlt, Array.getElem?_eq_getElem (by omega),
      List.getElem_take, Array.getElem_toList]
  · -- The frames are listed from the innermost one on, the calls from the outermost one on.
    have hcalls : st.calls.toList = caller.calls.toList ++ ((inner ++ [callee]).reverse) := by
      have hreverse := congrArg List.reverse hframes
      simpa [State.frames] using hreverse
    rw [hcalls]
    exact List.prefix_append _ _

/-- A call has been entered. -/
theorem of_enter {code : Code} {maxCalls function : Nat} {w : World} {effect : Effect}
    (hcall : code.instructions[caller.position]? = some (.call function argc))
    (hnext : caller.next code maxCalls w = .ok (effect, st)) :
    argc ≤ caller.stack.size ∧ effect = .none ∧ caller.Calling argc st := by
  unfold State.next at hnext
  rw [hcall] at hnext
  obtain ⟨-, hargc, heffect, f, args, -, rfl⟩ := execute_call_eq_ok hnext
  refine ⟨hargc, heffect, fun i hi => getElem?_shrink_of_lt _ hi, rfl, [],
    ⟨.bindParams .empty f.params args, caller.position + 1, caller.stack.size - argc⟩, ?_, rfl, rfl,
    nofun⟩
  rw [frames_push]
  rfl

section Next

variable {code : Code} {L : List Shape} {maxCalls : Nat} {w : World} {effect : Effect}

/-- An instruction of the innermost call that neither calls nor returns. -/
theorem ordinary (h : caller.Calling argc st) {n : Nat} (hst : st.Spares n st')
    (hroom : baseOf st.frames + n ≤ st.stack.size) : caller.Calling argc st' := by
  have hbase := h.le_baseOf
  obtain ⟨inner, callee, hframes, hreturn, hcallee, hinner⟩ := h.frames
  obtain ⟨f, hf⟩ := hst.frames
  have hne : st.frames ≠ [] := by rw [hframes]; simp
  refine ⟨fun i hi => ?_, (hst.iterators hne).trans h.iterators, ?_⟩
  · rw [hst.operands i (by omega), h.operands i hi]
  · cases inner with
    | nil => exact ⟨[], callee.change f, by rw [hf, hframes]; rfl, hreturn, hcallee, nofun⟩
    | cons frame inner =>
      obtain ⟨hframe, hinner⟩ := List.forall_mem_cons.1 hinner
      refine ⟨frame.change f :: inner, callee, by rw [hf, hframes]; rfl, hreturn, hcallee, ?_⟩
      exact List.forall_mem_cons.2 ⟨hframe, hinner⟩

/-- A further call within the call. -/
theorem call (h : caller.Calling argc st) {count entry returnTo : Nat} {scope : Scope}
    (hroom : baseOf st.frames + count ≤ st.stack.size) :
    caller.Calling argc ⟨entry, st.stack.shrink (st.stack.size - count), st.heap, st.globals,
      st.calls.push ⟨scope, returnTo, st.stack.size - count⟩⟩ := by
  have hbase := h.le_baseOf
  obtain ⟨inner, callee, hframes, hreturn, hcallee, hinner⟩ := h.frames
  refine ⟨fun i hi => ?_, h.iterators, ?_⟩
  · exact (getElem?_shrink_of_lt st.stack (by omega)).trans (h.operands i hi)
  · refine ⟨⟨scope, returnTo, st.stack.size - count⟩ :: inner, callee, ?_, hreturn, hcallee, ?_⟩
    · rw [frames_push, List.cons_append, ← hframes]
      rfl
    · exact List.forall_mem_cons.2 ⟨by dsimp only; omega, hinner⟩

/-- A return ends the innermost call, which is either a further one or the call itself. -/
theorem ret (h : caller.Calling argc st) {calls : Array Frame} {frame : Frame} {v : Value}
    (hcalls : st.calls = calls.push frame) (hroom : baseOf st.frames + 1 ≤ st.stack.size) :
    caller.Calling argc ⟨frame.returnTo, (st.stack.pop.shrink frame.base).push v, st.heap,
        st.globals, calls⟩ ∨
      caller.Resumed argc v ⟨frame.returnTo, (st.stack.pop.shrink frame.base).push v, st.heap,
        st.globals, calls⟩ := by
  obtain ⟨inner, callee, hframes, hreturn, hcallee, hinner⟩ := h.frames
  have hst : st.frames = frame :: calls.toList.reverse := by
    rw [State.frames, hcalls, Array.toList_push, List.reverse_append]
    rfl
  rw [hst] at hframes hroom
  replace hroom : frame.base + 1 ≤ st.stack.size := hroom
  have hdeep (i : Nat) (hi : i < frame.base) : st.stack.pop[i]? = st.stack[i]? := by
    rw [Array.getElem?_pop, if_pos (by omega)]
  cases inner with
  | nil =>
    right
    obtain ⟨rfl, hrest⟩ := List.cons.inj hframes
    refine ⟨hreturn, ?_, ?_, h.iterators⟩
    · have hstack : st.stack.pop.shrink frame.base =
          caller.stack.shrink (caller.stack.size - argc) := by
        refine Array.ext_getElem? fun i => ?_
        by_cases hi : i < frame.base
        · have hi' : i < caller.stack.size - argc := hcallee ▸ hi
          rw [getElem?_shrink_of_lt _ hi, hdeep i hi, h.operands i hi',
            getElem?_shrink_of_lt _ hi']
        · have hout : (st.stack.pop.shrink frame.base).size ≤ i := by
            rw [Array.size_shrink]
            omega
          have hout' : (caller.stack.shrink (caller.stack.size - argc)).size ≤ i := by
            rw [Array.size_shrink]
            omega
          rw [Array.getElem?_eq_none hout, Array.getElem?_eq_none hout']
      exact congrArg (·.push v) hstack
    · exact Array.toList_inj.1 (List.reverse_injective hrest)
  | cons first inner =>
    left
    obtain ⟨rfl, hrest⟩ := List.cons.inj hframes
    obtain ⟨hfirst, hinner⟩ := List.forall_mem_cons.1 hinner
    refine ⟨fun i hi => ?_, h.iterators, inner, callee, hrest, hreturn, hcallee, hinner⟩
    have hi' : i < frame.base := by omega
    rw [getElem?_push_of_lt, getElem?_shrink_of_lt _ hi', hdeep i hi', h.operands i hi]
    rw [Array.size_shrink, Array.size_pop]
    omega

/-- What one instruction does within a call: the call goes on, or it returns. -/
theorem next (hlaid : Laid code L) (hpoised : st.Poised L) (h : caller.Calling argc st)
    (hnext : st.next code maxCalls w = .ok (effect, st')) (heffect : effect ≠ .halt) :
    caller.Calling argc st' ∨ code.instructions[st.position]? = some .return ∧
      ∃ v, st.stack.back? = some v ∧ caller.Resumed argc v st' := by
  obtain ⟨s, hs, hfits⟩ := hpoised
  obtain ⟨instr, hinstr, hexecute⟩ := State.next_eq_ok hnext heffect
  have hoperands := (hlaid.flows _ _ s hinstr hs).operands_le
  have hheight := hfits.height
  -- The operands of the instruction are those of the innermost call.
  have hroom : baseOf st.frames + instr.operands ≤ st.stack.size := by omega
  have hbehind : caller.Calling argc { st with position := st.position + 1 } :=
    ⟨h.operands, h.iterators, h.frames⟩
  by_cases htransfer : instr.IsTransfer
  · cases instr with
    | call function count =>
      obtain ⟨-, -, -, f, args, -, rfl⟩ := execute_call_eq_ok hexecute
      exact .inl (hbehind.call hroom)
    | «return» =>
      obtain ⟨-, v, calls, frame, hback, hcalls, rfl⟩ := execute_return_eq_ok hexecute
      rcases hbehind.ret (v := v) hcalls hroom with hcalling | hresumed
      · exact .inl hcalling
      · exact .inr ⟨hinstr, v, hback, hresumed⟩
    | _ => exact htransfer.elim
  · exact .inl (hbehind.ordinary (spares_execute code maxCalls w htransfer _ _ _ hexecute) hroom)

end Next

end State.Calling

/-! ### Runs -/

/-- The states that a run comes to fit the layout. -/
theorem Steps.poised {code : Code} {L : List Shape} (hlaid : Laid code L) {maxCalls n : Nat}
    {st st' : State} {g g' : Stage} (h : Steps code maxCalls n st g st' g') (hst : st.Poised L) :
    st'.Poised L := by
  induction h with
  | refl => exact hst
  | step hnext heffect _ ih =>
    exact ih (((hlaid.safe_next maxCalls _ _ hst).2 _ _ hnext).poised heffect)

/-- The machine takes steps from one state and stage to another, and all the while there are more
than `depth` calls in progress. -/
inductive StepsWithin (code : Code) (maxCalls depth : Nat) :
    State → Stage → State → Stage → Prop
  | refl (st : State) (g : Stage) : depth < st.calls.size →
    StepsWithin code maxCalls depth st g st g
  | step {st st' st'' : State} {g g' : Stage} {effect : Effect} :
    StepsWithin code maxCalls depth st g st' g' →
      st'.next code maxCalls g'.world = .ok (effect, st'') → effect ≠ .halt →
        depth < st''.calls.size → StepsWithin code maxCalls depth st g st'' (g'.apply effect)

/-- What all instructions within a call preserve. -/
theorem State.Calling.within {code : Code} {L : List Shape} (hlaid : Laid code L)
    {maxCalls argc : Nat} {caller st st' : State} {g g' : Stage} (hpoised : st.Poised L)
    (h : caller.Calling argc st)
    (hsteps : StepsWithin code maxCalls caller.calls.size st g st' g') :
    st'.Poised L ∧ caller.Calling argc st' := by
  induction hsteps with
  | refl => exact ⟨hpoised, h⟩
  | step _ hnext heffect hdepth ih =>
    obtain ⟨hpoised', hcalling⟩ := ih
    refine ⟨((hlaid.safe_next maxCalls _ _ hpoised').2 _ _ hnext).poised heffect, ?_⟩
    rcases hcalling.next hlaid hpoised' hnext heffect with hcalling' | ⟨-, v, -, hresumed⟩
    · exact hcalling'
    · rw [hresumed.calls] at hdepth
      exact absurd hdepth (Nat.lt_irrefl _)

/-- Calls are framed. Wherever the run of a program comes to a call and enters it, all that belongs
to the callers is kept as long as the call is in progress; and the instruction with which the call
ends is a return, which leaves the callers as they were, with the result in place of the arguments,
and goes on behind the call. -/
theorem Program.framed_call {p : Program} {code : Code} (h : p.code = .ok code)
    {maxCalls n function argc : Nat} {w : World} {caller st : State} {g : Stage} {effect : Effect}
    (hsteps : Steps code maxCalls n .init ⟨w, []⟩ caller g)
    (hcall : code.instructions[caller.position]? = some (.call function argc))
    (henter : caller.next code maxCalls g.world = .ok (effect, st)) :
    argc ≤ caller.stack.size ∧ effect = .none ∧ caller.calls.size < st.calls.size ∧
      ∀ st' g', StepsWithin code maxCalls caller.calls.size st g st' g' →
        caller.Framed argc st' ∧
          ∀ effect' st'', st'.next code maxCalls g'.world = .ok (effect', st'') →
            effect' ≠ .halt → st''.calls.size ≤ caller.calls.size →
              code.instructions[st'.position]? = some .return ∧
                ∃ v, st'.stack.back? = some v ∧ caller.Resumed argc v st'' := by
  obtain ⟨L, hlaid⟩ := Program.laid_code h
  obtain ⟨hargc, heffect, hcalling⟩ := State.Calling.of_enter hcall henter
  have hcaller := hsteps.poised hlaid hlaid.poised_init
  have hst : st.Poised L :=
    ((hlaid.safe_next maxCalls _ _ hcaller).2 _ _ henter).poised (by rw [heffect]; exact nofun)
  refine ⟨hargc, heffect, hcalling.size_lt, fun st' g' hwithin => ?_⟩
  obtain ⟨hpoised, hcalling'⟩ := hcalling.within hlaid hst hwithin
  refine ⟨hcalling'.framed, fun effect' st'' hnext heffect' hsize => ?_⟩
  rcases hcalling'.next hlaid hpoised hnext heffect' with hgoesOn | hreturns
  · exact absurd hsize (Nat.not_le_of_lt hgoesOn.size_lt)
  · exact hreturns

/-- A program with a call to the right of an operand. -/
def Program.difference : Program := ⟨.indented, "def f(x):\n return x\n1 - f(2)\n"⟩

/-- The code of `difference`. -/
def Code.difference : Code :=
  ⟨#[.push (.int 1), .push (.int 2), .call 0 1, .binary .sub, .pop, .halt, .load "x", .return,
    .push .null, .return], #[⟨"f", ["x"], 6⟩]⟩

/-- The operand and the argument lie on the stack, the function is entered, loads its argument and
returns it. -/
theorem Program.framed_call_difference :
    let g : Stage := ⟨.corridor, []⟩
    let caller : State := ⟨2, #[.int 1, .int 2], .empty, .empty, #[]⟩
    let inside (position : Nat) (stack : Array Value) : State :=
      ⟨position, stack, .empty, .empty, #[⟨⟨[("x", ⟨.int 2, false⟩)], []⟩, 3, 1⟩]⟩
    let resumed : State := ⟨3, #[.int 1, .int 2], .empty, .empty, #[]⟩
    Program.difference.code = .ok Code.difference ∧
      Steps Code.difference 1 2 .init g caller g ∧
      caller.next Code.difference 1 g.world = .ok (.none, inside 6 #[.int 1]) ∧
      StepsWithin Code.difference 1 0 (inside 6 #[.int 1]) g (inside 7 #[.int 1, .int 2]) g ∧
      caller.Framed 1 (inside 7 #[.int 1, .int 2]) ∧
      (inside 7 #[.int 1, .int 2]).next Code.difference 1 g.world = .ok (.none, resumed) ∧
      ∃ v, caller.Resumed 1 v resumed := by
  intro g caller inside resumed
  have hgoesOn : Effect.none ≠ .halt := by simp
  have hcode : Program.difference.code = .ok Code.difference := by cbv
  have hoperand : Steps Code.difference 1 1 .init g ⟨1, #[.int 1], .empty, .empty, #[]⟩ g :=
    .single rfl hgoesOn
  have hbefore : Steps Code.difference 1 2 .init g caller g :=
    hoperand.trans (.single rfl hgoesOn)
  have henter : caller.next Code.difference 1 g.world = .ok (.none, inside 6 #[.int 1]) := rfl
  have hload : (inside 6 #[.int 1]).next Code.difference 1 g.world =
      .ok (.none, inside 7 #[.int 1, .int 2]) := rfl
  have hwithin : StepsWithin Code.difference 1 0 (inside 6 #[.int 1]) g
      (inside 7 #[.int 1, .int 2]) g :=
    (StepsWithin.refl _ _ Nat.zero_lt_one).step hload hgoesOn Nat.zero_lt_one
  have hreturn : (inside 7 #[.int 1, .int 2]).next Code.difference 1 g.world =
      .ok (.none, resumed) := rfl
  obtain ⟨-, -, -, hframed⟩ := Program.framed_call hcode hbefore rfl henter
  obtain ⟨hkept, hends⟩ := hframed _ _ hwithin
  obtain ⟨-, v, -, hresumed⟩ := hends _ _ hreturn hgoesOn (Nat.le_refl 0)
  exact ⟨hcode, hbefore, henter, hwithin, hkept, hreturn, v, hresumed⟩

end Labyrinth
