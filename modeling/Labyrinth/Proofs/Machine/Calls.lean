import Labyrinth.Proofs.Machine.Execution
import Labyrinth.Proofs.Machine.ProgramLayout

/-!
# The machine calls functions

A call of a function is followed by a call in the code, whose context lies on top of that of its
caller. The induction is on the fuel, which bounds how many calls lie in each other.

## Main results

* `followsCalls`: the code of a program follows the calls of its functions.
* `Stmt.follows_top`: the code of a program follows its top level.
-/

namespace Labyrinth

/-! ### Contexts of calls -/

/-- The context of a call after which its caller goes on at a position. -/
def Context.callee (c : Context) (position : Nat) (stack : Array Value) (scene : Scene) : Context :=
  ⟨stack, [], some ⟨position, (c.state position stack scene).calls,
    (c.state position stack scene).globals.iterators⟩⟩

section Callee

variable (c : Context) (p : Nat) (stack : Array Value) (scene : Scene)

theorem Context.depth_callee : (c.callee p stack scene).depth = c.depth + 1 :=
  congrArg (· + 1) (c.state_calls_size p stack scene)

theorem Scope.iterators_bindParams (s : Scope) (params : List String) (args : List Value) :
    (s.bindParams params args).iterators = s.iterators := by
  fun_induction Scope.bindParams s params args with
  | case1 s p ps v vs ih => exact ih
  | case2 => rfl

/-- A function is entered, unless the arguments do not fit or too many calls are in progress. -/
theorem Context.execute_call {code : Code} {f : FunctionEntry} {i : Nat} (args : List Value)
    (hf : code.functions[i]? = some f) (maxCalls : Nat) (w : World) :
    (Instr.call i args.length).execute code maxCalls w (c.state p (stack ++ args.toArray) scene) =
      if f.params.length ≠ args.length then
        .error (.arity f.name (.exactly f.params.length) args.length)
      else if maxCalls ≤ c.depth then .error .recursionDepth
      else .ok (.none, (c.callee p stack scene).state f.entry stack
        { scene with locals := (Scope.empty.bindParams f.params args).bindings }) := by
  simp only [Instr.execute, Action.call, hf]
  by_cases hlength : f.params.length ≠ args.length
  · rw [if_pos hlength, if_pos hlength]
    rfl
  rw [if_neg hlength, if_neg hlength, bind_assoc, get_bind, c.state_calls_size]
  by_cases hdepth : maxCalls ≤ c.depth
  · rw [if_pos hdepth, if_pos hdepth]
    rfl
  rw [if_neg hdepth, if_neg hdepth, bind_assoc, c.popMany_bind]
  have hscope : Scope.empty.bindParams f.params args =
      ⟨(Scope.empty.bindParams f.params args).bindings, []⟩ :=
    congrArg (Scope.mk _) (Scope.empty.iterators_bindParams f.params args)
  refine stateBind_of_ok (a := ()) ?_
  obtain ⟨below, iterators, _ | caller⟩ := c
  · simp only [state, callee, Action.enter, ← hscope]
  · simp only [state, callee, Action.enter, ← hscope]

/-- The state after a call has returned a value. -/
theorem Context.state_of_returned_callee {inner : Scene} {st : State} {v : Value}
    (h : (c.callee p stack scene).Returned v inner st) :
    st = c.state p (stack.push v) { inner with locals := scene.locals } := by
  obtain ⟨caller, hcaller, rfl⟩ := h
  cases hcaller
  obtain ⟨below, iterators, _ | caller⟩ := c <;> rfl

end Callee

/-- An evaluation in a new innermost scope. -/
theorem Follows.inCall {code : Code} {maxCalls fuel : Nat} {α : Type} {a : Eval α} {st : State}
    {scene : Scene} {locals : Bindings} {post post' : α → Scene → State → Prop}
    (h : Follows code maxCalls fuel st { scene with locals := locals } a post)
    (hpost : ∀ v inner st', post v inner st' → post' v { inner with locals := scene.locals } st') :
    Follows code maxCalls fuel st scene (Eval.inCall locals a) post' := by
  unfold Follows at h ⊢
  cases ha : a { scene with locals := locals } with
  | done v inner =>
    rw [ha] at h
    obtain ⟨n, st', hsteps, hv⟩ := h
    simp only [Eval.inCall, ha]
    exact ⟨n, st', hsteps, hpost v inner st' hv⟩
  | fault f inner =>
    rw [ha] at h
    simp only [Eval.inCall, ha]
    exact h
  | timeout =>
    rw [ha] at h
    simp only [Eval.inCall, ha]
    exact h

/-! ### Functions -/

/-- The table of the code leads to the code of every function. -/
def Code.Defines (code : Code) (definitions : List Definition) : Prop :=
  ∀ (i : Nat) (d : Definition), definitions[i]? = some d →
    ∃ entry, code.functions[i]? = some ⟨d.name, d.params, entry⟩ ∧
      code.Holds entry (d.code (definitions.map Definition.name) entry)

section Functions

variable {code : Code} {maxCalls : Nat} {definitions : List Definition}

/-- The code of a function follows its body and returns what the body yields. -/
theorem Definition.follows {fuel : Nat} (hcalls : FollowsCalls code maxCalls definitions fuel)
    {d : Definition} {dialect : Dialect} (hwf : Stmt.AllWellFormed dialect .function d.body)
    {entry : Nat} (hcode : code.Holds entry (d.code (definitions.map Definition.name) entry))
    {c : Context} (hcaller : c.caller.isSome = true) {scene : Scene} :
    Follows code maxCalls fuel (c.state entry c.below scene) scene
      (do
        let flow ← Stmt.execAll (settingAt definitions maxCalls fuel c.depth) d.body
        return flow.result) c.Returned := by
  obtain ⟨caller, h⟩ := Option.isSome_iff_exists.1 hcaller
  refine .bind (Stmt.allFollows rfl hcalls (fun _ => hcaller) d.body hwf hcode.append.1)
    fun flow scene' st hst => ?_
  cases flow with
  | next =>
    obtain rfl := hst
    refine .silent_le hcode.append.2.head (c.push_bind _ _ _ _ _) ?_
    exact .silent_le hcode.append.2.tail.head (c.execute_return _ _ _ _ _ h _)
      (.pure ⟨caller, h, rfl⟩)
  | «break» => cases hst.1
  | «continue» => cases hst.1
  | «return» v => exact .pure hst

/-- The code of a program follows the calls of its functions. -/
theorem followsCalls (hdefines : code.Defines definitions) {dialect : Dialect}
    (hwf : ∀ d ∈ definitions, Stmt.AllWellFormed dialect .function d.body) (fuel : Nat) :
    FollowsCalls code maxCalls definitions fuel := by
  induction fuel with
  | zero => exact fun _ _ _ _ _ _ _ _ _ => .timeout
  | succ fuel ih =>
    intro c p stack scene i d args hd hcall
    obtain ⟨entry, hf, hholds⟩ := hdefines i d hd
    have hexec := c.execute_call (p + 1) stack scene args hf maxCalls scene.stage.world
    have hnext := Context.next_state hcall maxCalls c (stack ++ args.toArray) scene
      scene.stage.world
    rw [callAt]
    by_cases hlength : d.params.length ≠ args.length
    · rw [if_pos hlength] at hexec ⊢
      exact .fail (hnext.trans hexec)
    rw [if_neg hlength] at hexec ⊢
    by_cases hdepth : maxCalls ≤ c.depth
    · rw [if_pos hdepth] at hexec ⊢
      exact .fail (hnext.trans hexec)
    rw [if_neg hdepth] at hexec ⊢
    rw [← c.depth_callee (p + 1) stack scene]
    refine .silent hcall hexec (.inCall (Definition.follows ih (hwf d ?_) hholds rfl) ?_)
    · exact List.mem_of_getElem? hd
    · exact fun v inner st' => c.state_of_returned_callee (p + 1) stack scene

end Functions

/-! ### Programs -/

theorem Definition.defines_codes {names : List String} {code : Code} {definitions : List Definition}
    {start i : Nat} {d : Definition}
    (hholds : code.Holds start (Definition.codes names start definitions).1)
    (hd : definitions[i]? = some d) :
    ∃ entry, (Definition.codes names start definitions).2[i]? = some ⟨d.name, d.params, entry⟩ ∧
      code.Holds entry (d.code names entry) := by
  induction definitions generalizing start i with
  | nil => simp at hd
  | cons first rest ih =>
    cases i with
    | zero =>
      cases hd
      exact ⟨start, rfl, hholds.append.1⟩
    | succ i => exact ih hholds.append.2 hd

theorem holds_lower (program : List Stmt) :
    (lower program).Holds 0 (lower program).instructions.toList := by
  intro i instr h
  rwa [Nat.zero_add, ← Array.getElem?_toList]

theorem defines_lower (program : List Stmt) :
    (lower program).Defines (Stmt.allDefinitions program) := by
  intro i d hd
  have hholds := (holds_lower program).append.2
  rw [Nat.zero_add] at hholds
  obtain ⟨entry, hentry, hcode⟩ := Definition.defines_codes hholds hd
  exact ⟨entry, by simpa [lower] using hentry, hcode⟩

/-- The code of a program follows its top level, and halts behind it. -/
theorem Stmt.follows_top {dialect : Dialect} {program : List Stmt}
    (hwf : Stmt.AllWellFormed dialect .top program) (maxCalls fuel : Nat) (w : World) :
    Follows (lower program) maxCalls fuel .init (.init w)
      (Stmt.execAll (settingAt (Stmt.allDefinitions program) maxCalls fuel 0) program)
      fun _ scene st =>
        ∃ st', st.next (lower program) maxCalls scene.stage.world = .ok (.halt, st') := by
  let c : Context := ⟨#[], [], none⟩
  have hcalls : FollowsCalls (lower program) maxCalls (Stmt.allDefinitions program) fuel :=
    followsCalls (defines_lower program) (Stmt.wellFormed_allDefinitions program hwf) fuel
  have hcode := (holds_lower program).append.1
  have hcaller : Surroundings.top.inFunction = true → c.caller.isSome = true := by rintro ⟨⟩
  refine (Stmt.allFollows rfl hcalls hcaller program hwf hcode.append.1).mono (Nat.le_refl _) ?_
  intro flow scene st hst
  cases flow with
  | next =>
    obtain rfl := hst
    exact ⟨_, Context.next_state hcode.last maxCalls c c.below scene _⟩
  | «break» => cases hst.1
  | «continue» => cases hst.1
  | «return» v =>
    obtain ⟨caller, h, -⟩ := hst
    cases h

end Labyrinth
