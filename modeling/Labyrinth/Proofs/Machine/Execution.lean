import Labyrinth.Proofs.Machine.Simulation

/-!
# The machine executes statements

The code of a statement follows its execution and goes on where the control flows: behind the
statement, at one of the targets of the loop around it, or at the caller of the function.

## Main results

* `Stmt.follows`: the code of a statement follows the statement.
* `followsCalls`: the code of a function follows the function.
-/

namespace Labyrinth

open Labyrinth.Action

namespace Context

/-- The context without its innermost iterator. -/
def drop (c : Context) : Context := { c with iterators := c.iterators.tail }

/-- The state of the caller after the innermost call has returned a value. -/
def Returned (c : Context) (v : Value) (scene : Scene) (st : State) : Prop :=
  ∃ caller, c.caller = some caller ∧
    st = ⟨caller.position, c.below.push v, scene.heap, ⟨scene.globals, caller.globalIterators⟩,
      caller.calls⟩

/-- Where the machine is after a statement that ends at `finish`. -/
def Left (c : Context) (loop : LoopTargets) (around : Surroundings) (finish : Nat) :
    Flow → Scene → State → Prop
  | .next => c.At finish c.below
  | .break => fun scene st => around.inLoop = true ∧
    (if loop.iterates then c.drop else c).At loop.exit c.below scene st
  | .continue => fun scene st => around.inLoop = true ∧ c.At loop.next c.below scene st
  | .return v => c.Returned v

/-! ### Instructions of statements -/

section Instructions

variable (code : Code) (maxCalls : Nat) (w : World) (c : Context) (p : Nat) (stack : Array Value)
  (scene : Scene)

theorem execute_jump (target : Nat) :
    (Instr.jump target).execute code maxCalls w (c.state p stack scene) =
      .ok (.none, c.state target stack scene) := c.jump_bind _ _ _ _ _

theorem execute_pop (v : Value) :
    Instr.pop.execute code maxCalls w (c.state p (stack.push v) scene) =
      .ok (.none, c.state p stack scene) := c.pop_bind _ _ _ _ _

theorem execute_iterDrop :
    Instr.iterDrop.execute code maxCalls w (c.state p stack scene) =
      .ok (.none, c.drop.state p stack scene) :=
  stateBind_of_ok (c.changeScope_iterators _ _ _ List.tail)

/-- The next element is pushed. -/
theorem execute_iterNext (exit : Nat) (v : Value) (values : List Value) :
    (Instr.iterNext exit).execute code maxCalls w
        ((c.iterate (v :: values)).state p stack scene) =
      .ok (.none, (c.iterate values).state p (stack.push v) scene) := by
  simp only [Instr.execute, next, bind_assoc, get_bind, state_iterators, iterators_iterate]
  have hscope := (c.iterate (v :: values)).changeScope_iterators p stack scene
    fun _ => values :: c.iterators
  exact (stateBind_of_ok hscope).trans ((c.iterate values).push_bind _ _ _ _ _)

/-- The iterator is dropped when no element is left. -/
theorem execute_iterNext_nil (exit : Nat) :
    (Instr.iterNext exit).execute code maxCalls w ((c.iterate []).state p stack scene) =
      .ok (.none, c.state exit stack scene) := by
  simp only [Instr.execute, next, bind_assoc, get_bind, state_iterators, iterators_iterate]
  have hscope := (c.iterate []).changeScope_iterators p stack scene List.tail
  exact (stateBind_of_ok hscope).trans (c.jump_bind _ _ _ _ _)

/-- A call is left. -/
theorem execute_return {caller : Caller} (h : c.caller = some caller) (v : Value) :
    Instr.return.execute code maxCalls w (c.state p (c.below.push v) scene) =
      .ok (.none, ⟨caller.position, c.below.push v, scene.heap,
        ⟨scene.globals, caller.globalIterators⟩, caller.calls⟩) := by
  simp only [Instr.execute, pop_bind]
  refine stateBind_of_ok (a := ()) ?_
  obtain ⟨below, iterators, _⟩ := c
  cases h
  simp [state, leave]

end Instructions

end Context

/-- An error is raised with the text of the value on top of the stack. -/
theorem Follows.throw {code : Code} {maxCalls fuel p : Nat} {c : Context} {rest : Array Value}
    {scene : Scene} {v : Value} {post : Flow → Scene → State → Prop}
    (h : code.instructions[p]? = some .throw) :
    Follows code maxCalls fuel (c.state p (rest.push v) scene) scene
      (do Eval.fail (.raised (← Eval.inspect fun h => .ok (h.display v)))) post := by
  refine .of_fault (Eval.bind_of_done rfl) rfl ?_
  rw [Context.next_state h]
  simp only [Instr.execute, c.pop_bind, get_bind, c.state_heap]
  rfl

section Patterns

variable {code : Code} {maxCalls fuel : Nat} {c : Context}

/-- One instruction for every name and the value on top of the stack. -/
theorem follows_forNames {act : String → Value → Eval Unit} {instr : String → Instr}
    (hact : ∀ (p : Nat) (x : String) (v : Value) (rest : Array Value) (scene : Scene),
      code.instructions[p]? = some (instr x) →
        Follows code maxCalls fuel (c.state p (rest.push v) scene) scene (act x v) fun _ =>
          c.At (p + 1) rest)
    {names : List String} {values : List Value} (hlength : values.length = names.length) {p : Nat}
    {rest : Array Value} {scene : Scene} (hcode : code.Holds p (names.map instr)) :
    Follows code maxCalls fuel (c.state p (rest ++ values.reverse.toArray) scene) scene
      (Eval.forNames act names values) fun _ => c.At (p + names.length) rest := by
  induction names generalizing values p scene with
  | nil =>
    rw [List.eq_nil_of_length_eq_zero hlength]
    exact .pure (by simp [Context.At])
  | cons x names ih =>
    cases values with
    | nil => cases hlength
    | cons v values =>
      have hpush : rest ++ (v :: values).reverse.toArray =
        (rest ++ values.reverse.toArray).push v := by
        simp
      rw [hpush]
      refine .bind (hact p x v _ scene hcode.head) ?_
      rintro _ scene' _ rfl
      refine .moved (ih (Nat.succ.inj hlength) hcode.tail) ?_
      simp [Nat.add_assoc, Nat.add_comm 1]

/-- The names of a pattern are bound to the value on top of the stack. -/
theorem Pattern.follows (constant : Bool) (v : Value) {p : Nat} {rest : Array Value}
    {scene : Scene} (pattern : Pattern) (hcode : code.Holds p (pattern.code constant)) :
    Follows code maxCalls fuel (c.state p (rest.push v) scene) scene
      (pattern.bind c.depth constant v) fun _ =>
        c.At (p + (pattern.code constant).length) rest := by
  cases pattern with
  | single x => exact .declare hcode.head
  | tuple names =>
    have hact : ∀ (p : Nat) (x : String) (v : Value) (rest : Array Value) (scene : Scene),
        code.instructions[p]? = some (.declare x constant) →
          Follows code maxCalls fuel (c.state p (rest.push v) scene) scene
            (Eval.declare c.depth constant x v) fun _ => c.At (p + 1) rest :=
      fun _ _ _ _ _ h => .declare h
    refine .bind (.unpack hcode.head) ?_
    rintro values scene' _ ⟨hlength, rfl⟩
    refine .moved (follows_forNames hact hlength hcode.tail) ?_
    simp [Pattern.code, Nat.add_assoc, Nat.add_comm 1]

end Patterns

/-- A postcondition may be stated for another name of the end. -/
theorem Follows.left {code : Code} {maxCalls fuel : Nat} {c : Context} {loop : LoopTargets}
    {around : Surroundings} {q q' : Nat} {st : State} {scene : Scene} {a : Eval Flow}
    (h : Follows code maxCalls fuel st scene a (c.Left loop around q)) (hq : q = q') :
    Follows code maxCalls fuel st scene a (c.Left loop around q') := hq ▸ h

/-- A statement that is followed by a jump. -/
theorem Follows.leaving {code : Code} {maxCalls fuel : Nat} {c : Context} {loop : LoopTargets}
    {around : Surroundings} {q q' exit : Nat} {st : State} {scene : Scene} {a : Eval Flow}
    (hjump : code.instructions[q']? = some (.jump exit))
    (h : Follows code maxCalls fuel st scene a (c.Left loop around q)) (hq : q = q') :
    Follows code maxCalls fuel st scene a (c.Left loop around exit) := by
  rw [← Eval.bind_pure a]
  refine .bind h fun flow scene' st' hst => ?_
  cases flow with
  | next =>
    obtain rfl := hst
    exact .silent_le (hq ▸ hjump) (c.execute_jump _ _ _ _ _ _ _) (.pure rfl)
  | «break» => exact .pure hst
  | «continue» => exact .pure hst
  | «return» v => exact .pure hst

/-! ### Loops -/

section Loops

variable {code : Code} {maxCalls fuel : Nat} {c : Context} {loop : LoopTargets}
  {around : Surroundings}

/-- The control goes on after a round of a loop: to the next round, or out of the loop. -/
theorem follows_afterRound (iterates : Bool) (c' : Context) {rounds head exit last : Nat}
    {scene : Scene} {st : State} {others : Eval Flow} {flow : Flow}
    (hback : code.instructions[last]? = some (.jump head))
    (hbelow : c'.below = c.below) (hcaller : c'.caller = c.caller)
    (hdrop : (if iterates then c'.drop else c') = c)
    (hothers : Follows code maxCalls rounds (c'.state head c.below scene) scene others
      (c.Left loop around exit))
    (hst : c'.Left ⟨head, exit, iterates⟩ around.loop last flow scene st) :
    Follows code maxCalls rounds st scene (Eval.afterRound flow others)
      (c.Left loop around exit) := by
  cases flow with
  | next =>
    obtain rfl : st = c'.state last c'.below scene := hst
    rw [hbelow]
    exact .silent_le hback (c'.execute_jump _ _ _ _ _ _ _) hothers
  | «continue» =>
    obtain ⟨-, rfl⟩ := hst
    rw [hbelow]
    exact hothers
  | «break» =>
    obtain ⟨-, hst⟩ := hst
    rw [hdrop, hbelow] at hst
    exact .pure hst
  | «return» v =>
    obtain ⟨caller, h, rfl⟩ := hst
    exact .pure ⟨caller, hcaller ▸ h, by rw [hbelow]⟩

/-- A loop that tests a condition. -/
theorem follows_repeatWhile {condition : Eval Value} {body : Eval Flow} {start q exit last : Nat}
    (hcondition : ∀ scene, Follows code maxCalls fuel (c.state start c.below scene) scene condition
      fun v => c.At q (c.below.push v))
    (hjump : code.instructions[q]? = some (.jumpIfFalse exit))
    (hbody : ∀ scene, Follows code maxCalls fuel (c.state (q + 1) c.below scene) scene body
      (c.Left ⟨start, exit, false⟩ around.loop last))
    (hback : code.instructions[last]? = some (.jump start)) {rounds : Nat} (hrounds : rounds ≤ fuel)
    {scene : Scene} :
    Follows code maxCalls rounds (c.state start c.below scene) scene
      (Eval.repeatWhile (condition >>= Eval.truth) body rounds) (c.Left loop around exit) := by
  induction rounds generalizing scene with
  | zero => exact .timeout
  | succ rounds ih =>
    have hless : rounds ≤ fuel := Nat.le_of_succ_le hrounds
    rw [Eval.repeatWhile, Eval.bind_assoc]
    refine .bind ((hcondition scene).mono hrounds fun _ _ _ h => h) ?_
    rintro v scene₁ _ rfl
    refine .branch hjump ?_ (.pure rfl)
    refine .bind ((hbody scene₁).mono hless fun _ _ _ h => h) fun flow scene₂ st hst => ?_
    exact follows_afterRound false c hback rfl rfl rfl (ih hless) hst

/-- A loop over several values. -/
theorem follows_forEach {bind : Value → Eval Unit} {body : Eval Flow} {head first exit last : Nat}
    (hnext : code.instructions[head]? = some (.iterNext exit))
    (hbind : ∀ v values scene, Follows code maxCalls fuel
      ((c.iterate values).state (head + 1) (c.below.push v) scene) scene (bind v)
      fun _ => (c.iterate values).At first c.below)
    (hbody : ∀ values scene, Follows code maxCalls fuel
      ((c.iterate values).state first c.below scene) scene body
      ((c.iterate values).Left ⟨head, exit, true⟩ around.loop last))
    (hback : code.instructions[last]? = some (.jump head)) {values : List Value} {scene : Scene} :
    Follows code maxCalls fuel ((c.iterate values).state head c.below scene) scene
      (Eval.forEach (fun v => do bind v; body) values) (c.Left loop around exit) := by
  induction values generalizing scene with
  | nil => exact .silent_le hnext (c.execute_iterNext_nil _ _ _ _ _ _ _) (.pure rfl)
  | cons v values ih =>
    refine .silent_le hnext (c.execute_iterNext _ _ _ _ _ _ _ _ _) ?_
    rw [Eval.forEach, Eval.bind_assoc]
    refine .bind (hbind v values scene) ?_
    rintro _ scene₁ _ rfl
    refine .bind (hbody values scene₁) fun flow scene₂ st hst => ?_
    exact follows_afterRound true (c.iterate values) hback rfl rfl rfl ih hst

end Loops

section Simulation

variable {code : Code} {maxCalls fuel : Nat} {definitions : List Definition}
  {names : List String} (hnames : names = definitions.map Definition.name)
  (hcalls : FollowsCalls code maxCalls definitions fuel)
include hnames hcalls

theorem Expr.followsOrNull {c : Context} {start : Nat} {stack : Array Value} {scene : Scene}
    (e : Option Expr) (hcode : code.Holds start (Expr.codeOrNull names start e)) :
    Follows code maxCalls fuel (c.state start stack scene) scene
      (Expr.evalOrNull (settingAt definitions maxCalls fuel c.depth) e)
      fun v => c.At (start + (Expr.codeOrNull names start e).length) (stack.push v) := by
  cases e with
  | none => exact .silent_le hcode.head (c.push_bind _ _ _ _ _) (.pure rfl)
  | some e => exact Expr.follows hnames hcalls e hcode

/-- The code of an assignment follows it. -/
theorem Target.follows {c : Context} {start : Nat} {stack : Array Value} {scene : Scene}
    (op : Option BinaryOp) (value : Expr) (target : Target)
    (hcode : code.Holds start (target.code names start op value)) :
    Follows code maxCalls fuel (c.state start stack scene) scene
      (target.assign (settingAt definitions maxCalls fuel c.depth) op value)
      fun _ => c.At (start + (target.code names start op value).length) stack := by
  cases target with
  | name x =>
    cases op with
    | none =>
      refine .bind (Expr.follows hnames hcalls value hcode.append.1) ?_
      rintro v scene' _ rfl
      exact .moved (.store hcode.last) (by simp [Target.code, Nat.add_assoc])
    | some op =>
      have hvalue := hcode.append.1.tail
      have hrest := hcode.append.2
      rw [List.length_cons, Nat.add_comm _ 1, ← Nat.add_assoc] at hrest
      refine .bind (.load hcode.append.1.head) ?_
      rintro old scene₁ _ rfl
      refine .bind (Expr.follows hnames hcalls value hvalue) ?_
      rintro v scene₂ _ rfl
      refine .bind (.binary hrest.head) ?_
      rintro new scene₃ _ rfl
      exact .moved (.store hrest.tail.head) (by simp [Target.code]; omega)
  | index object i =>
    cases op with
    | none =>
      have hplace := hcode.append.1.append.1.append
      have hvalue := hcode.append.1.append.2
      have hstore := hcode.last
      simp only [List.length_append, ← Nat.add_assoc] at hvalue hstore
      refine .bind (Expr.follows hnames hcalls object hplace.1) ?_
      rintro o scene₁ _ rfl
      refine .bind (Expr.follows hnames hcalls i hplace.2) ?_
      rintro k scene₂ _ rfl
      refine .bind (Expr.follows hnames hcalls value hvalue) ?_
      rintro v scene₃ _ rfl
      exact .moved (.storeIndex hstore) (by simp [Target.code, Nat.add_assoc])
    | some op =>
      have hplace := hcode.append.1.append.1.append.1.append
      have hpair := hcode.append.1.append.1.append.2
      have hvalue := hcode.append.1.append.2
      have hrest := hcode.append.2
      simp only [List.length_append, List.length_cons, List.length_nil, Nat.zero_add,
        ← Nat.add_assoc] at hpair hvalue hrest
      refine .bind (Expr.follows hnames hcalls object hplace.1) ?_
      rintro o scene₁ _ rfl
      refine .bind (Expr.follows hnames hcalls i hplace.2) ?_
      rintro k scene₂ _ rfl
      refine .silent_le hpair.head (c.duplicatePair_bind _ _ _ _ _ _)
        (.bind (.loadIndex hpair.tail.head) ?_)
      rintro old scene₃ _ rfl
      refine .bind (Expr.follows hnames hcalls value hvalue) ?_
      rintro v scene₄ _ rfl
      refine .bind (.binary hrest.head) ?_
      rintro new scene₅ _ rfl
      refine .moved (.storeIndex hrest.tail.head) ?_
      simp only [Target.code, List.length_append, List.length_cons, List.length_nil,
        Expr.length_code]
      omega
  | tuple xs =>
    have hact : ∀ (p : Nat) (x : String) (v : Value) (rest : Array Value) (scene : Scene),
        code.instructions[p]? = some (.store x) →
          Follows code maxCalls fuel (c.state p (rest.push v) scene) scene
            (Eval.store c.depth x v) fun _ => c.At (p + 1) rest :=
      fun _ _ _ _ _ h => .store h
    refine .bind (Expr.follows hnames hcalls value hcode.append.1) ?_
    rintro v scene₁ _ rfl
    refine .bind (.unpack hcode.append.2.head) ?_
    rintro values scene₂ _ ⟨hlength, rfl⟩
    refine .moved (follows_forNames hact hlength hcode.append.2.tail) ?_
    simp [Target.code, Nat.add_assoc, Nat.add_comm 1]

/-! ### Statements -/

mutual

/-- The code of a statement follows its execution. -/
theorem Stmt.follows {dialect : Dialect} {loop : LoopTargets} {around : Surroundings} {c : Context}
    {start : Nat} {scene : Scene} (hcaller : around.inFunction = true → c.caller.isSome = true) :
    (stmt : Stmt) → stmt.WellFormed dialect around → code.Holds start (stmt.code names loop start) →
      Follows code maxCalls fuel (c.state start c.below scene) scene
        (stmt.exec (settingAt definitions maxCalls fuel c.depth))
        (c.Left loop around (start + (stmt.code names loop start).length))
  | .comment _, _, _ => .pure rfl
  | .function .., _, _ => .pure rfl
  | .declare pattern value constant, _, hcode => by
    refine .bind (Expr.followsOrNull hnames hcalls value hcode.append.1) ?_
    rintro v scene₁ _ rfl
    refine .bind (pattern.follows constant v hcode.append.2) ?_
    rintro _ scene₂ _ rfl
    exact .pure (by simp [Context.Left, Context.At, Stmt.code, Nat.add_assoc])
  | .assign target op value, _, hcode => by
    refine .bind (Target.follows hnames hcalls op value target hcode) ?_
    rintro _ scene₁ _ rfl
    exact .pure rfl
  | .expr value, _, hcode => by
    refine .bind (Expr.follows hnames hcalls value hcode.append.1) ?_
    rintro v scene₁ _ rfl
    refine .silent_le hcode.last (c.execute_pop _ _ _ _ _ _ _) (.pure ?_)
    simp [Context.Left, Context.At, Stmt.code, Nat.add_assoc]
  | .cond arms, hwf, hcode => by
    rw [Stmt.length_code]
    exact Arms.follows hcaller arms hwf.2 hcode rfl
  | .while condition body, hwf, hcode => by
    have hbody := hcode.append.1.append.2.tail
    have hinside : around.loop.inFunction = true → c.caller.isSome = true := hcaller
    have hexit :
        start + (condition.code names start).length + 1 + Stmt.widths names false body + 1 =
          start + ((Stmt.while condition body).code names loop start).length := by
      simp only [Stmt.length_code, Stmt.width, Expr.length_code]
      omega
    rw [← hexit]
    refine follows_repeatWhile
      (fun scene => Expr.follows hnames hcalls condition hcode.append.1.append.1)
      hcode.append.1.append.2.head (fun scene => ?_) hcode.last (Nat.le_refl _)
    refine .left (Stmt.allFollows hinside body hwf.2 hbody) ?_
    simp only [List.length_append, List.length_cons]
    omega
  | .forEach pattern iterable body, hwf, hcode => by
    have hinside : around.loop.inFunction = true → c.caller.isSome = true := hcaller
    have hstart := hcode.append.1.append.1.append.2
    have hbody := hcode.append.1.append.2
    have hlength : start + (iterable.code names start ++ .iterStart ::
        .iterNext (start + (iterable.code names start).length + 1 + 1 +
          (pattern.code false).length + Stmt.widths names true body + 1) ::
            pattern.code false).length =
        start + (iterable.code names start).length + 1 + 1 + (pattern.code false).length := by
      simp only [List.length_append, List.length_cons]
      omega
    have hexit : start + (iterable.code names start).length + 1 + 1 + (pattern.code false).length +
        Stmt.widths names true body + 1 =
          start + ((Stmt.forEach pattern iterable body).code names loop start).length := by
      simp only [Stmt.length_code, Stmt.width, Expr.length_code]
      omega
    rw [hlength] at hbody
    rw [← hexit]
    refine .bind (Expr.follows hnames hcalls iterable hcode.append.1.append.1.append.1) ?_
    rintro v scene₁ _ rfl
    refine .bind (.iterStart hstart.head) ?_
    rintro values scene₂ _ rfl
    refine follows_forEach hstart.tail.head
      (fun v values scene => pattern.follows false v hstart.tail.tail) (fun values scene => ?_)
      hcode.last
    refine .left (Stmt.allFollows (c := c.iterate values) hinside body hwf.2.2 hbody) ?_
    simp only [List.length_append, List.length_cons]
    omega
  | .return value, hwf, hcode => by
    obtain ⟨caller, h⟩ := Option.isSome_iff_exists.1 (hcaller hwf.1)
    refine .bind (Expr.followsOrNull hnames hcalls value hcode.append.1) ?_
    rintro v scene₁ _ rfl
    exact .silent_le hcode.last (c.execute_return _ _ _ _ _ h v) (.pure ⟨caller, h, rfl⟩)
  | .break, hwf, hcode => by
    obtain ⟨next, exit, iterates⟩ := loop
    cases iterates with
    | false => exact .silent_le hcode.head (c.execute_jump _ _ _ _ _ _ _) (.pure ⟨hwf, rfl⟩)
    | true =>
      refine .silent_le hcode.head (c.execute_iterDrop _ _ _ _ _ _) ?_
      exact .silent_le hcode.tail.head (c.drop.execute_jump _ _ _ _ _ _ _) (.pure ⟨hwf, rfl⟩)
  | .continue, hwf, hcode =>
    .silent_le hcode.head (c.execute_jump _ _ _ _ _ _ _) (.pure ⟨hwf, rfl⟩)
  | .throw _ message, _, hcode => by
    refine .bind (Expr.follows hnames hcalls message hcode.append.1) ?_
    rintro v scene₁ _ rfl
    exact .throw hcode.last

/-- The code of several statements follows their execution. -/
theorem Stmt.allFollows {dialect : Dialect} {loop : LoopTargets} {around : Surroundings}
    {c : Context} {start : Nat} {scene : Scene}
    (hcaller : around.inFunction = true → c.caller.isSome = true) :
    (stmts : List Stmt) → Stmt.AllWellFormed dialect around stmts →
      code.Holds start (Stmt.codes names loop start stmts) →
        Follows code maxCalls fuel (c.state start c.below scene) scene
          (Stmt.execAll (settingAt definitions maxCalls fuel c.depth) stmts)
          (c.Left loop around (start + (Stmt.codes names loop start stmts).length))
  | [], _, _ => .pure rfl
  | stmt :: rest, hwf, hcode => by
    refine .bind (Stmt.follows hcaller stmt hwf.1 hcode.append.1) fun flow scene₁ st hst => ?_
    cases flow with
    | next =>
      obtain rfl := hst
      refine .left (Stmt.allFollows hcaller rest hwf.2 hcode.append.2) ?_
      simp [Stmt.codes, Nat.add_assoc]
    | «break» => exact .pure hst
    | «continue» => exact .pure hst
    | «return» v => exact .pure hst

/-- The code of the arms of a conditional statement follows the first arm whose condition holds. -/
theorem Arms.follows {dialect : Dialect} {loop : LoopTargets} {around : Surroundings} {c : Context}
    {exit start : Nat} {scene : Scene}
    (hcaller : around.inFunction = true → c.caller.isSome = true) :
    (arms : Arms) → arms.WellFormed dialect around →
      code.Holds start (arms.code names loop exit start) →
        exit = start + arms.width names loop.iterates →
          Follows code maxCalls fuel (c.state start c.below scene) scene
            (arms.exec (settingAt definitions maxCalls fuel c.depth)) (c.Left loop around exit)
  | .done, _, _, hexit => .pure (hexit ▸ rfl)
  | .otherwise body, hwf, hcode, hexit => by
    rw [hexit, Arms.width, ← Stmt.length_codes names loop start]
    exact Stmt.allFollows hcaller body hwf hcode
  | .arm condition body rest, hwf, hcode, hexit => by
    have hbody := hcode.append.1.append.2.tail
    have hjump := hcode.append.2.head
    have hrest := hcode.append.2.tail
    have hnext : start + (condition.code names start).length + 1 + (Stmt.codes names loop
        (start + (condition.code names start).length + 1) body).length + 1 =
          start + (condition.code names start ++
            .jumpIfFalse (start + (condition.code names start).length + 1 + (Stmt.codes names loop
              (start + (condition.code names start).length + 1) body).length + 1) ::
            Stmt.codes names loop
              (start + (condition.code names start).length + 1) body).length + 1 := by
      simp only [List.length_append, List.length_cons]
      omega
    rw [← hnext] at hrest
    refine .bind (Expr.follows hnames hcalls condition hcode.append.1.append.1) ?_
    rintro v scene₁ _ rfl
    refine .branch_le hcode.append.1.append.2.head ?_ ?_
    · refine .leaving hjump (Stmt.allFollows hcaller body hwf.2.1 hbody) ?_
      simp only [List.length_append, List.length_cons]
      omega
    · refine Arms.follows hcaller rest hwf.2.2 hrest ?_
      simp only [hexit, Arms.width, Expr.length_code, Stmt.length_codes]
      omega

end

end Simulation

end Labyrinth
