import Labyrinth.Proofs.Language.Stream

/-!
# Heights of trees

The **height** of a tree is the number of statements and expressions on the longest way from its
root down to a leaf. Whoever goes through a tree by recursion goes that deep.

How high the results of a parser are follows from its parts. There is a rule for every way to put
parsers together; a chain of operators adds as many nodes to the height of its operands as it may
have operators.

## Main results

* `Expr.heights_le_iff`, `Stmt.heights_le_iff`: the height of several trees is that of the highest.
* `Parser.returns_chain`: how high a chain of operators is.
-/

namespace Labyrinth

/-! ### Expressions -/

mutual

/-- The number of nodes on the longest way from an expression down to a leaf. -/
def Expr.height : Expr → Nat
  | .literal _ => 1
  | .name _ => 1
  | .list items => Expr.heights items + 1
  | .emptySet => 1
  | .setOf source => source.height + 1
  | .emptyMap => 1
  | .mapOf source => source.height + 1
  | .unary _ operand => operand.height + 1
  | .binary _ lhs rhs => max lhs.height rhs.height + 1
  | .logical _ lhs rhs => max lhs.height rhs.height + 1
  | .call _ args => Expr.heights args + 1
  | .builtin _ args => Expr.heights args + 1
  | .capability _ args => Expr.heights args + 1
  | .method receiver _ args => max receiver.height (Expr.heights args) + 1
  | .index object i => max object.height i.height + 1
  | .attribute object _ => object.height + 1

/-- The height of the highest one of several expressions. -/
def Expr.heights : List Expr → Nat
  | [] => 0
  | e :: rest => max e.height (Expr.heights rest)

end

/-- The height of an expression if there is one. -/
def Expr.optionHeight (e : Option Expr) : Nat := e.elim 0 Expr.height

theorem Expr.heights_le_iff {n : Nat} {es : List Expr} :
    Expr.heights es ≤ n ↔ ∀ e ∈ es, e.height ≤ n := by
  induction es with
  | nil => simp [Expr.heights]
  | cons e rest ih => simp [Expr.heights, ih]

theorem Expr.heights_add_le {k n : Nat} {es : List Expr} (hk : k ≤ n)
    (h : ∀ e ∈ es, e.height + k ≤ n) : Expr.heights es + k ≤ n := by
  have hle : Expr.heights es ≤ n - k := Expr.heights_le_iff.2 fun e he =>
    Nat.le_sub_of_add_le (h e he)
  omega

/-! ### Statements -/

/-- The height of the expressions in a place that is assigned to. -/
def Target.height : Target → Nat
  | .name _ => 0
  | .index object i => max object.height i.height
  | .tuple _ => 0

mutual

/-- The number of nodes on the longest way from a statement down to a leaf. -/
def Stmt.height : Stmt → Nat
  | .comment _ => 1
  | .function _ _ body => Stmt.heights body + 1
  | .declare _ value _ => Expr.optionHeight value + 1
  | .assign target _ value => max target.height value.height + 1
  | .expr value => value.height + 1
  | .cond arms => arms.height + 1
  | .while condition body => max condition.height (Stmt.heights body) + 1
  | .forEach _ iterable body => max iterable.height (Stmt.heights body) + 1
  | .return value => Expr.optionHeight value + 1
  | .break => 1
  | .continue => 1
  | .throw _ message => message.height + 1

/-- The height of the highest one of several statements. -/
def Stmt.heights : List Stmt → Nat
  | [] => 0
  | stmt :: rest => max stmt.height (Stmt.heights rest)

/-- The height of the arms of a conditional statement, which are no nodes themselves. -/
def Arms.height : Arms → Nat
  | .done => 0
  | .otherwise body => Stmt.heights body
  | .arm condition body rest => max (max condition.height (Stmt.heights body)) rest.height

end

theorem Stmt.heights_le_iff {n : Nat} {stmts : List Stmt} :
    Stmt.heights stmts ≤ n ↔ ∀ stmt ∈ stmts, stmt.height ≤ n := by
  induction stmts with
  | nil => simp [Stmt.heights]
  | cons stmt rest ih => simp [Stmt.heights, ih]

theorem Stmt.heights_append_le {n : Nat} {xs ys : List Stmt} (hx : Stmt.heights xs ≤ n)
    (hy : Stmt.heights ys ≤ n) : Stmt.heights (xs ++ ys) ≤ n := by
  rw [Stmt.heights_le_iff] at hx hy ⊢
  exact List.forall_mem_append.2 ⟨hx, hy⟩

theorem Stmt.heights_flatten_le {n : Nat} {xss : List (List Stmt)}
    (h : ∀ xs ∈ xss, Stmt.heights xs ≤ n) : Stmt.heights xss.flatten ≤ n := by
  refine Stmt.heights_le_iff.2 fun stmt hstmt => ?_
  obtain ⟨xs, hxs, hmem⟩ := List.mem_flatten.1 hstmt
  exact Stmt.heights_le_iff.1 (h xs hxs) stmt hmem

theorem Stmt.heights_singleton (stmt : Stmt) : Stmt.heights [stmt] = stmt.height :=
  Nat.max_zero _

/-- A condition and the body that it guards are lower than `n`. -/
def GuardedBelow (n : Nat) (arm : Expr × List Stmt) : Prop :=
  arm.1.height < n ∧ Stmt.heights arm.2 < n

theorem Arms.height_ofList_lt {n : Nat} {arms : List (Expr × List Stmt)}
    {last : Option (List Stmt)} (hn : 0 < n) (harms : ∀ arm ∈ arms, GuardedBelow n arm)
    (hlast : ∀ body ∈ last, Stmt.heights body < n) : (Arms.ofList arms last).height < n := by
  induction arms with
  | nil =>
    cases last with
    | none => exact hn
    | some body => exact hlast body rfl
  | cons arm rest ih =>
    obtain ⟨⟨hcondition, hbody⟩, hrest⟩ := List.forall_mem_cons.1 harms
    exact Nat.max_lt.2 ⟨Nat.max_lt.2 ⟨hcondition, hbody⟩, ih hrest⟩

/-! ### Results of parsers -/

namespace Parser

variable {α β : Type} {p : Parser α} {f : α → Parser β} {P : α → Prop} {Q : β → Prop}

/-- Every result of the parser has a property. -/
def Returns (p : Parser α) (P : α → Prop) : Prop := ∀ s a s', p s = .ok (a, s') → P a

namespace Returns

theorem pure {a : α} (h : P a) : Returns (Pure.pure a) P := by
  rintro s _ s' ⟨⟩
  exact h

theorem bind (hp : Returns p P) (hf : ∀ a, P a → Returns (f a) Q) : Returns (p >>= f) Q := by
  intro s b s'' h
  obtain ⟨a, s', ha, hb⟩ := stateBind_eq_ok_iff.1 h
  exact hf a (hp s a s' ha) s' b s'' hb

/-- The result of a parser is that of its last part. -/
theorem after (hf : ∀ a, Returns (f a) Q) : Returns (p >>= f) Q :=
  bind (P := fun _ => True) (fun _ _ _ _ => trivial) fun a _ => hf a

theorem mono {P' : α → Prop} (hp : Returns p P) (h : ∀ a, P a → P' a) : Returns p P' :=
  fun s a s' hs => h a (hp s a s' hs)

theorem ite {c : Prop} [Decidable c] {q : Parser α} (hp : c → Returns p P)
    (hq : ¬c → Returns q P) : Returns (if c then p else q) P := by
  split
  · exact hp ‹_›
  · exact hq ‹_›

theorem lift {x : Except SyntaxError α} (h : ∀ a, x = .ok a → P a) :
    Returns (liftM x : Parser α) P := by
  intro s a s' hs
  obtain ⟨b, hb, hbs⟩ := bind_eq_ok_iff.1 hs
  cases hbs
  exact h a hb

end Returns

theorem returns_fail (cause : SyntaxCause) : Returns (fail cause) P := fun _ _ _ h => nomatch h

theorem returns_failAt (q : Position) (cause : SyntaxCause) : Returns (failAt q cause) P :=
  fun _ _ _ h => nomatch h

theorem returns_failFound (cause : TokenKind → SyntaxCause) : Returns (failFound cause) P :=
  fun _ _ _ h => nomatch h

/-- What comes after a descent is read with room for it. -/
theorem returns_descend {f : Unit → Parser β} {room : Nat}
    (h : ∀ k, room = k + 1 → Returns (f ()) Q) : Returns (descend room >>= f) Q := by
  cases room with
  | zero => exact .bind (P := fun _ => False) (returns_fail _) fun _ h => h.elim
  | succ k => exact .after fun _ => h k rfl

/-! ### Loops -/

theorem returns_collect {item : Parser (Next α)} (h : Returns item (Next.Forall P)) :
    Returns (collect item) fun as => ∀ a ∈ as, P a := by
  intro s as s' hs
  unfold collect at hs
  fun_induction collectFrom item s generalizing as s' with
  | case1 => cases hs
  | case2 s s₁ hitem =>
    cases hs
    exact fun a ha => absurd ha List.not_mem_nil
  | case3 s a s₁ hitem =>
    cases hs
    exact List.forall_mem_singleton.2 (h _ _ _ hitem)
  | case4 s a s₁ hitem _ ih =>
    obtain ⟨⟨bs, s₂⟩, hbs, hs⟩ := bind_eq_ok_iff.1 hs
    cases hs
    exact List.forall_mem_cons.2 ⟨h _ _ _ hitem, ih _ _ hbs⟩
  | case5 s a s₁ hitem _ =>
    cases hs
    exact List.forall_mem_singleton.2 (h _ _ _ hitem)

theorem returns_separated {item : Parser α} (close : String) (h : Returns item P) :
    Returns (separated close item) fun as => ∀ a ∈ as, P a := by
  refine .bind (returns_collect (P := P) ?_) fun as has => .after fun _ => .pure has
  refine .after fun _ => .ite (fun _ => .pure trivial) fun _ => .bind h fun a ha =>
    .after fun c => ?_
  cases c
  · exact .pure ha
  · exact .pure ha

/-! ### Chains -/

section Chains

variable {operator : Parser (Option β)} {operand : Nat → Parser Expr}
  {combine : β → Expr → Expr → Expr}
  (hcombine : ∀ op lhs rhs, (combine op lhs rhs).height ≤ max lhs.height rhs.height + 1)
include hcombine

theorem returns_chainRest {bound : Nat → Nat} (hmono : Monotone bound)
    (hoperand : ∀ room, Returns (operand room) fun e => e.height ≤ bound room) (room : Nat)
    {lhs : Expr} {n : Nat} (hlhs : lhs.height ≤ n) (hn : bound room ≤ n) :
    Returns (chainRest operator operand combine room lhs) fun e => e.height ≤ n + room := by
  induction room generalizing lhs n with
  | zero =>
    unfold chainRest
    refine .after fun op => ?_
    split
    · exact .pure hlhs
    · exact returns_fail _
  | succ room ih =>
    unfold chainRest
    refine .after fun op => ?_
    split
    · exact .pure (Nat.le_add_right_of_le hlhs)
    · rename_i op
      have hle : bound room ≤ n := (hmono (Nat.le_succ room)).trans hn
      refine .bind (hoperand room) fun rhs hrhs => ?_
      have hnode : (combine op lhs rhs).height ≤ n + 1 :=
        (hcombine op lhs rhs).trans (Nat.succ_le_succ (Nat.max_le.2 ⟨hlhs, hrhs.trans hle⟩))
      refine (ih hnode (Nat.le_succ_of_le hle)).mono fun e he => ?_
      omega

/-- A chain is higher than its operands by the number of operators that there is room for. -/
theorem returns_chain {bound : Nat → Nat} {chains : Nat} (hmono : Monotone bound)
    (hoperand : ∀ room, Returns (operand room) fun e => e.height ≤ bound room + chains * room)
    (room : Nat) : Returns (chain operator operand combine room) fun e =>
      e.height ≤ bound room + (chains + 1) * room := by
  have hmono' : Monotone fun room => bound room + chains * room :=
    hmono.add (monotone_id.const_mul' chains)
  refine .bind (hoperand room) fun lhs hlhs => ?_
  refine (returns_chainRest hcombine hmono' hoperand room hlhs (Nat.le_refl _)).mono fun e he => ?_
  rwa [Nat.succ_mul, ← Nat.add_assoc]

end Chains

theorem height_binary_le (op : BinaryOp) (lhs rhs : Expr) :
    (Expr.binary op lhs rhs).height ≤ max lhs.height rhs.height + 1 := by
  rw [Expr.height]

theorem height_logical_le (op : LogicalOp) (lhs rhs : Expr) :
    (Expr.logical op lhs rhs).height ≤ max lhs.height rhs.height + 1 := by
  rw [Expr.height]

theorem height_negate_le (e : Expr) : (negate e).height ≤ e.height + 1 := by
  unfold negate
  split
  · split <;> simp [Expr.height]
  · rw [Expr.height]

theorem run_returns {tokens : Except SyntaxError (List Token)} {a : α} (hp : Returns p P)
    (h : run p tokens = .ok a) : P a := by
  obtain ⟨ts, -, h⟩ := bind_eq_ok_iff.1 h
  obtain ⟨⟨b, s⟩, hb, h⟩ := bind_eq_ok_iff.1 h
  cases h
  exact hp _ _ _ hb

end Parser

end Labyrinth
