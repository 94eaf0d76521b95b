import Labyrinth.Machine.Lowering
import Labyrinth.Proofs.Language.WellFormed

/-!
# What parsers guarantee

A parser that is begun on a stream of well-formed tokens leaves such a stream behind. `Keeps`
says that every result of a parser has a certain property, and that the parser defines no
functions; `Defines` also keeps account of the **functions** whose definitions are part of the
result, and whose names differ from those of all functions defined before.

There is a rule for every way to put parsers together, so that the guarantees of a grammar follow
the text of its rules.

## Main results

* `Defines.bind`, `Keeps.bind`: parsers in sequence.
* `keeps_collect`, `defines_collect`, `keeps_fold`, `keeps_chain`: loops and chains of operators.
-/

namespace Labyrinth

/-- A stream of well-formed tokens after the functions `D` have been defined. -/
structure TokenStream.Holds (D : List String) (s : TokenStream) : Prop where
  lexical : LexicalTokens (s.current :: s.rest)
  defined : s.defined = D
  distinct : D.Nodup

/-! ### The functions of a program -/

/-- The names of the functions defined in several statements. -/
def Stmt.functionNames (stmts : List Stmt) : List String :=
  (Stmt.allDefinitions stmts).map Definition.name

namespace Stmt

@[simp]
theorem functionNames_nil : functionNames [] = [] := rfl

theorem functionNames_append (xs ys : List Stmt) :
    functionNames (xs ++ ys) = functionNames xs ++ functionNames ys := by
  simp [functionNames, allDefinitions_append]

theorem functionNames_flatten (xss : List (List Stmt)) :
    functionNames xss.flatten = xss.flatMap functionNames := by
  induction xss with
  | nil => rfl
  | cons xs xss ih => rw [List.flatten_cons, functionNames_append, ih, List.flatMap_cons]

theorem functionNames_function (f : String) (params : List String) (body : List Stmt) :
    functionNames [.function f params body] = f :: functionNames body := by
  simp [functionNames, allDefinitions, definitions]

theorem functionNames_while (condition : Expr) (body : List Stmt) :
    functionNames [.while condition body] = functionNames body := by
  simp [functionNames, allDefinitions, definitions]

theorem functionNames_forEach (pattern : Pattern) (iterable : Expr) (body : List Stmt) :
    functionNames [.forEach pattern iterable body] = functionNames body := by
  simp [functionNames, allDefinitions, definitions]

theorem allWellFormed_append {d : Dialect} {around : Surroundings} {xs ys : List Stmt}
    (hx : AllWellFormed d around xs) (hy : AllWellFormed d around ys) :
    AllWellFormed d around (xs ++ ys) := by
  simp only [allWellFormed_iff, List.forall_mem_append] at hx hy ⊢
  exact ⟨hx, hy⟩

theorem allWellFormed_flatten {d : Dialect} {around : Surroundings} {xss : List (List Stmt)}
    (h : ∀ xs ∈ xss, AllWellFormed d around xs) : AllWellFormed d around xss.flatten := by
  simp only [allWellFormed_iff] at h ⊢
  intro stmt hstmt
  obtain ⟨xs, hxs, hmem⟩ := List.mem_flatten.1 hstmt
  exact h xs hxs stmt hmem

theorem functionNames_cond (arms : List (Expr × List Stmt)) (last : Option (List Stmt)) :
    functionNames [.cond (Arms.ofList arms last)] =
      (arms.flatMap fun arm => functionNames arm.2) ++ functionNames (last.getD []) := by
  simp only [functionNames, allDefinitions, definitions, List.append_nil]
  induction arms with
  | nil => cases last <;> rfl
  | cons arm arms ih =>
    obtain ⟨condition, body⟩ := arm
    simp [Arms.ofList, Arms.definitions, ih]

end Stmt

/-- The result of a round of a loop, if there is one, has the property `P`. -/
def Next.Forall {α : Type} (P : α → Prop) : Next α → Prop
  | .stop => True
  | .last a => P a
  | .more a => P a

/-- The functions defined in a round of a loop. -/
def Next.names {α : Type} (names : α → List String) : Next α → List String
  | .stop => []
  | .last a => names a
  | .more a => names a

namespace Parser

variable {α β : Type}

/-- Every result of the parser is related by `Q` to the names of the functions defined in it. -/
def Defines (p : Parser α) (Q : α → List String → Prop) : Prop :=
  ∀ D s a s', s.Holds D → p s = .ok (a, s') → ∃ names, Q a names ∧ s'.Holds (names.reverse ++ D)

/-- Every result of the parser has the property `P`, and no function is defined in it. -/
def Keeps (p : Parser α) (P : α → Prop) : Prop :=
  ∀ D s a s', s.Holds D → p s = .ok (a, s') → P a ∧ s'.Holds D

/-! ### Sequences -/

namespace Keeps

variable {p : Parser α} {f : α → Parser β} {P : α → Prop} {Q : β → Prop}

theorem pure {a : α} (h : P a) : Keeps (Pure.pure a) P := by
  intro D s b s' hs heq
  cases heq
  exact ⟨h, hs⟩

theorem bind (hp : Keeps p P) (hf : ∀ a, P a → Keeps (f a) Q) : Keeps (p >>= f) Q := by
  intro D s b s'' hs heq
  obtain ⟨a, s', ha, hb⟩ := stateBind_eq_ok_iff.1 heq
  obtain ⟨hPa, hs'⟩ := hp D s a s' hs ha
  exact hf a hPa D s' b s'' hs' hb

theorem mono {P' : α → Prop} (hp : Keeps p P) (h : ∀ a, P a → P' a) : Keeps p P' := by
  intro D s a s' hs heq
  obtain ⟨hPa, hs'⟩ := hp D s a s' hs heq
  exact ⟨h a hPa, hs'⟩

theorem ite {c : Prop} [Decidable c] {p q : Parser α} (hp : c → Keeps p P)
    (hq : ¬c → Keeps q P) : Keeps (if c then p else q) P := by
  split
  · exact hp ‹_›
  · exact hq ‹_›

theorem lift {x : Except SyntaxError α} (h : ∀ a, x = .ok a → P a) :
    Keeps (liftM x : Parser α) P := by
  intro D s a s' hs heq
  obtain ⟨b, hb, hbs⟩ := bind_eq_ok_iff.1 heq
  cases hbs
  exact ⟨h a hb, hs⟩

end Keeps

namespace Defines

variable {p : Parser α} {f : α → Parser β} {Q : α → List String → Prop}
  {R : β → List String → Prop}

theorem of_keeps {P : α → Prop} (hp : Keeps p P) (h : ∀ a, P a → Q a []) : Defines p Q := by
  intro D s a s' hs heq
  obtain ⟨hPa, hs'⟩ := hp D s a s' hs heq
  exact ⟨[], h a hPa, hs'⟩

theorem pure {a : α} (h : Q a []) : Defines (Pure.pure a) Q :=
  of_keeps (.pure (P := fun b => b = a) rfl) fun _ hb => hb ▸ h

theorem bind (hp : Defines p Q)
    (hf : ∀ a xs, Q a xs → Defines (f a) fun b ys => R b (xs ++ ys)) : Defines (p >>= f) R := by
  intro D s b s'' hs heq
  obtain ⟨a, s', ha, hb⟩ := stateBind_eq_ok_iff.1 heq
  obtain ⟨xs, hxs, hs'⟩ := hp D s a s' hs ha
  obtain ⟨ys, hys, hs''⟩ := hf a xs hxs _ s' b s'' hs' hb
  refine ⟨xs ++ ys, hys, ?_⟩
  rw [List.reverse_append, List.append_assoc]
  exact hs''

/-- A parser that defines no functions before one that may. -/
theorem after {P : α → Prop} (hp : Keeps p P) (hf : ∀ a, P a → Defines (f a) R) :
    Defines (p >>= f) R := by
  intro D s b s'' hs heq
  obtain ⟨a, s', ha, hb⟩ := stateBind_eq_ok_iff.1 heq
  obtain ⟨hPa, hs'⟩ := hp D s a s' hs ha
  exact hf a hPa D s' b s'' hs' hb

/-- A parser whose result is put into a larger one. -/
theorem map {g : α → β} (hp : Defines p Q) (h : ∀ a xs, Q a xs → R (g a) xs) :
    Defines (p >>= fun a => Pure.pure (g a)) R := by
  refine bind hp fun a xs hxs => pure ?_
  rw [List.append_nil]
  exact h a xs hxs

theorem mono {Q' : α → List String → Prop} (hp : Defines p Q) (h : ∀ a xs, Q a xs → Q' a xs) :
    Defines p Q' := by
  intro D s a s' hs heq
  obtain ⟨xs, hxs, hs'⟩ := hp D s a s' hs heq
  exact ⟨xs, h a xs hxs, hs'⟩

/-- A property of the results that does not depend on the functions. -/
theorem and {P : α → Prop} (hp : Defines p Q) (h : ∀ s a s', p s = .ok (a, s') → P a) :
    Defines p fun a xs => P a ∧ Q a xs := by
  intro D s a s' hs heq
  obtain ⟨xs, hxs, hs'⟩ := hp D s a s' hs heq
  exact ⟨xs, ⟨h s a s' heq, hxs⟩, hs'⟩

theorem ite {c : Prop} [Decidable c] {p q : Parser α} (hp : c → Defines p Q)
    (hq : ¬c → Defines q Q) : Defines (if c then p else q) Q := by
  split
  · exact hp ‹_›
  · exact hq ‹_›

end Defines

/-! ### Single tokens -/

theorem holds_advance {D : List String} {s : TokenStream} (h : s.Holds D) : s.advance.Holds D := by
  obtain ⟨hlex, hdef, hnodup⟩ := h
  unfold TokenStream.advance
  split
  · exact ⟨hlex, hdef, hnodup⟩
  · rename_i t ts hrest
    refine ⟨fun u hu => hlex u ?_, hdef, hnodup⟩
    rw [hrest]
    exact List.mem_cons_of_mem _ hu

theorem keeps_peek : Keeps peek TokenKind.Lexical := by
  intro D s k s' hs h
  cases h
  exact ⟨hs.lexical _ List.mem_cons_self, hs⟩

theorem keeps_peekSecond : Keeps peekSecond fun _ => True := by
  intro D s k s' hs h
  cases h
  exact ⟨trivial, hs⟩

theorem keeps_position : Keeps position fun _ => True := by
  intro D s p s' hs h
  cases h
  exact ⟨trivial, hs⟩

theorem keeps_advance : Keeps advance fun _ => True := by
  intro D s u s' hs h
  cases h
  exact ⟨trivial, holds_advance hs⟩

theorem keeps_check (kind : TokenKind) : Keeps (check kind) fun _ => True := by
  intro D s b s' hs h
  cases h
  exact ⟨trivial, hs⟩

theorem keeps_fail {Q : α → Prop} (cause : SyntaxCause) : Keeps (fail cause) Q :=
  fun _ _ _ _ _ h => nomatch h

theorem defines_fail {Q : α → List String → Prop} (cause : SyntaxCause) :
    Defines (fail cause) Q := fun _ _ _ _ _ h => nomatch h

theorem defines_failFound {Q : α → List String → Prop} (cause : TokenKind → SyntaxCause) :
    Defines (failFound cause) Q := fun _ _ _ _ _ h => nomatch h

theorem keeps_failAt {Q : α → Prop} (p : Position) (cause : SyntaxCause) :
    Keeps (failAt p cause) Q := fun _ _ _ _ _ h => nomatch h

theorem keeps_failFound {Q : α → Prop} (cause : TokenKind → SyntaxCause) :
    Keeps (failFound cause) Q := fun _ _ _ _ _ h => nomatch h

theorem keeps_eat (kind : TokenKind) : Keeps (eat kind) fun _ => True := by
  unfold eat
  refine .bind (keeps_check kind) fun b _ => .ite (fun _ => ?_) fun _ => .pure trivial
  exact .bind keeps_advance fun _ _ => .pure trivial

theorem keeps_expectOp (spelling : String) : Keeps (expectOp spelling) fun _ => True := by
  unfold expectOp
  refine .bind (keeps_eat _) fun b _ => .ite (fun _ => .pure trivial) fun _ => ?_
  exact keeps_failFound _

theorem keeps_expectWord (word : String) : Keeps (expectWord word) fun _ => True := by
  unfold expectWord
  refine .bind (keeps_eat _) fun b _ => .ite (fun _ => .pure trivial) fun _ => ?_
  exact keeps_failFound _

theorem keeps_identifier (keywords : List String) : Keeps (identifier keywords) IsName := by
  unfold identifier
  refine .bind keeps_peek fun k hk => ?_
  split
  · refine .ite (fun _ => keeps_failFound _) fun _ => ?_
    exact .bind keeps_advance fun _ _ => .pure hk
  · exact keeps_failFound _

theorem keeps_descend (room : Nat) : Keeps (descend room) fun _ => True := by
  unfold descend
  exact .ite (fun _ => keeps_fail _) fun _ => .pure trivial

theorem keeps_oneOf (operators : List (String × β)) :
    Keeps (oneOf operators) fun op => ∀ b, op = some b → ∃ spelling, (spelling, b) ∈ operators := by
  unfold oneOf
  refine .bind keeps_peek fun k _ => ?_
  split
  · rename_i spelling _
    split
    · rename_i b hb
      obtain ⟨before, after, hops, -⟩ := List.lookup_eq_some_iff.1 hb
      refine .bind keeps_advance fun _ _ => .pure ?_
      rintro _ ⟨rfl⟩
      exact ⟨spelling, by simp [hops]⟩
    · exact .pure fun _ h => nomatch h
  · exact .pure fun _ h => nomatch h

theorem keeps_wordOperator (word : String) (b : β) :
    Keeps (wordOperator word b) fun _ => True := by
  unfold wordOperator
  refine .bind (keeps_eat _) fun c _ => ?_
  exact .pure trivial

/-! ### Loops -/

theorem defines_collect {item : Parser (Next α)} (P : α → Prop) (names : α → List String)
    (h : Defines item fun n xs => n.Forall P ∧ xs = n.names names) :
    Defines (collect item) fun as xs => (∀ a ∈ as, P a) ∧ xs = as.flatMap names := by
  intro D s as s' hs heq
  unfold collect at heq
  fun_induction collectFrom item s generalizing D as s' with
  | case1 => cases heq
  | case2 s s₁ hitem =>
    cases heq
    obtain ⟨xs, ⟨-, rfl⟩, hs₁⟩ := h D _ _ _ hs hitem
    exact ⟨[], ⟨fun a ha => (nomatch ha), rfl⟩, hs₁⟩
  | case3 s a s₁ hitem =>
    cases heq
    obtain ⟨xs, ⟨ha, rfl⟩, hs₁⟩ := h D _ _ _ hs hitem
    exact ⟨names a, ⟨List.forall_mem_singleton.2 ha, by simp⟩, hs₁⟩
  | case4 s a s₁ hitem _ ih =>
    obtain ⟨⟨bs, s₂⟩, hbs, heq⟩ := bind_eq_ok_iff.1 heq
    cases heq
    obtain ⟨xs, ⟨ha, rfl⟩, hs₁⟩ := h D _ _ _ hs hitem
    obtain ⟨ys, ⟨hbs, rfl⟩, hs₂⟩ := ih _ _ _ hs₁ hbs
    refine ⟨names a ++ bs.flatMap names, ⟨List.forall_mem_cons.2 ⟨ha, hbs⟩, by simp⟩, ?_⟩
    rw [List.reverse_append, List.append_assoc]
    exact hs₂
  | case5 s a s₁ hitem _ =>
    cases heq
    obtain ⟨xs, ⟨ha, rfl⟩, hs₁⟩ := h D _ _ _ hs hitem
    exact ⟨names a, ⟨List.forall_mem_singleton.2 ha, by simp⟩, hs₁⟩

theorem keeps_collect {item : Parser (Next α)} (P : α → Prop) (h : Keeps item (Next.Forall P)) :
    Keeps (collect item) fun as => ∀ a ∈ as, P a := by
  intro D s as s' hs heq
  obtain ⟨xs, ⟨has, rfl⟩, hs'⟩ := defines_collect P (fun _ => [])
    (.of_keeps h fun n hn => ⟨hn, by cases n <;> rfl⟩) D s as s' hs heq
  rw [List.flatMap_eq_nil_iff.2 fun _ _ => rfl] at hs'
  exact ⟨has, hs'⟩

/-- A loop in which every round has a result. -/
theorem ne_nil_of_collect {item : Parser (Next α)} (h : ∀ s s', item s ≠ .ok (.stop, s'))
    {s s' : TokenStream} {as : List α} (heq : collect item s = .ok (as, s')) : as ≠ [] := by
  unfold collect at heq
  unfold collectFrom at heq
  split at heq
  · cases heq
  · rename_i hitem
    exact absurd hitem (h _ _)
  · cases heq
    exact List.cons_ne_nil _ _
  · split at heq
    · obtain ⟨⟨bs, s₂⟩, -, heq⟩ := bind_eq_ok_iff.1 heq
      cases heq
      exact List.cons_ne_nil _ _
    · cases heq
      exact List.cons_ne_nil _ _

theorem keeps_fold {step : β → Parser (Next β)} {P : β → Prop}
    (h : ∀ b, P b → Keeps (step b) (Next.Forall P)) {b : β} (hb : P b) :
    Keeps (fold step b) P := by
  intro D s b' s' hs heq
  unfold fold at heq
  fun_induction foldFrom step b s with
  | case1 => cases heq
  | case2 _ _ _ hstep =>
    cases heq
    exact ⟨hb, (h _ hb D _ _ _ hs hstep).2⟩
  | case3 _ _ _ _ hstep =>
    cases heq
    exact h _ hb D _ _ _ hs hstep
  | case4 _ _ _ _ hstep _ ih =>
    obtain ⟨hc, hs₁⟩ := h _ hb D _ _ _ hs hstep
    exact ih hc hs₁ heq
  | case5 _ _ _ _ hstep _ =>
    cases heq
    exact h _ hb D _ _ _ hs hstep

theorem keeps_separated {item : Parser α} {P : α → Prop} (close : String) (h : Keeps item P) :
    Keeps (separated close item) fun as => ∀ a ∈ as, P a := by
  unfold separated
  refine .bind (keeps_collect P ?_) fun as has => .bind (keeps_expectOp _) fun _ _ => .pure has
  refine .bind (keeps_check _) fun b _ => .ite (fun _ => .pure trivial) fun _ => ?_
  refine .bind h fun a ha => .bind (keeps_eat _) fun c _ => .pure ?_
  cases c
  · exact ha
  · exact ha

theorem keeps_chainRest {operator : Parser (Option β)} {operand : Nat → Parser α}
    {combine : β → α → α → α} {P : α → Prop} {O : β → Prop}
    (hoperator : Keeps operator fun op => ∀ b, op = some b → O b)
    (hoperand : ∀ room, Keeps (operand room) P)
    (hcombine : ∀ op x y, O op → P x → P y → P (combine op x y)) (room : Nat) {lhs : α}
    (hlhs : P lhs) : Keeps (chainRest operator operand combine room lhs) P := by
  induction room generalizing lhs with
  | zero =>
    unfold chainRest
    refine .bind hoperator fun op _ => ?_
    split
    · exact .pure hlhs
    · exact keeps_fail _
  | succ room ih =>
    unfold chainRest
    refine .bind hoperator fun op hop => ?_
    split
    · exact .pure hlhs
    · rename_i op
      exact .bind (hoperand room) fun rhs hrhs => ih (hcombine op lhs rhs (hop op rfl) hlhs hrhs)

theorem keeps_chain {operator : Parser (Option β)} {operand : Nat → Parser α}
    {combine : β → α → α → α} {P : α → Prop} {O : β → Prop}
    (hoperator : Keeps operator fun op => ∀ b, op = some b → O b)
    (hoperand : ∀ room, Keeps (operand room) P)
    (hcombine : ∀ op x y, O op → P x → P y → P (combine op x y)) (room : Nat) :
    Keeps (chain operator operand combine room) P :=
  .bind (hoperand room) fun _ hlhs => keeps_chainRest hoperator hoperand hcombine room hlhs

/-! ### Function headers -/

theorem defines_functionName (keywords : List String) :
    Defines (functionName keywords) fun name xs => IsName name ∧ xs = [name] := by
  intro D s name s' hs h
  obtain ⟨p, s₀, hp, h⟩ := stateBind_eq_ok_iff.1 h
  cases hp
  obtain ⟨x, s₁, hx, h⟩ := stateBind_eq_ok_iff.1 h
  obtain ⟨hname, hs₁⟩ := keeps_identifier keywords D s x s₁ hs hx
  obtain ⟨t, s₂, ht, h⟩ := stateBind_eq_ok_iff.1 h
  cases ht
  split at h
  · cases h
  · rename_i hnew
    cases h
    refine ⟨[name], ⟨hname, rfl⟩, hs₁.lexical, by simp [hs₁.defined], ?_⟩
    refine List.nodup_cons.2 ⟨?_, hs₁.distinct⟩
    simpa [hs₁.defined] using hnew

theorem keeps_parameters (keywords : List String) :
    Keeps (parameters keywords) fun params => (∀ x ∈ params, IsName x) ∧ params.Nodup := by
  unfold parameters
  refine .bind (keeps_expectOp _) fun _ _ => .bind (keeps_fold ?_ ?_) fun params hparams =>
    .bind (keeps_expectOp _) fun _ _ => .pure hparams
  · rintro params ⟨hnames, hnodup⟩
    refine .bind (keeps_check _) fun b _ => .ite (fun _ => .pure trivial) fun _ => ?_
    refine .bind (keeps_identifier _) fun x hx => .ite (fun _ => keeps_fail _) fun hnew => ?_
    have hparams : (∀ y ∈ params ++ [x], IsName y) ∧ (params ++ [x]).Nodup := by
      refine ⟨by simpa [or_imp, forall_and] using ⟨hnames, hx⟩, ?_⟩
      rw [List.nodup_append]
      refine ⟨hnodup, by simp, fun y hy z hz hyz => hnew ?_⟩
      rw [List.mem_singleton.1 hz] at hyz
      simpa [← hyz] using hy
    refine .bind (keeps_eat _) fun c _ => .pure ?_
    cases c
    · exact hparams
    · exact hparams
  · exact ⟨fun x hx => (nomatch hx), .nil⟩

/-! ### Whole programs -/

theorem holds_ofTokens {ts : List Token} (h : LexicalTokens ts) :
    (TokenStream.ofTokens ts).Holds [] := by
  cases ts with
  | nil => exact ⟨.cons trivial .nil, rfl, .nil⟩
  | cons t ts => exact ⟨h, rfl, .nil⟩

/-- What a parser guarantees about the tree of a source. -/
theorem run_defines {p : Parser α} {Q : α → List String → Prop} (hp : Defines p Q)
    {tokens : Except SyntaxError (List Token)} (htokens : ∀ ts, tokens = .ok ts → LexicalTokens ts)
    {a : α} (h : run p tokens = .ok a) : ∃ names, Q a names ∧ names.Nodup := by
  obtain ⟨ts, hts, h⟩ := bind_eq_ok_iff.1 h
  obtain ⟨⟨b, s⟩, hb, h⟩ := bind_eq_ok_iff.1 h
  cases h
  obtain ⟨names, hQ, hs⟩ := hp [] _ _ _ (holds_ofTokens (htokens ts hts)) hb
  refine ⟨names, hQ, ?_⟩
  have hnodup := hs.distinct
  rwa [List.append_nil, List.nodup_reverse] at hnodup

/-! ### Shared rules -/

theorem wellFormed_negate {e : Expr} (he : e.WellFormed) : (negate e).WellFormed := by
  unfold negate
  split
  · rename_i n
    split
    · rename_i hn
      exact absurd (congrArg Literal.int hn) he
    · rename_i hn
      intro heq
      simp only [Literal.int.injEq] at heq
      exact hn (by rw [← Int64.neg_neg (a := n), heq]; rfl)
  · rename_i hint
    exact ⟨fun h => by cases e <;> simp_all [Expr.IsInteger], he⟩

theorem length_of_checkArity {p : Position} {name : String} {arity : Nat} {args : List Expr}
    (h : checkArity p name arity args = .ok ()) : args.length = arity := by
  unfold checkArity at h
  split at h
  · assumption
  · cases h

/-! ### Statements -/

/-- A well-formed statement that defines no functions. -/
def Simple (d : Dialect) (around : Surroundings) (stmt : Stmt) : Prop :=
  stmt.WellFormed d around ∧ stmt.definitions = []

/-- Every result of the parser is a list of well-formed statements, whose functions are defined
by it. -/
def DefinesStmts (d : Dialect) (around : Surroundings) (p : Parser (List Stmt)) : Prop :=
  Defines p fun stmts xs => Stmt.AllWellFormed d around stmts ∧ xs = Stmt.functionNames stmts

/-- The same for a single statement. -/
def DefinesStmt (d : Dialect) (around : Surroundings) (p : Parser Stmt) : Prop :=
  Defines p fun stmt xs => stmt.WellFormed d around ∧ xs = Stmt.functionNames [stmt]

variable {d : Dialect} {around : Surroundings}

theorem defines_singleton {p : Parser Stmt} (h : DefinesStmt d around p) :
    DefinesStmts d around (do return [← p]) :=
  .map h fun _ _ hstmt => ⟨⟨hstmt.1, trivial⟩, hstmt.2⟩

theorem wellFormed_simple {stmts : List Stmt} (h : ∀ stmt ∈ stmts, Simple d around stmt) :
    Stmt.AllWellFormed d around stmts ∧ Stmt.functionNames stmts = [] := by
  induction stmts with
  | nil => exact ⟨trivial, rfl⟩
  | cons stmt rest ih =>
    obtain ⟨⟨hwf, hdef⟩, hrest⟩ := List.forall_mem_cons.1 h
    obtain ⟨hwfs, hdefs⟩ := ih hrest
    refine ⟨⟨hwf, hwfs⟩, ?_⟩
    simpa [Stmt.functionNames, Stmt.allDefinitions, hdef] using hdefs

theorem defines_of_simple {p : Parser (List Stmt)}
    (h : Keeps p fun stmts => ∀ stmt ∈ stmts, Simple d around stmt) : DefinesStmts d around p := by
  refine .of_keeps h fun stmts hstmts => ?_
  obtain ⟨hwf, hnames⟩ := wellFormed_simple hstmts
  exact ⟨hwf, hnames.symm⟩

/-- Statements that are read one after the other. -/
theorem defines_collectStmts (d : Dialect) (around : Surroundings)
    {item : Parser (Next (List Stmt))}
    (h : Defines item fun n xs =>
      n.Forall (Stmt.AllWellFormed d around) ∧ xs = n.names Stmt.functionNames) :
    Defines (collect item) fun stmts xs =>
      Stmt.AllWellFormed d around stmts.flatten ∧ xs = Stmt.functionNames stmts.flatten := by
  refine (defines_collect _ _ h).mono ?_
  rintro stmts _ ⟨hstmts, rfl⟩
  exact ⟨Stmt.allWellFormed_flatten hstmts, (Stmt.functionNames_flatten stmts).symm⟩

end Parser

end Labyrinth
