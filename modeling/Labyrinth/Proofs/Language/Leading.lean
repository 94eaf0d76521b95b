import Labyrinth.Language.Parser
import Labyrinth.Proofs.Outcome
import Mathlib.Data.List.Nodup

/-!
# Where parsers lead

What a parser does on a stream depends on the **view** of the stream: on the kinds of the tokens
that are left, and on the names of the functions that may still be defined. A parser **leads** from
one view to another one if it gets there, unless it is refused because the program is nested too
deep.

There is a rule for every way to put parsers together, so that what is read follows the text of the
tokens.

## Main results

* `Leads.bind`, `Leads.trans`: parsers in sequence.
* `Yields.collect_more`, `Yields.fold_more`: the rounds of a loop.
* `leads_chainRest`, `yields_chainRest`: operators that follow an operand.
-/

namespace Labyrinth

/-- What can be seen of a stream. -/
structure View where
  /-- The kinds of the tokens before the end. -/
  kinds : List TokenKind
  /-- The names of the functions that are still to be defined. -/
  ahead : List String

/-- The kind of the next token. -/
def View.next (v : View) : TokenKind := v.kinds.headD .eof

/-- A stream that offers a view. -/
structure TokenStream.Shows (s : TokenStream) (v : View) : Prop where
  kinds : s.current.kind :: s.rest.map Token.kind = v.kinds ++ [.eof]
  undefined : ∀ f ∈ v.ahead, f ∉ s.defined
  distinct : v.ahead.Nodup

namespace TokenStream.Shows

variable {s : TokenStream} {v : View} {k : TokenKind} {ks : List TokenKind} {ahead : List String}

theorem left_eq (h : s.Shows v) : s.left = v.kinds.length := by
  have hlength := congrArg List.length h.kinds
  simp only [List.length_cons, List.length_map, List.length_append, List.length_nil] at hlength
  rw [s.left_eq]
  omega

theorem current_kind (h : s.Shows v) : s.current.kind = v.next := by
  have hhead := congrArg (List.headD · .eof) h.kinds
  rw [View.next]
  cases hks : v.kinds with
  | nil => simpa [hks] using hhead
  | cons k ks => simpa [hks] using hhead

theorem rest_kinds (h : s.Shows ⟨k :: ks, ahead⟩) : s.rest.map Token.kind = ks ++ [.eof] :=
  (List.cons.inj h.kinds).2

theorem second_kind (h : s.Shows v) : s.second.kind = v.kinds.tail.headD .eof := by
  obtain ⟨ks, ahead⟩ := v
  cases ks with
  | nil =>
    obtain ⟨hcurrent, hrest⟩ := List.cons.inj h.kinds
    rw [second, List.map_eq_nil_iff.1 hrest]
    exact hcurrent
  | cons k ks =>
    have hrest := h.rest_kinds
    rw [second]
    cases hs : s.rest with
    | nil => simp [hs] at hrest
    | cons t ts =>
      rw [hs, List.map_cons] at hrest
      cases ks with
      | nil => exact (List.cons.inj hrest).1
      | cons k' ks => exact (List.cons.inj hrest).1

theorem advance (h : s.Shows ⟨k :: ks, ahead⟩) : s.advance.Shows ⟨ks, ahead⟩ := by
  have hrest := h.rest_kinds
  unfold TokenStream.advance
  split
  · rename_i hs
    simp [hs] at hrest
  · rename_i t ts hs
    rw [hs, List.map_cons] at hrest
    exact ⟨hrest, h.undefined, h.distinct⟩

end TokenStream.Shows

/-- The stream of the tokens of a program, before anything is read from it. -/
theorem shows_ofTokens {ts : List Token} {ks : List TokenKind} {names : List String}
    (h : ts.map Token.kind = ks ++ [.eof]) (hnames : names.Nodup) :
    (TokenStream.ofTokens ts).Shows ⟨ks, names⟩ := by
  cases ts with
  | nil => simp at h
  | cons t ts => exact ⟨h, fun _ _ => List.not_mem_nil, hnames⟩

namespace Parser

variable {α β : Type}

/-! ### Leading -/

/-- Refused because the program is nested too deep. -/
def IsTooDeep (x : Except SyntaxError α) : Prop := ∃ p, x = .error ⟨p, .nestingTooDeep⟩

/-- A parser that **leads** from one view to another one, where it goes on as a parser with the
property `Q`, unless the program is nested too deep. -/
def Leads (p : Parser α) (v v' : View) (Q : Parser α → Prop) : Prop :=
  ∀ s, s.Shows v → IsTooDeep (p s) ∨ ∃ q s', Q q ∧ s'.Shows v' ∧ p s = q s'

/-- A parser that leads to a result. -/
def Yields (p : Parser α) (v v' : View) (a : α) : Prop := Leads p v v' (· = Pure.pure a)

section Rules

variable {p : Parser α} {f : α → Parser β} {v v' v'' : View} {a : α} {b : β} {Q : Parser α → Prop}
  {R : Parser β → Prop}

theorem IsTooDeep.bind {s : TokenStream} (h : IsTooDeep (p s)) : IsTooDeep ((p >>= f) s) := by
  obtain ⟨position, h⟩ := h
  exact ⟨position, stateBind_of_error h⟩

theorem Yields.of_ok (h : ∀ s, s.Shows v → ∃ s', p s = .ok (a, s') ∧ s'.Shows v') :
    Yields p v v' a := by
  intro s hs
  obtain ⟨s', heq, hs'⟩ := h s hs
  exact .inr ⟨_, s', rfl, hs', heq⟩

theorem Yields.ok_or (h : Yields p v v' a) {s : TokenStream} (hs : s.Shows v) :
    IsTooDeep (p s) ∨ ∃ s', p s = .ok (a, s') ∧ s'.Shows v' := by
  rcases h s hs with hdeep | ⟨_, s', rfl, hs', heq⟩
  · exact .inl hdeep
  · exact .inr ⟨s', heq, hs'⟩

namespace Leads

/-- A parser that is there already. -/
theorem here (h : Q p) : Leads p v v Q := fun s hs => .inr ⟨p, s, h, hs, rfl⟩

theorem of_tooDeep (h : ∀ s, s.Shows v → IsTooDeep (p s)) : Leads p v v' Q :=
  fun s hs => .inl (h s hs)

theorem bind (hp : Yields p v v' a) (hf : Leads (f a) v' v'' R) : Leads (p >>= f) v v'' R := by
  intro s hs
  rcases hp.ok_or hs with hdeep | ⟨s', heq, hs'⟩
  · exact .inl hdeep.bind
  · rw [stateBind_of_ok heq]
    exact hf s' hs'

theorem trans {Q' : Parser α → Prop} (h : Leads p v v' Q) (h' : ∀ q, Q q → Leads q v' v'' Q') :
    Leads p v v'' Q' := by
  intro s hs
  rcases h s hs with hdeep | ⟨q, s', hq, hs', heq⟩
  · exact .inl hdeep
  · rw [heq]
    exact h' q hq s' hs'

end Leads

namespace Yields

theorem pure : Yields (Pure.pure a : Parser α) v v a := .here rfl

theorem bind (hp : Yields p v v' a) (hf : Yields (f a) v' v'' b) : Yields (p >>= f) v v'' b :=
  Leads.bind hp hf

/-- A parser whose result is put into a larger one. -/
theorem map {g : α → β} (h : Yields p v v' a) :
    Yields (p >>= fun x => Pure.pure (g x)) v v' (g a) := .bind h .pure

end Yields

end Rules

/-! ### Single tokens -/

variable {k : TokenKind} {ks : List TokenKind} {ahead : List String} {v v' v'' : View}

theorem yields_peek : Yields peek v v v.next :=
  .of_ok fun s hs => ⟨s, by rw [peek, hs.current_kind], hs⟩

theorem yields_peekSecond : Yields peekSecond v v (v.kinds.tail.headD .eof) :=
  .of_ok fun s hs => ⟨s, by rw [peekSecond, hs.second_kind], hs⟩

theorem yields_check : Yields (check k) v v (v.next == k) :=
  .of_ok fun s hs => ⟨s, by rw [check, hs.current_kind], hs⟩

theorem yields_advance : Yields advance ⟨k :: ks, ahead⟩ ⟨ks, ahead⟩ () :=
  .of_ok fun _ hs => ⟨_, rfl, hs.advance⟩

/-- The position of the next token can be any. -/
theorem leads_position {f : Position → Parser α} {Q : Parser α → Prop}
    (h : ∀ p, Leads (f p) v v' Q) : Leads (position >>= f) v v' Q :=
  fun s hs => h s.current.position s hs

theorem leads_fail {Q : Parser α → Prop} : Leads (fail .nestingTooDeep) v v' Q :=
  .of_tooDeep fun s _ => ⟨s.current.position, rfl⟩

theorem yields_check_of_eq (h : v.next = k) : Yields (check k) v v true := by
  have hcheck := yields_check (k := k) (v := v)
  rwa [h, beq_self_eq_true] at hcheck

theorem yields_check_of_ne (h : v.next ≠ k) : Yields (check k) v v false := by
  have hcheck := yields_check (k := k) (v := v)
  rwa [beq_false_of_ne h] at hcheck

theorem yields_eat : Yields (eat k) ⟨k :: ks, ahead⟩ ⟨ks, ahead⟩ true :=
  .bind (yields_check_of_eq rfl) (.bind yields_advance .pure)

theorem yields_eat_of_ne (h : v.next ≠ k) : Yields (eat k) v v false :=
  .bind (yields_check_of_ne h) .pure

theorem yields_expectOp {op : String} :
    Yields (expectOp op) ⟨.op op :: ks, ahead⟩ ⟨ks, ahead⟩ () := .bind yields_eat .pure

theorem yields_expectWord {word : String} :
    Yields (expectWord word) ⟨.name word :: ks, ahead⟩ ⟨ks, ahead⟩ () := .bind yields_eat .pure

theorem yields_identifier {keywords : List String} {x : String} (h : x ∉ keywords) :
    Yields (identifier keywords) ⟨.name x :: ks, ahead⟩ ⟨ks, ahead⟩ x := by
  refine .bind yields_peek ?_
  have hcontains : keywords.contains x = false := by simpa using h
  simp only [View.next, List.headD_cons, hcontains, Bool.false_eq_true, if_false]
  exact .bind yields_advance .pure

/-- Going one level down with the room that is left. -/
theorem leads_descend {f : Unit → Parser α} {Q : Parser α → Prop} {room : Nat}
    (h : ∀ r, room = r + 1 → Leads (f ()) v v' Q) : Leads (descend room >>= f) v v' Q := by
  cases room with
  | zero => exact .of_tooDeep fun s _ => .bind ⟨s.current.position, rfl⟩
  | succ r => exact .bind .pure (h r rfl)

theorem yields_oneOf {operators : List (String × β)} {op : String} {b : β}
    (h : operators.lookup op = some b) :
    Yields (oneOf operators) ⟨.op op :: ks, ahead⟩ ⟨ks, ahead⟩ (some b) := by
  refine .bind yields_peek ?_
  simp only [View.next, List.headD_cons, h]
  exact .bind yields_advance .pure

theorem yields_oneOf_none {operators : List (String × β)}
    (h : ∀ op b, (op, b) ∈ operators → v.next ≠ .op op) : Yields (oneOf operators) v v none := by
  refine .bind yields_peek ?_
  cases hnext : v.next with
  | op spelling =>
    have hlookup : operators.lookup spelling = none := by
      refine List.lookup_eq_none_iff.2 fun entry hentry => ?_
      have hne := h entry.1 entry.2 hentry
      rw [hnext] at hne
      simpa using fun heq : spelling = entry.1 => hne (heq ▸ rfl)
    simp only [hlookup]
    exact .pure
  | _ => exact .pure

/-- The name of a function that comes next among those that are still to be defined. -/
theorem yields_functionName {keywords : List String} {f : String} (hf : f ∉ keywords) :
    Yields (functionName keywords) ⟨.name f :: ks, f :: ahead⟩ ⟨ks, ahead⟩ f := by
  refine leads_position fun p => .bind (yields_identifier hf) (Yields.of_ok fun s hs => ?_)
  obtain ⟨hkinds, hundefined, hdistinct⟩ := hs
  obtain ⟨hnew, hothers⟩ := List.forall_mem_cons.1 hundefined
  obtain ⟨hf, hdistinct⟩ := List.nodup_cons.1 hdistinct
  refine ⟨{ s with defined := f :: s.defined }, ?_, hkinds, fun g hg hmem => ?_, hdistinct⟩
  · have hcontains : s.defined.contains f = false := by simpa using hnew
    rw [stateBind_of_ok rfl, hcontains]
    rfl
  · rcases List.mem_cons.1 hmem with rfl | hmem
    · exact hf hg
    · exact hothers g hg hmem

/-! ### Loops -/

section Loops

variable {item : Parser (Next α)} {step : β → Parser (Next β)} {a : α} {as : List α} {b c : β}

namespace Yields

/-- A loop fails where its round does, and goes on from where its round leads. -/
theorem of_round {γ : Type} {loop rest : Parser β} {round : Parser γ} {n : γ}
    (h : Yields round v v' n) (herror : ∀ s e, round s = .error e → loop s = .error e)
    (hok : ∀ s s', s.Shows v → s'.Shows v' → round s = .ok (n, s') → loop s = rest s')
    (hrest : Yields rest v' v'' b) : Yields loop v v'' b := by
  intro s hs
  rcases h.ok_or hs with ⟨p, herr⟩ | ⟨s', heq, hs'⟩
  · exact .inl ⟨p, herror s _ herr⟩
  · rw [hok s s' hs hs' heq]
    exact hrest s' hs'

theorem collect_error {s : TokenStream} {e : SyntaxError} (h : item s = .error e) :
    collect item s = .error e := by
  rw [collect, collectFrom, h]

theorem fold_error {s : TokenStream} {e : SyntaxError} (h : step b s = .error e) :
    fold step b s = .error e := by
  rw [fold, foldFrom, h]

theorem collect_stop (h : Yields item v v' .stop) : Yields (collect item) v v' [] := by
  refine .of_round h (fun _ _ => collect_error) (fun s s' _ _ heq => ?_) .pure
  rw [collect, collectFrom, heq]
  rfl

theorem collect_last (h : Yields item v v' (.last a)) : Yields (collect item) v v' [a] := by
  refine .of_round h (fun _ _ => collect_error) (fun s s' _ _ heq => ?_) .pure
  rw [collect, collectFrom, heq]
  rfl

/-- A round that uses up tokens, and the further rounds. -/
theorem collect_more (h : Yields item v v' (.more a)) (hlt : v'.kinds.length < v.kinds.length)
    (h' : Yields (collect item) v' v'' as) : Yields (collect item) v v'' (a :: as) := by
  refine .of_round h (fun _ _ => collect_error) (fun s s' hs hs' heq => ?_) (.map h')
  rw [← hs.left_eq, ← hs'.left_eq] at hlt
  rw [collect, collectFrom, heq]
  exact if_pos hlt

theorem fold_stop (h : Yields (step b) v v' .stop) : Yields (fold step b) v v' b := by
  refine .of_round h (fun _ _ => fold_error) (fun s s' _ _ heq => ?_) .pure
  rw [fold, foldFrom, heq]
  rfl

theorem fold_last (h : Yields (step b) v v' (.last c)) : Yields (fold step b) v v' c := by
  refine .of_round h (fun _ _ => fold_error) (fun s s' _ _ heq => ?_) .pure
  rw [fold, foldFrom, heq]
  rfl

theorem fold_more {d : β} (h : Yields (step b) v v' (.more c))
    (hlt : v'.kinds.length < v.kinds.length) (h' : Yields (fold step c) v' v'' d) :
    Yields (fold step b) v v'' d := by
  refine .of_round h (fun _ _ => fold_error) (fun s s' hs hs' heq => ?_) h'
  rw [← hs.left_eq, ← hs'.left_eq] at hlt
  rw [fold, foldFrom, heq]
  exact if_pos hlt

end Yields

end Loops

/-! ### Chains of operators -/

section Chains

variable {operator : Parser (Option β)} {operand : Nat → Parser α} {combine : β → α → α → α}
  {lhs rhs : α} {op : β}

/-- No operator follows. -/
theorem yields_chainRest (h : Yields operator v v none) (room : Nat) :
    Yields (chainRest operator operand combine room lhs) v v lhs := by
  cases room with
  | zero => exact .bind h .pure
  | succ room => exact .bind h .pure

/-- An operator and its second operand follow. -/
theorem leads_chainRest (h : Yields operator v v' (some op))
    (hrhs : ∀ room, Yields (operand room) v' v'' rhs) (room : Nat) :
    Leads (chainRest operator operand combine room lhs) v v'' fun q =>
      ∃ r, q = chainRest operator operand combine r (combine op lhs rhs) := by
  cases room with
  | zero => exact .bind h leads_fail
  | succ room => exact .bind h (.bind (hrhs room) (.here ⟨room, rfl⟩))

end Chains

end Parser

end Labyrinth
