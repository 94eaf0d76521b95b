import Labyrinth.Language.Parser
import Labyrinth.Proofs.Outcome

/-!
# Parsers pass positions on

Tokens carry positions, and errors report them. A parser never computes a position and never looks
at one: it **passes on** those that it is given. So if every position on a stream is exchanged for
another one, the results stay the same, and errors report the exchanged positions.

There is a rule for every way to put parsers together, so that this follows the text of a grammar.

## Main results

* `Relabels.bind`, `Relabels.position`: parsers in sequence.
* `relabels_collect`, `relabels_fold`, `relabels_chain`: loops and chains of operators.
* `run_relabel`: what is read from tokens at other positions.
* `position_mem_of_run`: errors report positions of tokens.
* `run_mapError_cause`: what is read, and why it is refused, depends on the kinds of the tokens.
-/

namespace Labyrinth

/-! ### Other positions -/

/-- A token at another position. -/
def Token.relabel (g : Position → Position) (t : Token) : Token := ⟨t.kind, g t.position⟩

/-- An error at another position. -/
def SyntaxError.relabel (g : Position → Position) (e : SyntaxError) : SyntaxError :=
  ⟨g e.position, e.cause⟩

namespace TokenStream

/-- A stream whose tokens stand at other positions. -/
def relabel (g : Position → Position) (s : TokenStream) : TokenStream :=
  ⟨s.current.relabel g, s.rest.map (Token.relabel g), s.left, s.defined, by
    rw [s.left_eq, List.length_map]⟩

variable {g : Position → Position} {s : TokenStream}

theorem relabel_ofTokens {t : Token} (ts : List Token) :
    ofTokens ((t :: ts).map (Token.relabel g)) = (ofTokens (t :: ts)).relabel g := by
  simp only [ofTokens, relabel, List.map_cons, List.length_map]

theorem second_relabel : (s.relabel g).second = s.second.relabel g := by
  cases hrest : s.rest with
  | nil => simp only [second, relabel, hrest, List.map_nil, List.headD_nil]
  | cons t ts => simp only [second, relabel, hrest, List.map_cons, List.headD_cons]

theorem advance_relabel : (s.relabel g).advance = s.advance.relabel g := by
  obtain ⟨current, rest, left, defined, rfl⟩ := s
  cases rest with
  | nil => rfl
  | cons t ts => rfl

end TokenStream

namespace Parser

variable {α β : Type} {g : Position → Position}

/-- A result on a stream whose tokens stand at other positions. -/
def relabelResult (g : Position → Position) :
    Except SyntaxError (α × TokenStream) → Except SyntaxError (α × TokenStream)
  | .error e => .error (e.relabel g)
  | .ok (a, s) => .ok (a, s.relabel g)

/-- On a stream whose positions have been exchanged, the second parser does what the first one does
on the stream itself. The two differ in nothing but positions that they have been given. -/
def Relabels (g : Position → Position) (p q : Parser α) : Prop :=
  ∀ s, q (s.relabel g) = relabelResult g (p s)

namespace Relabels

variable {p q : Parser α} {f f' : α → Parser β}

theorem pure (a : α) : Relabels g (Pure.pure a) (Pure.pure a) := fun _ => rfl

theorem bind (hp : Relabels g p q) (hf : ∀ a, Relabels g (f a) (f' a)) :
    Relabels g (p >>= f) (q >>= f') := by
  intro s
  have hs := hp s
  cases hr : p s with
  | error e =>
    rw [hr] at hs
    rw [stateBind_of_error hr, stateBind_of_error hs]
    rfl
  | ok r =>
    rw [hr] at hs
    rw [stateBind_of_ok hr, stateBind_of_ok hs]
    exact hf r.1 r.2

/-- A parser whose result is put into a larger one. -/
theorem map (hp : Relabels g p q) (h : α → β) :
    Relabels g (p >>= fun a => Pure.pure (h a)) (q >>= fun a => Pure.pure (h a)) :=
  .bind hp fun a => .pure (h a)

theorem ite {c : Prop} [Decidable c] {p' q' : Parser α} (hp : Relabels g p p')
    (hq : Relabels g q q') : Relabels g (if c then p else q) (if c then p' else q') := by
  split
  · exact hp
  · exact hq

theorem lift {x y : Except SyntaxError α} (h : y = x.mapError (SyntaxError.relabel g)) :
    Relabels g (liftM x : Parser α) (liftM y : Parser α) := by
  subst h
  cases x with
  | error e => exact fun _ => rfl
  | ok a => exact fun _ => rfl

/-- The position of the next token is exchanged, too. -/
theorem position {f f' : Position → Parser α} (h : ∀ q, Relabels g (f q) (f' (g q))) :
    Relabels g (position >>= f) (position >>= f') := fun s => h s.current.position s

end Relabels

/-! ### Single tokens -/

theorem relabels_peek : Relabels g peek peek := fun _ => rfl

theorem relabels_peekSecond : Relabels g peekSecond peekSecond := fun s => by
  rw [peekSecond, TokenStream.second_relabel]
  rfl

theorem relabels_advance : Relabels g advance advance := fun s => by
  rw [advance, TokenStream.advance_relabel]
  rfl

theorem relabels_check (kind : TokenKind) : Relabels g (check kind) (check kind) := fun _ => rfl

theorem relabels_fail (cause : SyntaxCause) :
    Relabels g (fail cause : Parser α) (fail cause) := fun _ => rfl

theorem relabels_failFound (cause : TokenKind → SyntaxCause) :
    Relabels g (failFound cause : Parser α) (failFound cause) := fun _ => rfl

theorem relabels_failAt (p : Position) (cause : SyntaxCause) :
    Relabels g (failAt p cause : Parser α) (failAt (g p) cause) := fun _ => rfl

theorem relabels_eat (kind : TokenKind) : Relabels g (eat kind) (eat kind) :=
  .bind (relabels_check kind) fun _ => .ite (.bind relabels_advance fun _ => .pure _) (.pure _)

theorem relabels_expectOp (op : String) : Relabels g (expectOp op) (expectOp op) :=
  .bind (relabels_eat _) fun _ => .ite (.pure _) (relabels_failFound _)

theorem relabels_expectWord (word : String) : Relabels g (expectWord word) (expectWord word) :=
  .bind (relabels_eat _) fun _ => .ite (.pure _) (relabels_failFound _)

theorem relabels_identifier (keywords : List String) :
    Relabels g (identifier keywords) (identifier keywords) := by
  refine .bind relabels_peek fun k => ?_
  split
  · exact .ite (relabels_failFound _) (.bind relabels_advance fun _ => .pure _)
  · exact relabels_failFound _

theorem relabels_descend (room : Nat) : Relabels g (descend room) (descend room) :=
  .ite (relabels_fail _) (.pure ())

theorem relabels_oneOf (operators : List (String × β)) :
    Relabels g (oneOf operators) (oneOf operators) := by
  refine .bind relabels_peek fun k => ?_
  split
  · split
    · exact .bind relabels_advance fun _ => .pure _
    · exact .pure _
  · exact .pure _

theorem relabels_wordOperator (word : String) (b : β) :
    Relabels g (wordOperator word b) (wordOperator word b) :=
  (relabels_eat _).map _

/-! ### Loops -/

theorem relabels_fold {step : β → Parser (Next β)} (h : ∀ b, Relabels g (step b) (step b)) (b : β) :
    Relabels g (fold step b) (fold step b) := by
  intro s
  unfold fold
  fun_induction foldFrom step b s with
  | case1 b s e hstep => rw [foldFrom, h b s, hstep]; rfl
  | case2 b s s₁ hstep => rw [foldFrom, h b s, hstep]; rfl
  | case3 b s c s₁ hstep => rw [foldFrom, h b s, hstep]; rfl
  | case4 b s c s₁ hstep hlt ih =>
    rw [foldFrom, h b s, hstep]
    exact (if_pos hlt).trans ih
  | case5 b s c s₁ hstep hge =>
    rw [foldFrom, h b s, hstep]
    exact if_neg hge

theorem relabels_collect {item : Parser (Next α)} (h : Relabels g item item) :
    Relabels g (collect item) (collect item) := by
  intro s
  unfold collect
  fun_induction collectFrom item s with
  | case1 s e hitem => rw [collectFrom, h s, hitem]; rfl
  | case2 s s₁ hitem => rw [collectFrom, h s, hitem]; rfl
  | case3 s a s₁ hitem => rw [collectFrom, h s, hitem]; rfl
  | case4 s a s₁ hitem hlt ih =>
    rw [collectFrom, h s, hitem]
    refine (if_pos hlt).trans ?_
    rw [ih]
    cases collectFrom item s₁ with
    | error e => rfl
    | ok r => rfl
  | case5 s a s₁ hitem hge =>
    rw [collectFrom, h s, hitem]
    exact if_neg hge

theorem relabels_separated (close : String) {item : Parser α} (h : Relabels g item item) :
    Relabels g (separated close item) (separated close item) := by
  refine .bind (relabels_collect ?_) fun items => .bind (relabels_expectOp _) fun _ => .pure _
  refine .bind (relabels_check _) fun _ => .ite (.pure _) (.bind h fun a => ?_)
  exact (relabels_eat _).map _

/-! ### Chains -/

section Chains

variable {operator : Parser (Option β)} {operand : Nat → Parser α} {combine : β → α → α → α}
  (hoperator : Relabels g operator operator)
  (hoperand : ∀ room, Relabels g (operand room) (operand room))
include hoperator hoperand

theorem relabels_chainRest (room : Nat) (lhs : α) : Relabels g
    (chainRest operator operand combine room lhs)
      (chainRest operator operand combine room lhs) := by
  induction room generalizing lhs with
  | zero =>
    unfold chainRest
    refine .bind hoperator fun op => ?_
    cases op with
    | none => exact .pure _
    | some op => exact relabels_fail _
  | succ room ih =>
    unfold chainRest
    refine .bind hoperator fun op => ?_
    cases op with
    | none => exact .pure _
    | some op => exact .bind (hoperand room) fun rhs => ih _

theorem relabels_chain (room : Nat) :
    Relabels g (chain operator operand combine room) (chain operator operand combine room) :=
  .bind (hoperand room) fun lhs => relabels_chainRest hoperator hoperand room lhs

end Chains

/-! ### Function headers -/

theorem relabels_functionName (keywords : List String) :
    Relabels g (functionName keywords) (functionName keywords) := by
  refine .position fun q => .bind (relabels_identifier _) fun name s => ?_
  -- The names that are known do not depend on positions.
  refine (stateBind_of_ok rfl).trans (.trans ?_ (congrArg _ (stateBind_of_ok rfl).symm))
  have hdefined : (s.relabel g).defined = s.defined := rfl
  rw [hdefined]
  split
  · rfl
  · rfl

theorem relabels_parameters (keywords : List String) :
    Relabels g (parameters keywords) (parameters keywords) := by
  refine .bind (relabels_expectOp _) fun _ =>
    .bind (relabels_fold (fun params => ?_) _) fun params =>
    .bind (relabels_expectOp _) fun _ => .pure _
  refine .bind (relabels_check _) fun _ => .ite (.pure _) ?_
  refine .bind (relabels_identifier _) fun param => .ite (relabels_fail _) ?_
  exact (relabels_eat _).map _

/-! ### Whole sources -/

section Run

variable {p : Parser α} {ts us : List Token}

theorem run_relabel (hp : Relabels g p p) (hne : ts ≠ []) :
    run p (.ok (ts.map (Token.relabel g))) =
      (run p (.ok ts)).mapError (SyntaxError.relabel g) := by
  obtain ⟨t, ts, rfl⟩ := List.exists_cons_of_ne_nil hne
  have hs := hp (TokenStream.ofTokens (t :: ts))
  simp only [run, ok_bind, TokenStream.relabel_ofTokens, hs]
  cases p (TokenStream.ofTokens (t :: ts)) with
  | error e => rfl
  | ok r => rfl

/-- Errors in a sequence of tokens are reported at the position of one of them. -/
theorem position_mem_of_run (hp : ∀ g, Relabels g p p) (hne : ts ≠ []) {e : SyntaxError}
    (h : run p (.ok ts) = .error e) : ∃ t ∈ ts, t.position = e.position := by
  obtain ⟨t, htail, rfl⟩ := List.exists_cons_of_ne_nil hne
  -- All positions but those of the tokens are exchanged for that of the first token.
  let g (q : Position) : Position :=
    if q ∈ (t :: htail).map Token.position then q else t.position
  have hg (q : Position) : g q ∈ (t :: htail).map Token.position := by
    dsimp only [g]
    split
    · assumption
    · exact List.mem_cons_self
  have hsame : (t :: htail).map (Token.relabel g) = t :: htail := by
    refine (List.map_congr_left fun u hu => ?_).trans (List.map_id _)
    exact congrArg (Token.mk u.kind) (if_pos (List.mem_map_of_mem hu))
  have herror := run_relabel (hp g) hne
  rw [hsame, h] at herror
  have hposition : e.position = g e.position :=
    congrArg SyntaxError.position (Except.error.inj herror)
  exact List.mem_map.1 (hposition ▸ hg e.position)

/-- Positions matter to nothing but the positions of errors. -/
theorem run_mapError_cause (hp : ∀ g, Relabels g p p)
    (hkinds : ts.map Token.kind = us.map Token.kind) :
    (run p (.ok ts)).mapError SyntaxError.cause = (run p (.ok us)).mapError SyntaxError.cause := by
  have hcause (q : Position) (x : Except SyntaxError α) :
      (x.mapError (SyntaxError.relabel fun _ => q)).mapError SyntaxError.cause =
        x.mapError SyntaxError.cause := by
    cases x with
    | error e => rfl
    | ok a => rfl
  have hrelabel (q : Position) (ts : List Token) :
      ts.map (Token.relabel fun _ => q) = (ts.map Token.kind).map (Token.mk · q) := by
    rw [List.map_map]
    rfl
  cases ts with
  | nil =>
    obtain rfl : us = [] := List.map_eq_nil_iff.1 hkinds.symm
    rfl
  | cons t ts =>
    have hne : us ≠ [] := by
      rintro rfl
      cases hkinds
    rw [← hcause t.position, ← run_relabel (hp _) (List.cons_ne_nil t ts), hrelabel, hkinds,
      ← hrelabel, run_relabel (hp _) hne, hcause]

end Run

end Parser

end Labyrinth
