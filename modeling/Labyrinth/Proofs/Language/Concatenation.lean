import Labyrinth.Language.Read
import Labyrinth.Proofs.Language.Braced
import Labyrinth.Proofs.Language.BracedFollowing
import Labyrinth.Proofs.Language.Indented
import Labyrinth.Proofs.Language.IndentedFollowing

/-!
# Programs behind each other

Two programs can be put together: the second one is written behind the first one, on a line of its
own. If both are accepted and do not define functions of the same name, so is the whole, and it has
the statements of both. Only in the indented dialect comments may move, since those with which the
second program begins belong to the last block of the first one.

## Main results

* `Braced.parse_append`, `Indented.parse_append`: the two dialects.
* `Program.read_append`: the statements of the whole are those of the two programs.
-/

namespace Labyrinth

open Labyrinth.Parser Labyrinth.KindRel

namespace Parser

variable {stmt : Parser (List Stmt)}

/-- Reads the statements of a program. -/
def statements (stmt : Parser (List Stmt)) : Parser (List Stmt) := do
  let stmts ← collect (programRound stmt)
  return stmts.flatten

theorem run_statements {ts : List Token} {as : List (List Stmt)} {s : TokenStream}
    (h : collect (programRound stmt) (TokenStream.ofTokens ts) = .ok (as, s)) :
    run (statements stmt) (.ok ts) = .ok as.flatten := by
  have hstatements : statements stmt (TokenStream.ofTokens ts) = .ok (as.flatten, s) :=
    stateBind_of_ok h
  simp only [run, bind, Except.bind, hstatements]
  rfl

/-- How a program has been read, and which functions are known at its end. -/
theorem exists_of_run {d : Dialect} {tokens : Except SyntaxError (List Token)} {body : List Stmt}
    (hdefines : DefinesStmts d .top (statements stmt))
    (htokens : ∀ ts, tokens = .ok ts → LexicalTokens ts)
    (h : run (statements stmt) tokens = .ok body) :
    ∃ ts as s, tokens = .ok ts ∧
      collect (programRound stmt) (TokenStream.ofTokens ts) = .ok (as, s) ∧ body = as.flatten ∧
      s.defined = (Stmt.functionNames body).reverse := by
  obtain ⟨ts, hts, h⟩ := bind_eq_ok_iff.1 h
  obtain ⟨⟨body', s⟩, hbody, h⟩ := bind_eq_ok_iff.1 h
  cases h
  obtain ⟨as, s', has, hend⟩ := stateBind_eq_ok_iff.1 hbody
  obtain ⟨rfl, rfl⟩ := Prod.mk.inj (Except.ok.inj hend)
  obtain ⟨_, ⟨-, rfl⟩, hs⟩ := hdefines [] _ _ _ (holds_ofTokens (htokens ts hts)) hbody
  rw [List.append_nil] at hs
  exact ⟨ts, as, _, hts, has, rfl, hs.defined⟩

/-- A program that is accepted begins with no token at which all statements are refused. -/
theorem Refuses.headD_ne {k : TokenKind} (hrefuses : Refuses k stmt) (hk : k ≠ .eof)
    {s s' : TokenStream} {xs : List TokenKind} (hs : s.Reads xs) {as : List (List Stmt)}
    (h : collect (programRound stmt) s = .ok (as, s')) : xs.headD .eof ≠ k := by
  intro hhead
  have hcurrent : s.current.kind = k := hs.headD_eq.symm.trans hhead
  have hround : ∀ r, programRound stmt s ≠ .ok r := by
    rw [programRound_of_ne stmt (hcurrent ▸ hk)]
    exact fun r => hrefuses.bind s r hcurrent
  rw [collect, collectFrom] at h
  split at h
  · cases h
  all_goals
    next heq => exact hround _ heq

theorem collect_programRound_nil (stmt : Parser (List Stmt)) {s : TokenStream} (hs : s.Reads []) :
    collect (programRound stmt) s = .ok ([], s) := by
  rw [collect, collectFrom, programRound_of_eof stmt hs.current_kind]

end Parser

theorem TokenStream.defined_ofTokens (ts : List Token) :
    (TokenStream.ofTokens ts).defined = [] := by
  cases ts with
  | nil => rfl
  | cons t ts => rfl

/-- Two programs of which nothing has been read. -/
theorem TokenStream.InStep.ofTokens {T : KindRel} {ts us : List Token} {xs ys : List TokenKind}
    (hts : ts.map Token.kind = xs ++ [.eof]) (hus : us.map Token.kind = ys ++ [.eof])
    (h : T xs ys) : (TokenStream.ofTokens ts).InStep [] T (TokenStream.ofTokens us) := by
  refine ⟨⟨xs, ys, shows_ofTokens hts .nil, shows_ofTokens hus .nil, h⟩, ?_⟩
  rw [defined_ofTokens, defined_ofTokens, List.append_nil]

/-! ### The braced dialect -/

namespace Braced

theorem refuses_else (room : Nat) (around : Surroundings) :
    Refuses (.name "else") (statementAt room around) := by
  cases room with
  | zero => exact .peek (.of_error nofun)
  | succ room => exact .peek (.of_error nofun)

/-- How a program of the braced dialect is read when other tokens follow behind it. -/
theorem program_continues {E : List String} {zs : List TokenKind}
    (helse : zs.headD .eof ≠ .name "else") {s t s' : TokenStream} {as : List (List Stmt)}
    (hst : s.InStep E (ContinuedBy zs) t)
    (has : collect (programRound (statementAt maxNesting .top)) s = .ok (as, s'))
    (hE : ∀ x ∈ E, x ∉ s'.defined) :
    ∃ t', t'.Reads zs ∧ t'.defined = s'.defined ++ E ∧ ∀ cs t'',
      collect (programRound (statementAt maxNesting .top)) t' = .ok (cs, t'') →
        collect (programRound (statementAt maxNesting .top)) t = .ok (as ++ cs, t'') := by
  obtain ⟨bs, t', hbs, hst', hreach⟩ := program_reaches (R := (· = ·))
    (.refl _ fun _ => False) (follows_statementAt helse maxNesting .top)
    (fun xs ys h => h.ne_eof) hst has hE
  obtain ⟨⟨xs, ys, hs, ht, hxy, hhead⟩, hdefined⟩ := hst'
  obtain ⟨-, rfl⟩ := hxy.eq_of_eof hhead
  have hsame := hbs.forall₂
  rw [List.forall₂_eq_eq_eq] at hsame
  exact ⟨t', ht, hdefined, hsame ▸ hreach⟩

/-- The statements of a program behind another one. -/
theorem parse_append {first second : String} {a b : List Stmt} (hfirst : parse first = .ok a)
    (hsecond : parse second = .ok b)
    (hnames : ∀ f ∈ Stmt.functionNames a, f ∉ Stmt.functionNames b) :
    parse (first ++ "\n" ++ second) = .ok (a ++ b) := by
  obtain ⟨ts, as, s', hts, has, rfl, hdefined⟩ :=
    exists_of_run defines_program (fun _ => lexical_tokens) hfirst
  obtain ⟨us, bs, s'', hus, hbs, rfl, hdefined'⟩ :=
    exists_of_run defines_program (fun _ => lexical_tokens) hsecond
  obtain ⟨xs, zs, vs, hxs, hzs, heof, heof', hvs, hkinds⟩ := tokens_append hts hus
  have hu : (TokenStream.ofTokens us).Reads zs := shows_ofTokens hzs .nil
  have helse : zs.headD .eof ≠ .name "else" := (refuses_else _ _).headD_ne nofun hu hbs
  -- The first program is read from the tokens of both.
  have hst : (TokenStream.ofTokens ts).InStep [] (ContinuedBy zs) (TokenStream.ofTokens vs) :=
    .ofTokens hxs hkinds ⟨rfl, heof⟩
  obtain ⟨t', ht', hdefined₁, hreach⟩ :=
    program_continues helse hst has (List.forall_mem_nil _)
  rw [List.append_nil, hdefined] at hdefined₁
  -- The second one is read where the first one has ended.
  have hst' : (TokenStream.ofTokens us).InStep (Stmt.functionNames as.flatten).reverse
      (ContinuedBy []) t' := by
    refine ⟨⟨zs, zs, hu, ht', (List.append_nil zs).symm, heof'⟩, ?_⟩
    rw [hdefined₁, TokenStream.defined_ofTokens, List.nil_append]
  have hdone : List.headD [] TokenKind.eof ≠ .name "else" := nofun
  obtain ⟨t'', ht'', -, hreach'⟩ := program_continues hdone hst' hbs fun f hf hmem => by
    rw [hdefined', List.mem_reverse] at hmem
    exact hnames f (List.mem_reverse.1 hf) hmem
  have hall := run_statements (hreach _ _ (hreach' _ _ (collect_programRound_nil _ ht'')))
  rw [List.append_nil, List.flatten_append] at hall
  rw [parse, hvs]
  exact hall

end Braced

/-! ### The indented dialect -/

namespace Indented

theorem refuses_indent (room : Nat) (around : Surroundings) :
    Refuses .indent (statementAt room around) := by
  cases room with
  | zero => exact .peek (.of_error nofun)
  | succ room => exact .peek (.of_error nofun)

theorem refuses_elif (room : Nat) (around : Surroundings) :
    Refuses (.name "elif") (statementAt room around) := by
  cases room with
  | zero => exact .peek (.of_error nofun)
  | succ room => exact .peek (.of_error nofun)

theorem refuses_else (room : Nat) (around : Surroundings) :
    Refuses (.name "else") (statementAt room around) := by
  cases room with
  | zero => exact .peek (.of_error nofun)
  | succ room => exact .peek (.of_error nofun)

/-- A comment is read in a round of its own. -/
theorem programRound_comment (s : TokenStream) (text : String)
    (h : s.current.kind = .comment text) :
    programRound (statementAt maxNesting .top) s = .ok (.more [.comment text], s.advance) := by
  rw [programRound_of_ne _ (h ▸ nofun)]
  exact stateBind_of_ok (statementAt_comment maxNesting .top s text h)

/-- How a program of the indented dialect is read with more comments, and when other tokens follow
behind it. -/
theorem program_continues {E : List String} {next : Option (List TokenKind)}
    (hnext : ∀ rest, next = some rest →
      rest.headD .eof ≠ .name "elif" ∧ rest.headD .eof ≠ .name "else")
    {s t s' : TokenStream} {as : List (List Stmt)}
    (hst : s.InStep E (Annotated next .between 0) t)
    (has : collect (programRound (statementAt maxNesting .top)) s = .ok (as, s'))
    (hE : ∀ x ∈ E, x ∉ s'.defined) :
    ∃ rest bs t', next = some rest ∧ Stmt.SameCode as.flatten bs.flatten ∧ t'.Reads rest ∧
      t'.defined = s'.defined ++ E ∧ ∀ cs t'',
        collect (programRound (statementAt maxNesting .top)) t' = .ok (cs, t'') →
          collect (programRound (statementAt maxNesting .top)) t = .ok (bs ++ cs, t'') := by
  obtain ⟨bs, t', hbs, hst', hreach⟩ := program_reaches (R := Stmt.SameCode)
    (skips_comments programRound_comment)
    (fun m n => (follows_statementAt hnext maxNesting .top 0 m n).weaken fun xs ys h =>
      ⟨h.1, h.2, h.1.1.headD_ne_dedent⟩)
    (fun xs ys h hend => h.headD_eq hend ▸ hend) hst has hE
  obtain ⟨⟨xs, ys, hs, ht, hxy, hhead⟩, hdefined⟩ := hst'
  obtain ⟨hrest, -⟩ := hxy.exists_of_eof hhead
  exact ⟨ys, bs, t', hrest, .flatten hbs, ht, hdefined, hreach⟩

/-- The rest of a source behind its first comments. -/
theorem ContinuedBy.of_comments {next : Option (List TokenKind)} (texts : List String)
    {rest : List TokenKind}
    (h : ContinuedBy next none 0 (texts.map .comment ++ rest) (texts.map .comment ++ rest)) :
    ContinuedBy next none 0 rest rest := by
  induction texts with
  | nil => exact h
  | cons text texts ih =>
    refine ih ?_
    cases h with
    | token hk => cases hk
    | comment _ h => exact h
    | finish _ _ hxs => cases hxs

/-- The statements of a program behind another one. Some of its comments may belong to blocks of the
other one. -/
theorem parse_append {first second : String} {a b : List Stmt} (hfirst : parse first = .ok a)
    (hsecond : parse second = .ok b)
    (hnames : ∀ f ∈ Stmt.functionNames a, f ∉ Stmt.functionNames b) :
    ∃ c, parse (first ++ "\n" ++ second) = .ok c ∧ Stmt.SameCode (a ++ b) c := by
  obtain ⟨ts, as, s', hts, has, rfl, hdefined⟩ :=
    exists_of_run defines_program (fun _ => lexical_tokens) hfirst
  obtain ⟨us, bs, s'', hus, hbs, rfl, hdefined'⟩ :=
    exists_of_run defines_program (fun _ => lexical_tokens) hsecond
  obtain ⟨xs, texts, rest, hxs, hzs, hself, hcases⟩ := tokens_append hts hus
  -- The second program begins with some comments.
  obtain ⟨u, hu, hdefined₂, hcomments⟩ :=
    collect_comments programRound_comment texts (shows_ofTokens hzs .nil)
  obtain ⟨⟨cs, u'⟩, hcs, heq⟩ := bind_eq_ok_iff.1 (hcomments.symm.trans hbs)
  cases heq
  have hnext (rest' : List TokenKind) (h : some rest = some rest') :
      rest'.headD .eof ≠ .name "elif" ∧ rest'.headD .eof ≠ .name "else" := by
    obtain rfl := Option.some.inj h
    exact ⟨(refuses_elif _ _).headD_ne nofun hu hcs, (refuses_else _ _).headD_ne nofun hu hcs⟩
  rcases hcases with hopen | hindent | ⟨vs, ys, hvs, hys, hxy⟩
  · -- Brackets are never left open in a program that is accepted.
    obtain ⟨_, _, _, hnone, -⟩ :=
      program_continues (fun _ h => absurd h (Option.some_ne_none _).symm)
        (.ofTokens hxs hxs hopen.annotated) has
        (List.forall_mem_nil _)
    cases hnone
  · refine absurd ?_ ((refuses_indent _ _).headD_ne nofun hu hcs)
    rw [List.headD_eq_head?_getD, hindent]
    rfl
  · -- The first program is read from the tokens of both.
    obtain ⟨_, as', t₁, hrest, hcode, ht₁, hdefined₁, hreach⟩ :=
      program_continues hnext (.ofTokens hxs hys hxy.annotated) has (List.forall_mem_nil _)
    cases hrest
    rw [List.append_nil, hdefined] at hdefined₁
    -- The second one is read where the first one has ended.
    have hst : u.InStep (Stmt.functionNames as.flatten).reverse
        (Annotated (some []) .between 0) t₁ := by
      refine ⟨⟨rest, rest, hu, ht₁, hself.of_comments.annotated⟩, ?_⟩
      rw [hdefined₁, hdefined₂, TokenStream.defined_ofTokens, List.nil_append]
    obtain ⟨_, cs', t₂, hend, hcode', ht₂, -, hreach'⟩ := program_continues (fun rest h => by
      obtain rfl := Option.some.inj h
      exact ⟨nofun, nofun⟩) hst hcs fun f hf hmem => by
        rw [hdefined', List.mem_reverse] at hmem
        exact hnames f (List.mem_reverse.1 hf) hmem
    cases hend
    have hall := run_statements (hreach _ _ (hreach' _ _ (collect_programRound_nil _ ht₂)))
    rw [List.append_nil, List.flatten_append] at hall
    refine ⟨as'.flatten ++ cs'.flatten, ?_, hcode.append ?_⟩
    · rw [parse, hvs]
      exact hall
    · rw [Stmt.SameCode, List.flatten_append, Stmt.allUncommented_append,
        Stmt.allUncommented_comments, List.nil_append]
      exact hcode'

end Indented

/-! ### Both dialects -/

/-- A program that consists of two others, which define no function of the same name, is accepted if
they are. Without the comments, its statements are those of the first one and then those of the
second one. -/
theorem Program.read_append {d : Dialect} {first second : String} {a b : List Stmt}
    (hfirst : Program.read ⟨d, first⟩ = .ok a) (hsecond : Program.read ⟨d, second⟩ = .ok b)
    (hnames : ∀ f ∈ Stmt.functionNames a, f ∉ Stmt.functionNames b) :
    ∃ c, Program.read ⟨d, first ++ "\n" ++ second⟩ = .ok c ∧
      Stmt.allUncommented c = Stmt.allUncommented a ++ Stmt.allUncommented b := by
  cases d with
  | indented =>
    obtain ⟨c, hc, hcode⟩ := Indented.parse_append hfirst hsecond hnames
    exact ⟨c, hc, hcode.symm.trans (Stmt.allUncommented_append a b)⟩
  | braced =>
    have hc := Braced.parse_append hfirst hsecond hnames
    exact ⟨a ++ b, hc, Stmt.allUncommented_append a b⟩

/-- A program that ends with a block. -/
def Program.one : Program := ⟨.indented, "def one():\n  return 1"⟩

/-- The tree of `one`. -/
def Program.oneBody : List Stmt := [.function "one" [] [.return (some (.literal (.int 1)))]]

/-- A program that begins with a comment, which belongs to `one` when the program follows that. -/
def Program.two : Program := ⟨.indented, "# two\ntwo = one()"⟩

/-- The tree of `two`. -/
def Program.twoBody : List Stmt :=
  [.comment " two", .declare (.single "two") (some (.call "one" [])) false]

theorem Program.read_one : Program.one.read = .ok Program.oneBody := by cbv

theorem Program.read_two : Program.two.read = .ok Program.twoBody := by cbv

theorem Program.read_append_one_two :
    Program.one.read = .ok Program.oneBody ∧ Program.two.read = .ok Program.twoBody ∧
      (∀ f ∈ Stmt.functionNames Program.oneBody, f ∉ Stmt.functionNames Program.twoBody) ∧
      ∃ c, Program.read ⟨.indented, Program.one.source ++ "\n" ++ Program.two.source⟩ = .ok c ∧
        Stmt.allUncommented c =
          Stmt.allUncommented Program.oneBody ++ Stmt.allUncommented Program.twoBody := by
  have hnames : ∀ f ∈ Stmt.functionNames Program.oneBody,
      f ∉ Stmt.functionNames Program.twoBody := fun _ _ => List.not_mem_nil
  exact ⟨Program.read_one, Program.read_two, hnames,
    Program.read_append Program.read_one Program.read_two hnames⟩

end Labyrinth
