import Labyrinth.Proofs.Language.Continuations
import Labyrinth.Proofs.Language.Following
import Labyrinth.Proofs.Language.IndentedLocality
import Labyrinth.Proofs.Language.Printable

/-!
# Longer programs of the indented dialect

A program of the indented dialect that is accepted is read as before when its tokens are
**annotated**: other tokens follow behind it, and there are more comments between its lines.
Comments of a source that follows may belong to blocks which are still open at the end of the first
one. Without the comments, the statements are the same. There are no comments in front of an `elif`
or an `else`, and the program must not go on with one, as it would belong to the last statement.

## Main results

* `ContinuedBy.annotated`: a source that goes on.
* `Annotated.exists_start`, `Annotated.headD_eq`: behind the additional comments, the same token
  comes next on both streams.
* `follows_lines`: the lines of a block, some of which may be additional comments.
* `follows_statementAt`: statements are the same but for their comments.
-/

namespace Labyrinth

/-! ### Statements without their comments -/

theorem Stmt.allUncommented_append (xs ys : List Stmt) :
    allUncommented (xs ++ ys) = allUncommented xs ++ allUncommented ys := by
  induction xs with
  | nil => rfl
  | cons x xs ih => rw [List.cons_append, allUncommented, allUncommented, ih, List.append_assoc]

/-- The same statements, but for their comments. -/
def Stmt.SameCode (xs ys : List Stmt) : Prop := allUncommented xs = allUncommented ys

namespace Stmt.SameCode

theorem refl (xs : List Stmt) : SameCode xs xs := rfl

theorem append {xs xs' ys ys' : List Stmt} (h : SameCode xs xs') (h' : SameCode ys ys') :
    SameCode (xs ++ ys) (xs' ++ ys') := by
  rw [SameCode, allUncommented_append, allUncommented_append, h, h']

/-- Comments may stand between statements. -/
theorem flatten {xss yss : List (List Stmt)}
    (h : Parser.Interspersed SameCode (fun stmts => ∃ text, stmts = [.comment text]) xss yss) :
    SameCode xss.flatten yss.flatten := by
  induction h with
  | nil => exact .refl []
  | cons hxy _ ih => exact hxy.append ih
  | extra hy _ ih =>
    obtain ⟨text, rfl⟩ := hy
    exact ih

theorem of_comments {xs ys : List Stmt}
    (h : Parser.Interspersed (· = ·) (fun stmt => ∃ text, stmt = .comment text) xs ys) :
    SameCode xs ys := by
  induction h with
  | nil => exact .refl []
  | @cons x _ _ _ hxy _ ih => exact hxy ▸ (SameCode.refl [x]).append ih
  | extra hy _ ih =>
    obtain ⟨text, rfl⟩ := hy
    exact ih

end Stmt.SameCode

theorem Stmt.allUncommented_comments (texts : List String) :
    allUncommented (texts.map fun text => [Stmt.comment text]).flatten = [] := by
  induction texts with
  | nil => rfl
  | cons text texts ih => exact ih

theorem Arms.uncommented_ofList {arms arms' : List (Expr × List Stmt)}
    {last last' : Option (List Stmt)}
    (harms : List.Forall₂ (fun arm arm' => arm.1 = arm'.1 ∧ Stmt.SameCode arm.2 arm'.2) arms arms')
    (hlast : Option.Rel Stmt.SameCode last last') :
    (Arms.ofList arms last).uncommented = (Arms.ofList arms' last').uncommented := by
  induction harms with
  | nil =>
    cases hlast with
    | none => rfl
    | some h => exact congrArg Arms.otherwise h
  | cons harm _ ih =>
    obtain ⟨hcondition, hbody⟩ := harm
    rw [Arms.ofList, Arms.ofList, Arms.uncommented, Arms.uncommented, hcondition, hbody, ih]

namespace Indented

open Labyrinth.Parser Labyrinth.KindRel

variable {E : List String} {next : Option (List TokenKind)} {line : Option Nat} {blocks : Nat}
  {k : TokenKind} {m n : Nat}

/-! ### Streams with more comments -/

/-- Where two streams stand. -/
inductive Spot
  /-- Before a line, and before the comments that only the second stream has there. -/
  | between
  /-- Before a line. -/
  | start
  /-- On a line, inside `depth` brackets. -/
  | within (depth : Nat)

/-- A token with which a statement may go on behind a block. -/
def Alternative (k : TokenKind) : Prop := k = .name "elif" ∨ k = .name "else"

instance (k : TokenKind) : Decidable (Alternative k) := inferInstanceAs (Decidable (_ ∨ _))

/-- The second stream has the tokens of the first one, and comments between its lines, except for
those in front of an `elif` or an `else`. `blocks` is the number of open blocks. Where the first
stream ends, the second one goes on with `next`, unless brackets are open there. -/
inductive Annotated (next : Option (List TokenKind)) :
    Spot → Nat → List TokenKind → List TokenKind → Prop
  | remark {blocks : Nat} {xs ys : List TokenKind} (text : String)
    (hhead : ¬Alternative (xs.headD .eof)) (h : Annotated next .between blocks xs ys) :
    Annotated next .between blocks xs (.comment text :: ys)
  | settle {blocks : Nat} {xs ys : List TokenKind} (h : Annotated next .start blocks xs ys) :
    Annotated next .between blocks xs ys
  | first {blocks : Nat} {k : TokenKind} {xs ys : List TokenKind} (hk : k.isLayout = false)
    (h : Annotated next (.within (depthAfter k 0)) blocks xs ys) :
    Annotated next .start blocks (k :: xs) (k :: ys)
  | token {depth blocks : Nat} {k : TokenKind} {xs ys : List TokenKind} (hk : k.isLayout = false)
    (h : Annotated next (.within (depthAfter k depth)) blocks xs ys) :
    Annotated next (.within depth) blocks (k :: xs) (k :: ys)
  | newline {blocks : Nat} {xs ys : List TokenKind} (h : Annotated next .between blocks xs ys) :
    Annotated next (.within 0) blocks (.newline :: xs) (.newline :: ys)
  | comment {blocks : Nat} {xs ys : List TokenKind} (text : String)
    (h : Annotated next .between blocks xs ys) :
    Annotated next .start blocks (.comment text :: xs) (.comment text :: ys)
  | indent {blocks : Nat} {xs ys : List TokenKind}
    (h : Annotated next .between (blocks + 1) xs ys) :
    Annotated next .start blocks (.indent :: xs) (.indent :: ys)
  | dedent {blocks : Nat} {xs ys : List TokenKind} (h : Annotated next .between blocks xs ys) :
    Annotated next .start (blocks + 1) (.dedent :: xs) (.dedent :: ys)
  | finish {rest : List TokenKind} (hnext : next = some rest) : Annotated next .start 0 [] rest
  | unclosed {depth blocks : Nat} {xs ys : List TokenKind} :
    Annotated next (.within (depth + 1)) blocks (.newline :: xs) ys

namespace Annotated

variable {xs ys : List TokenKind}

/-- The same token comes next on both streams, unless the first one ends. -/
theorem headD_eq (h : Annotated next .start blocks xs ys) (hend : xs.headD .eof ≠ .eof) :
    xs.headD .eof = ys.headD .eof := by
  cases h with
  | first => rfl
  | comment => rfl
  | indent => rfl
  | dedent => rfl
  | finish => exact absurd rfl hend

/-- No line is empty. -/
theorem headD_ne_newline (h : Annotated next .start blocks xs ys) : xs.headD .eof ≠ .newline := by
  cases h with
  | first hk => exact fun h => by cases h; cases hk
  | comment => exact nofun
  | indent => exact nofun
  | dedent => exact nofun
  | finish => exact nofun

/-- A line is never ended by anything but a line end. -/
theorem headD_of_line (h : Annotated next (.within 0) blocks xs ys) :
    xs.headD .eof = ys.headD .eof ∧ xs.headD .eof ≠ .eof ∧ xs.headD .eof ≠ .dedent := by
  cases h with
  | token hk => refine ⟨rfl, ?_, ?_⟩ <;> exact fun h => by cases h; cases hk
  | newline => exact ⟨rfl, nofun, nofun⟩

theorem of_token (h : Annotated next .start blocks xs ys)
    (hk : (xs.headD .eof).isLayout = false) : Annotated next (.within 0) blocks xs ys := by
  cases h with
  | first hk h => exact .token hk h
  | comment => cases hk
  | indent => cases hk
  | dedent => cases hk
  | finish => cases hk

theorem passes_first (hk : k.isLayout = false) (hdepth : depthAfter k 0 = 0) :
    Passes k (Annotated next .start blocks) (Annotated next (.within 0) blocks) := by
  intro xs ys h
  cases h with
  | first _ h => exact ⟨_, rfl, hdepth ▸ h⟩
  | comment => cases hk
  | indent => cases hk
  | dedent => cases hk

theorem passes_token (hk : k.isLayout = false) (hdepth : depthAfter k 0 = 0) :
    Passes k (Annotated next (.within 0) blocks) (Annotated next (.within 0) blocks) := by
  intro xs ys h
  cases h with
  | token _ h => exact ⟨_, rfl, hdepth ▸ h⟩
  | newline => cases hk

/-- No comments stand in front of an `elif` or an `else`. -/
theorem passes_alternative (hk : Alternative k) :
    Passes k (Annotated next .between blocks) (Annotated next (.within 0) blocks) := by
  intro xs ys h
  cases h with
  | remark text hhead => exact absurd hk hhead
  | settle h => rcases hk with rfl | rfl <;> exact passes_first rfl rfl _ _ h

theorem passes_newline :
    Passes .newline (Annotated next (.within 0) blocks) (Annotated next .between blocks) := by
  intro xs ys h
  cases h with
  | token hk => cases hk
  | newline h => exact ⟨_, rfl, h⟩

theorem passes_comment (text : String) :
    Passes (.comment text) (Annotated next .start blocks) (Annotated next .between blocks) := by
  intro xs ys h
  cases h with
  | first hk => cases hk
  | comment _ h => exact ⟨_, rfl, h⟩

theorem passes_indent :
    Passes .indent (Annotated next .start blocks) (Annotated next .between (blocks + 1)) := by
  intro xs ys h
  cases h with
  | first hk => cases hk
  | indent h => exact ⟨_, rfl, h⟩

theorem passes_dedent :
    Passes .dedent (Annotated next .start (blocks + 1)) (Annotated next .between blocks) := by
  intro xs ys h
  cases h with
  | first hk => cases hk
  | dedent h => exact ⟨_, rfl, h⟩

/-- The first stream does not end before its blocks do. -/
theorem headD_ne_eof (h : Annotated next .start (blocks + 1) xs ys) : xs.headD .eof ≠ .eof := by
  cases h with
  | first hk => exact fun h => by cases h; cases hk
  | comment => exact nofun
  | indent => exact nofun
  | dedent => exact nofun

/-- Outside all blocks none ends. -/
theorem headD_ne_dedent (h : Annotated next .start 0 xs ys) : xs.headD .eof ≠ .dedent := by
  cases h with
  | first hk => exact fun h => by cases h; cases hk
  | comment => exact nofun
  | indent => exact nofun
  | finish => exact nofun

/-- Where the first stream ends, the second one goes on. -/
theorem exists_of_eof (h : Annotated next .start blocks xs ys) (hend : xs.headD .eof = .eof) :
    next = some ys ∧ xs = [] := by
  cases h with
  | first hk => cases hend; cases hk
  | comment => cases hend
  | indent => cases hend
  | dedent => cases hend
  | finish hnext => exact ⟨hnext, rfl⟩

/-- A statement goes on with an alternative on the second stream only if it does so on the first
one, or if the second one goes on with it. -/
theorem headD_ne (h : Annotated next .between blocks xs ys) (hk : Alternative k)
    (hnext : ∀ rest, next = some rest → rest.headD .eof ≠ k) (hne : xs.headD .eof ≠ k) :
    ys.headD .eof ≠ k := by
  cases h with
  | remark => rcases hk with rfl | rfl <;> exact nofun
  | settle h =>
    cases h with
    | first => exact hne
    | comment => exact hne
    | indent => exact hne
    | dedent => exact hne
    | finish hrest => exact hnext _ hrest

/-- The rest of a line with some more tokens on it. -/
theorem append_line {us : List TokenKind} (hus : ∀ k ∈ us, k.isLayout = false) {depth : Nat}
    (h : Annotated next (.within depth) blocks (us ++ xs) ys) :
    ∃ ys', ys = us ++ ys' ∧ Annotated next (.within (depthThrough us depth)) blocks xs ys' := by
  induction us generalizing depth ys with
  | nil => exact ⟨ys, rfl, h⟩
  | cons k us ih =>
    rw [List.forall_mem_cons] at hus
    cases h with
    | token _ h =>
      obtain ⟨ys', rfl, h'⟩ := ih hus.2 h
      exact ⟨ys', rfl, h'⟩
    | newline => cases hus.1
    | unclosed => cases hus.1

/-- What a local parser looks at on a line is the same on both streams. -/
theorem alike_of_line (h : Annotated next (.within 0) blocks xs ys) : Alike pivot xs ys := by
  refine ⟨h.headD_of_line.1, fun hpivot => ?_⟩
  have hhead : xs.headD .eof = .name "not" := (Option.some.inj hpivot).symm
  cases h with
  | token hk h =>
    obtain rfl := hhead
    exact h.headD_of_line.1
  | newline => cases hhead

/-- Before a line, the second stream has passed over some comments. -/
theorem exists_start (h : Annotated next .between blocks xs ys) :
    ∃ (texts : List String) (ys' : List TokenKind),
      ys = texts.map .comment ++ ys' ∧ Annotated next .start blocks xs ys' := by
  generalize hspot : Spot.between = spot at h
  induction h with
  | remark text _ _ ih =>
    obtain ⟨texts, ys', rfl, h⟩ := ih rfl
    exact ⟨text :: texts, ys', rfl, h⟩
  | @settle blocks xs ys h => exact ⟨[], ys, rfl, h⟩
  | _ => cases hspot

/-- Comments in front of the end of a block. -/
theorem remarks (h : Annotated next .between blocks xs ys)
    (hhead : ¬Alternative (xs.headD .eof)) (texts : List String) :
    Annotated next .between blocks xs (texts.map .comment ++ ys) := by
  induction texts with
  | nil => exact h
  | cons text texts ih => exact .remark text hhead ih

theorem dedents (h : Annotated next .between blocks xs ys) (n : Nat) :
    Annotated next .between (n + blocks) (List.replicate n .dedent ++ xs)
      (List.replicate n .dedent ++ ys) := by
  induction n with
  | zero => rwa [Nat.zero_add]
  | succ n ih =>
    rw [Nat.succ_add]
    exact .settle (.dedent ih)

/-- Where the first stream ends, its blocks are closed. -/
theorem of_finish {rest : List TokenKind} (hnext : next = some rest) (blocks : Nat) :
    Annotated next .between blocks (List.replicate blocks .dedent)
      (List.replicate blocks .dedent ++ rest) := by
  have h := (settle (finish hnext)).dedents blocks
  rwa [Nat.add_zero, List.append_nil] at h

end Annotated

/-- The spot before the rest of a line, or between two lines. -/
def Spot.ofLine : Option Nat → Spot
  | none => .between
  | some depth => .within depth

/-- A stream that goes on may have more comments where the first one ends. -/
theorem ContinuedBy.annotated {xs ys : List TokenKind}
    (h : ContinuedBy next line blocks xs ys) :
    Annotated next (.ofLine line) blocks xs ys := by
  induction h with
  | @token line _ _ _ _ hk _ ih =>
    cases line with
    | none => exact .settle (.first hk ih)
    | some depth => exact .token hk ih
  | newline _ ih => exact .newline ih
  | comment text _ ih => exact .settle (.comment text ih)
  | indent _ ih => exact .settle (.indent ih)
  | dedent _ ih => exact .settle (.dedent ih)
  | @finish blocks rest xs ys texts hnext hxs hys =>
    subst hxs hys
    rw [List.append_assoc]
    refine (Annotated.of_finish hnext blocks).remarks ?_ texts
    cases blocks with
    | zero => decide
    | succ blocks => exact (by decide : ¬Alternative .dedent)
  | unclosed => exact .unclosed

/-- Both streams stand on a line. -/
abbrev OnLine (next : Option (List TokenKind)) (blocks m n : Nat) : KindRel :=
  below (Annotated next (.within 0) blocks) m n

/-- Both streams stand before a line, or before the end of a block. -/
abbrev AtLine (next : Option (List TokenKind)) (blocks m n : Nat) : KindRel :=
  below (Annotated next .start blocks) m n

/-- Both streams stand before a line, or before the end of a block, but the second one may have some
comments there. -/
abbrev BetweenLines (next : Option (List TokenKind)) (blocks m n : Nat) : KindRel :=
  below (Annotated next .between blocks) m n

/-- The statements are the same but for their comments. -/
def sameCode (T : KindRel) : List Stmt → List Stmt → KindRel :=
  fun a b xs ys => Stmt.SameCode a b ∧ T xs ys

/-- The statement is the same but for its comments. -/
def sameStmt (T : KindRel) : Stmt → Stmt → KindRel :=
  fun a b xs ys => a.uncommented = b.uncommented ∧ T xs ys

/-! ### Lines -/

section Lines

variable {α β : Type} {p : Parser α} {f g : α → Parser β} {R : β → β → KindRel}

/-- What a local parser has read. -/
theorem onLine_append {us xs ys : List TokenKind} (hus : Closes 0 us)
    (h : OnLine next blocks m n (us ++ xs) ys) :
    ∃ ys', ys = us ++ ys' ∧ Alike pivot xs ys' ∧ OnLine next blocks m n xs ys' := by
  obtain ⟨h, hm, hn⟩ := h
  obtain ⟨ys', rfl, h'⟩ := h.append_line hus.inLine
  rw [hus.depth 0] at h'
  rw [List.length_append] at hm hn
  exact ⟨ys', rfl, h'.alike_of_line, h', by omega, by omega⟩

/-- A local parser on a line. -/
theorem follows_local (hp : Local pivot 0 p)
    (hf : ∀ a, Follows E (OnLine next blocks m n) R (f a) (g a)) :
    Follows E (OnLine next blocks m n) R (p >>= f) (p >>= g) :=
  .bind_same (.of_local hp fun _ _ _ => onLine_append) hf

theorem follows_simpleLine (room : Nat) (around : Surroundings) (m n : Nat) :
    Follows E (OnLine next blocks (m + 1) (n + 1)) (sameCode (BetweenLines next blocks m n))
      (simpleLine room around) (simpleLine room around) := by
  refine follows_local (local_simple room around) fun stmt => ?_
  refine .peek (fun xs ys h => h.1.headD_of_line.1) fun k => ?_
  split
  · exact .advance nofun Annotated.passes_newline.below (.pure fun _ _ h => ⟨.refl _, h⟩)
  · exact .of_empty (.pure _) fun xs ys h => h.1.1.headD_of_line.2.1 h.2
  · exact .of_empty (.pure _) fun xs ys h => h.1.1.headD_of_line.2.2 h.2
  · exact .of_error nofun

end Lines

/-! ### Comments -/

/-- A loop passes over the comments that come next. -/
theorem collect_comments {α : Type} {item : Parser (Next α)} {f : String → α}
    (hitem : ∀ s text, s.current.kind = .comment text →
      item s = .ok (.more (f text), s.advance))
    (texts : List String) {s : TokenStream} {rest : List TokenKind}
    (hs : s.Reads (texts.map .comment ++ rest)) :
    ∃ s₁, s₁.Reads rest ∧ s₁.defined = s.defined ∧ collect item s = (do
      let (cs, s') ← collect item s₁
      return (texts.map f ++ cs, s')) := by
  induction texts generalizing s with
  | nil =>
    refine ⟨s, hs, rfl, ?_⟩
    cases collect item s with
    | error e => rfl
    | ok r => rfl
  | cons text texts ih =>
    obtain ⟨s₁, hs₁, hdefined, hcollect⟩ := ih hs.advance
    refine ⟨s₁, hs₁, hdefined.trans s.defined_advance, ?_⟩
    have hlt : s.advance.left < s.left := by
      rw [hs.left_eq, hs.advance.left_eq]
      exact Nat.lt_succ_self _
    unfold collect at hcollect ⊢
    rw [collectFrom, hitem s text hs.current_kind]
    refine (if_pos hlt).trans ?_
    rw [hcollect]
    cases collectFrom item s₁ with
    | error e => rfl
    | ok r => rfl

/-- The comments that only the second stream has. -/
theorem skips_comments {α : Type} {item : Parser (Next α)} {f : String → α}
    (hitem : ∀ s text, s.current.kind = .comment text →
      item s = .ok (.more (f text), s.advance)) :
    Skips E item (fun a => ∃ text, a = f text) (Annotated next .between blocks)
      (Annotated next .start blocks) := by
  rintro s t ⟨⟨xs, ys, hs, ht, hxy⟩, hdefined⟩
  obtain ⟨texts, ys', rfl, hxy'⟩ := hxy.exists_start
  obtain ⟨t₁, ht₁, hdefined₁, hcollect⟩ := collect_comments hitem texts ht
  refine ⟨texts.map f, t₁, ?_, ⟨⟨xs, ys', hs, ht₁, hxy'⟩, hdefined₁.trans hdefined⟩, ?_, ?_⟩
  · intro a ha
    obtain ⟨text, -, rfl⟩ := List.mem_map.1 ha
    exact ⟨text, rfl⟩
  · rw [ht.left_eq, ht₁.left_eq, List.length_append]
    exact Nat.le_add_left ..
  · intro cs t'' hcs
    rw [hcollect, hcs]
    rfl

/-- A round of the loop that reads comments. -/
def commentsRound : Parser (Next Stmt) := do
  match ← peek with
  | .comment text => advance; return .more (.comment text)
  | _ => return .stop

theorem commentsRound_of_eq (s : TokenStream) (text : String)
    (h : s.current.kind = .comment text) :
    commentsRound s = .ok (.more (.comment text), s.advance) := peek_of_eq h

theorem commentsRound_of_ne {s : TokenStream} (h : ∀ text, s.current.kind ≠ .comment text) :
    commentsRound s = .ok (.stop, s) := by
  cases hk : s.current.kind with
  | comment text => exact absurd hk (h text)
  | _ => exact peek_of_eq hk

theorem commentsRound_of_indent {s : TokenStream} (h : s.current.kind = .indent) :
    commentsRound s = .ok (.stop, s) := peek_of_eq h

theorem follows_commentsRound (m n : Nat) : Follows E
    (fun xs ys => AtLine next blocks (m + 1) (n + 1) xs ys ∧
      ¬∀ text, xs.headD .eof ≠ .comment text)
    (fun a b xs ys => (∃ x y, a = .more x ∧ b = .more y ∧ x = y) ∧
      BetweenLines next blocks m n xs ys)
    commentsRound commentsRound := by
  refine .peek (fun xs ys h => ?_) fun k => ?_
  · obtain ⟨text, htext⟩ := not_forall_not.1 h.2
    exact h.1.1.headD_eq (htext ▸ nofun)
  · split
    · refine .advance nofun ((Annotated.passes_comment _).below.weaken fun _ _ => And.left) ?_
      exact .pure fun _ _ h => ⟨⟨_, _, rfl, rfl, rfl⟩, h⟩
    · next hne => exact .of_empty (.pure _) fun xs ys h => h.1.2 fun text => h.2 ▸ hne text

/-- The comments in front of an indented line. On the second stream there may be more of them. -/
theorem comments_reaches {s t s₁ : TokenStream} {leading : List Stmt}
    (hst : s.InStep E (BetweenLines next blocks m n) t)
    (hleading : comments s = .ok (leading, s₁)) (hindent : s₁.current.kind = .indent)
    (hE : ∀ x ∈ E, x ∉ s₁.defined) :
    ∃ leading' t₁, comments t = .ok (leading', t₁) ∧ Stmt.SameCode leading leading' ∧
      t₁.current.kind = .indent ∧
      s₁.advance.InStep E (BetweenLines next (blocks + 1) m n) t₁.advance := by
  obtain ⟨xs, ys, hs, ht, -, hm, hn⟩ := hst.kinds
  obtain ⟨leading', t₁, hleading', hst₁, hreach⟩ :=
    collect_reaches (fun k => ∀ text, k ≠ .comment text)
      (skips_comments commentsRound_of_eq) (fun s => commentsRound_of_ne) follows_commentsRound
      (hst.mono fun _ _ _ => And.left) hleading hE
  have hbelow : s₁.InStep E (AtLine next blocks m n) t₁ := by
    refine hst₁.mono fun xs' ys' _ h => ⟨h.1.1, ?_, ?_⟩
    · have hleft : s.left = xs.length := hs.left_eq
      have hlt := h.1.2.1
      omega
    · have hleft : t.left = ys.length := ht.left_eq
      have hlt := h.1.2.2
      omega
  obtain ⟨hindent', hst'⟩ :=
    hbelow.advance (by decide) Annotated.passes_indent.within hindent
  have hdone : collect commentsRound t₁ = .ok ([], t₁) := by
    rw [collect, collectFrom, commentsRound_of_indent hindent']
  have hall : comments t = .ok (leading' ++ [], t₁) := hreach [] t₁ hdone
  rw [List.append_nil] at hall
  exact ⟨leading', t₁, hall, .of_comments hleading', hindent', hst'⟩

/-! ### Blocks -/

/-- A round of the loop that reads the lines of a block. -/
def linesRound (inner : Surroundings → Parser (List Stmt)) (around : Surroundings) :
    Parser (Next (List Stmt)) := do
  match ← peek with
  | .dedent => return .stop
  | .eof => return .stop
  | _ => return .more (← inner around)

/-- Reads the lines of a block up to its end, behind some comments. -/
def lines (inner : Surroundings → Parser (List Stmt)) (around : Surroundings)
    (leading : List Stmt) : Parser (List Stmt) := do
  let body ← collect (linesRound inner around)
  let _ ← eat .dedent
  return leading ++ body.flatten

/-- Reads an indented block. -/
def indented (inner : Surroundings → Parser (List Stmt)) (around : Surroundings) :
    Parser (List Stmt) := do
  let leading ← comments
  if ← eat .indent then lines inner around leading
  else fail .expectedBlock

theorem linesRound_of_end (inner : Surroundings → Parser (List Stmt)) (around : Surroundings)
    {s : TokenStream} (h : s.current.kind = .dedent ∨ s.current.kind = .eof) :
    linesRound inner around s = .ok (.stop, s) := by
  rcases h with h | h
  · exact peek_of_eq h
  · exact peek_of_eq h

section Blocks

variable {inner : Surroundings → Parser (List Stmt)}
  (hinner : ∀ around blocks m n, Follows E
    (fun xs ys => AtLine next blocks (m + 1) (n + 1) xs ys ∧
      xs.headD .eof ≠ .eof ∧ xs.headD .eof ≠ .dedent)
    (sameCode (BetweenLines next blocks m n)) (inner around) (inner around))
include hinner

theorem follows_linesRound (around : Surroundings) (m n : Nat) : Follows E
    (fun xs ys => AtLine next blocks (m + 1) (n + 1) xs ys ∧
      ¬(xs.headD .eof = .dedent ∨ xs.headD .eof = .eof))
    (fun a b xs ys => (∃ x y, a = .more x ∧ b = .more y ∧ Stmt.SameCode x y) ∧
      BetweenLines next blocks m n xs ys)
    (linesRound inner around) (linesRound inner around) := by
  refine .peek (fun xs ys h => ?_) fun k => ?_
  · rw [not_or] at h
    exact h.1.1.headD_eq h.2.2
  · split
    · exact .of_empty (.pure _) fun xs ys h => h.1.2 (.inl h.2)
    · exact .of_empty (.pure _) fun xs ys h => h.1.2 (.inr h.2)
    · refine .map ((hinner around blocks m n).weaken fun xs ys h => ?_) fun a b xs ys h => ?_
      · obtain ⟨⟨hxy, hgo⟩, -⟩ := h
        rw [not_or] at hgo
        exact ⟨hxy, hgo.2, hgo.1⟩
      · exact ⟨⟨a, b, rfl, rfl, h.1⟩, h.2⟩

variable (hcomment : ∀ around s text, s.current.kind = .comment text →
  inner around s = .ok ([.comment text], s.advance))
include hcomment

/-- The lines of a block. On the second stream, there may be comments between them and before the
end of the block. -/
theorem follows_lines (around : Surroundings) {leading leading' : List Stmt}
    (hleading : Stmt.SameCode leading leading') (m n : Nat) :
    Follows E (BetweenLines next (blocks + 1) m n) (sameCode (BetweenLines next blocks m n))
      (lines inner around leading) (lines inner around leading') := by
  have hitem (s : TokenStream) (text : String) (hs : s.current.kind = .comment text) :
      linesRound inner around s = .ok (.more [.comment text], s.advance) :=
    (peek_of_eq hs).trans (stateBind_of_ok (hcomment around s text hs))
  have hcollect := Follows.collect_skipping (fun k => k = .dedent ∨ k = .eof)
    (skips_comments hitem) (fun s => linesRound_of_end inner around)
    (@follows_linesRound E next (blocks + 1) inner hinner around)
    (fun xs ys h hhead => (h.headD_eq h.headD_ne_eof) ▸ hhead) m n
  refine .bind hcollect fun body body' => .of_prop ?_ fun hbody => ?_
  · exact Follows.grows_eat (.pure _) (.pure _)
  have hcode := hleading.append (Stmt.SameCode.flatten hbody)
  refine .eat nofun (Annotated.passes_dedent.within.weaken fun _ _ => And.left)
    (fun xs ys h _ => h.2.resolve_right h.1.1.headD_ne_eof)
    (.pure fun _ _ h => ⟨hcode, h⟩) (.of_empty (.pure _) fun xs ys h => ?_)
  exact h.2 (h.1.2.resolve_right h.1.1.1.headD_ne_eof)

/-- An indented block. Before its first line, the second stream may have more comments. -/
theorem follows_indented (around : Surroundings) (m n : Nat) :
    Follows E (BetweenLines next blocks m n) (sameCode (BetweenLines next blocks m n))
      (indented inner around) (indented inner around) := by
  have hlines {leading leading' : List Stmt} (h : Stmt.SameCode leading leading') :=
    @follows_lines E next blocks inner hinner hcomment around leading leading' h m n
  have hcomments := (@follows_commentsRound E next blocks 0 0).grows.collect
  have hend (leading : List Stmt) : Grows (do
      if ← eat .indent then lines inner around leading
      else fail .expectedBlock) := by
    refine Follows.grows_eat (hlines (.refl leading)).grows ?_
    intro s xs a s' hs heq
    cases heq
  refine ⟨hcomments.bind hend, fun s t a s' hst heq hE => ?_⟩
  obtain ⟨xs, ys, hs, -⟩ := hst.kinds
  obtain ⟨leading, s₁, hleading, heq⟩ := stateBind_eq_ok_iff.1 heq
  obtain ⟨xs₁, hs₁⟩ := (hcomments s xs leading s₁ hs hleading).reads
  have hsub := (hend leading s₁ xs₁ a s' hs₁ heq).defined
  have hindent : s₁.current.kind = .indent := by
    by_contra hne
    rw [eat_of_ne hne] at heq
    cases heq
  obtain ⟨leading', t₁, hleading', hcode, hindent', hst'⟩ :=
    comments_reaches hst hleading hindent fun x hx hmem => hE x hx (hsub hmem)
  rw [eat_of_eq hindent] at heq
  obtain ⟨b, t', hb, hst''⟩ := (hlines hcode).follows s₁.advance t₁.advance a s' hst' heq hE
  exact ⟨b, t', (stateBind_of_ok hleading').trans ((eat_of_eq hindent').trans hb), hst''⟩

theorem follows_suite (room : Nat) (around : Surroundings) (m n : Nat) :
    Follows E (OnLine next blocks m n) (sameCode (BetweenLines next blocks m n))
      (suite room inner around) (suite room inner around) := by
  have hsuite : suite room inner around = (do
      if (← peek) == .newline then
        advance
        indented inner around
      else
        simpleLine (room - 1) around) := rfl
  rw [hsuite]
  refine .peek (fun xs ys h => h.1.headD_of_line.1) fun k => ?_
  split
  · next hk =>
    obtain rfl : k = .newline := beq_iff_eq.1 hk
    exact .advance nofun Annotated.passes_newline.within (follows_indented hinner hcomment _ m n)
  · exact (follows_simpleLine _ around m n).weaken fun xs ys h => below_succ xs ys h.1

end Blocks

section Statements

variable {room : Nat} {inner : Surroundings → Parser (List Stmt)}
  (hinner : room ≠ 0 → ∀ around blocks m n, Follows E
    (fun xs ys => AtLine next blocks (m + 1) (n + 1) xs ys ∧
      xs.headD .eof ≠ .eof ∧ xs.headD .eof ≠ .dedent)
    (sameCode (BetweenLines next blocks m n)) (inner around) (inner around))
  (hcomment : room ≠ 0 → ∀ around s text, s.current.kind = .comment text →
    inner around s = .ok ([.comment text], s.advance))
include hinner hcomment

theorem follows_block (around : Surroundings) (m n : Nat) :
    Follows E (OnLine next blocks m n) (sameCode (BetweenLines next blocks m n))
      (block room inner around) (block room inner around) := by
  refine .expectOp (Annotated.passes_token rfl rfl).within ?_
  cases room with
  | zero => exact .of_error fun _ _ heq => nomatch heq
  | succ room =>
    have hroom : room + 1 ≠ 0 := Nat.succ_ne_zero room
    exact .descend (follows_suite (hinner hroom) (hcomment hroom) _ around m n)

theorem follows_function (m n : Nat) :
    Follows E (starting (AtLine next blocks (m + 1) (n + 1)) (.name "def"))
      (sameStmt (BetweenLines next blocks m n)) (function room inner) (function room inner) := by
  have hblock := @follows_block E next blocks _ inner hinner hcomment .function m n
  refine .advance nofun (Annotated.passes_first rfl rfl).below ?_
  refine .bind_same (.functionName fun x => (Annotated.passes_token rfl rfl).within)
    fun name => follows_local (local_parameters _) fun params => ?_
  exact .map hblock fun _ _ _ _ h =>
    ⟨congrArg (fun body => [Stmt.function name params body]) h.1, h.2⟩

theorem follows_forEach (around : Surroundings) (m n : Nat) :
    Follows E (starting (AtLine next blocks (m + 1) (n + 1)) (.name "for"))
      (sameStmt (BetweenLines next blocks m n)) (forEach room inner around)
      (forEach room inner around) := by
  have hblock := @follows_block E next blocks _ inner hinner hcomment around.loop m n
  refine .advance nofun (Annotated.passes_first rfl rfl).below ?_
  refine follows_local local_loopPattern fun names => follows_local (local_expectWord _) fun _ => ?_
  refine follows_local (local_expr room) fun iterable => ?_
  exact .map hblock fun _ _ _ _ h =>
    ⟨congrArg (fun body => [Stmt.forEach names iterable body]) h.1, h.2⟩

theorem follows_whileLoop (around : Surroundings) (m n : Nat) :
    Follows E (starting (AtLine next blocks (m + 1) (n + 1)) (.name "while"))
      (sameStmt (BetweenLines next blocks m n)) (whileLoop room inner around)
      (whileLoop room inner around) := by
  have hblock := @follows_block E next blocks _ inner hinner hcomment around.loop m n
  refine .advance nofun (Annotated.passes_first rfl rfl).below ?_
  refine follows_local (local_expr room) fun condition => ?_
  exact .map hblock fun _ _ _ _ h =>
    ⟨congrArg (fun body => [Stmt.while condition body]) h.1, h.2⟩

theorem follows_guarded (around : Surroundings) (m n : Nat) :
    Follows E (OnLine next blocks m n)
      (fun a b xs ys => (a.1 = b.1 ∧ Stmt.SameCode a.2 b.2) ∧ BetweenLines next blocks m n xs ys)
      (guarded room inner around) (guarded room inner around) := by
  have hblock := @follows_block E next blocks room inner hinner hcomment around m n
  refine follows_local (local_expr room) fun condition => ?_
  exact .map hblock fun _ _ _ _ h => ⟨⟨rfl, h.1⟩, h.2⟩

/-- A round of the loop that reads the arms of a conditional statement behind the first one. -/
def armsRound (room : Nat) (inner : Surroundings → Parser (List Stmt)) (around : Surroundings) :
    Parser (Next (Expr × List Stmt)) := do
  if ← eat (.name "elif") then
    return .more (← guarded room inner around)
  else
    return .stop

theorem follows_arms (around : Surroundings)
    (hnext : ∀ rest, next = some rest → rest.headD .eof ≠ .name "elif") (m n : Nat) :
    Follows E (BetweenLines next blocks m n)
      (fun as bs xs ys =>
        List.Forall₂ (fun a b => a.1 = b.1 ∧ Stmt.SameCode a.2 b.2) as bs ∧
          BetweenLines next blocks m n xs ys)
      (collect (armsRound room inner around)) (collect (armsRound room inner around)) := by
  have hround (m n : Nat) : Follows E
      (fun xs ys => BetweenLines next blocks (m + 1) (n + 1) xs ys ∧ ¬xs.headD .eof ≠ .name "elif")
      (fun a b xs ys => (∃ x y, a = .more x ∧ b = .more y ∧ x.1 = y.1 ∧ Stmt.SameCode x.2 y.2) ∧
        BetweenLines next blocks m n xs ys)
      (armsRound room inner around) (armsRound room inner around) := by
    have hguarded := @follows_guarded E next blocks room inner hinner hcomment around m n
    refine .eat nofun ((Annotated.passes_alternative (.inl rfl)).below.weaken fun _ _ => And.left)
      (fun xs ys h _ => not_not.1 h.2) (.map hguarded fun a b _ _ h => ?_)
      (.of_empty (.pure _) fun xs ys h => h.1.2 h.2)
    exact ⟨⟨a, b, rfl, rfl, h.1⟩, h.2⟩
  have hcollect := @Follows.collect _ E (Annotated next .between blocks)
    (armsRound room inner around) (· ≠ .name "elif") _ (fun s hs => eat_of_ne hs) hround
    (fun xs ys h => h.headD_ne (.inl rfl) hnext) m n
  exact hcollect.mono (fun _ _ => id) fun as bs xs ys h => ⟨h.1, h.2.1⟩

/-- Reads the last arm of a conditional statement, and yields all of it. -/
def lastArm (room : Nat) (inner : Surroundings → Parser (List Stmt)) (around : Surroundings)
    (arms : List (Expr × List Stmt)) : Parser Stmt := do
  let last ← if ← eat (.name "else") then some <$> block room inner around else pure none
  return .cond (Arms.ofList arms last)

theorem follows_lastArm (around : Surroundings)
    (hnext : ∀ rest, next = some rest → rest.headD .eof ≠ .name "else")
    {arms arms' : List (Expr × List Stmt)}
    (harms : List.Forall₂ (fun a b => a.1 = b.1 ∧ Stmt.SameCode a.2 b.2) arms arms') (m n : Nat) :
    Follows E (BetweenLines next blocks m n) (sameStmt (BetweenLines next blocks m n))
      (lastArm room inner around arms) (lastArm room inner around arms') := by
  have hblock := @follows_block E next blocks room inner hinner hcomment around m n
  have hcond {last last' : Option (List Stmt)} (h : Option.Rel Stmt.SameCode last last') :
      (Stmt.cond (Arms.ofList arms last)).uncommented =
        (Stmt.cond (Arms.ofList arms' last')).uncommented :=
    congrArg (fun arms => [Stmt.cond arms]) (Arms.uncommented_ofList harms h)
  have hlast : Follows E (OnLine next blocks m n)
      (fun a b xs ys => Option.Rel Stmt.SameCode a b ∧ BetweenLines next blocks m n xs ys)
      (some <$> block room inner around) (some <$> block room inner around) :=
    .map hblock fun _ _ _ _ h => ⟨.some h.1, h.2⟩
  have hsome : Follows E (OnLine next blocks m n) (sameStmt (BetweenLines next blocks m n))
      (do return .cond (Arms.ofList arms (← some <$> block room inner around)))
      (do return .cond (Arms.ofList arms' (← some <$> block room inner around))) :=
    .bind hlast fun _ _ => .pure fun _ _ h => ⟨hcond h.1, h.2⟩
  refine .eat nofun (Annotated.passes_alternative (.inr rfl)).within (fun xs ys h hy => ?_) hsome
    (.pure fun _ _ h => ⟨hcond .none, h.1⟩)
  by_contra hne
  exact h.1.headD_ne (.inr rfl) hnext hne hy

theorem follows_conditional (around : Surroundings)
    (hnext : ∀ rest, next = some rest →
      rest.headD .eof ≠ .name "elif" ∧ rest.headD .eof ≠ .name "else") (m n : Nat) :
    Follows E (starting (AtLine next blocks (m + 1) (n + 1)) (.name "if"))
      (sameStmt (BetweenLines next blocks m n)) (conditional room inner around)
      (conditional room inner around) := by
  have hguarded := @follows_guarded E next blocks room inner hinner hcomment around m n
  have hlast {arms arms' : List (Expr × List Stmt)} :=
    @follows_lastArm E next blocks room inner hinner hcomment around
      (fun rest h => (hnext rest h).2) arms arms'
  have hrest {first first' : Expr × List Stmt}
      (hfirst : first.1 = first'.1 ∧ Stmt.SameCode first.2 first'.2) :
      Follows E (BetweenLines next blocks m n) (sameStmt (BetweenLines next blocks m n)) (do
        let further ← collect (armsRound room inner around)
        lastArm room inner around (first :: further)) (do
        let further ← collect (armsRound room inner around)
        lastArm room inner around (first' :: further)) := by
    refine .bind (follows_arms hinner hcomment around (fun rest h => (hnext rest h).1) m n)
      fun further further' => .of_prop ?_ fun hfurther => hlast (.cons hfirst hfurther) m n
    exact (hlast (List.forall₂_same.2 fun _ _ => ⟨rfl, .refl _⟩) m n).grows
  refine .advance nofun (Annotated.passes_first rfl rfl).below ?_
  refine .bind hguarded fun first first' => ?_
  exact .of_prop (hrest ⟨rfl, .refl first.2⟩).grows hrest

theorem follows_statement (around : Surroundings)
    (hnext : ∀ rest, next = some rest →
      rest.headD .eof ≠ .name "elif" ∧ rest.headD .eof ≠ .name "else") (m n : Nat) :
    Follows E
      (fun xs ys => AtLine next blocks (m + 1) (n + 1) xs ys ∧
        xs.headD .eof ≠ .eof ∧ xs.headD .eof ≠ .dedent)
      (sameCode (BetweenLines next blocks m n)) (statement room inner around)
      (statement room inner around) := by
  have hstmt {p : Parser Stmt} {k : TokenKind}
      (h : Follows E (starting (AtLine next blocks (m + 1) (n + 1)) k)
        (sameStmt (BetweenLines next blocks m n)) p p) : Follows E
      (starting (fun xs ys => AtLine next blocks (m + 1) (n + 1) xs ys ∧
        xs.headD .eof ≠ .eof ∧ xs.headD .eof ≠ .dedent) k)
      (sameCode (BetweenLines next blocks m n)) (do return [← p]) (do return [← p]) :=
    .map (h.weaken fun _ _ h => ⟨h.1.1, h.2⟩) fun a b _ _ h =>
      ⟨congrArg (· ++ Stmt.allUncommented []) h.1, h.2⟩
  refine .peek (fun xs ys h => h.1.1.headD_eq h.2.1) fun k => ?_
  split
  · refine .advance nofun ((Annotated.passes_comment _).below.weaken fun _ _ => And.left) ?_
    exact .pure fun _ _ h => ⟨.refl _, h⟩
  · exact .of_empty (Follows.grows_advance (.pure _)) fun xs ys h => h.1.1.1.headD_ne_newline h.2
  · exact .of_error nofun
  · exact hstmt (follows_function hinner hcomment m n)
  · exact hstmt (follows_forEach hinner hcomment around m n)
  · exact hstmt (follows_whileLoop hinner hcomment around m n)
  · exact hstmt (follows_conditional hinner hcomment around hnext m n)
  · exact .of_error nofun
  · exact .of_error nofun
  · next hcomment hnewline hindent _ _ _ _ _ _ =>
    have hlayout (h : k ≠ .eof) (h' : k ≠ .dedent) : k.isLayout = false := by
      cases k with
      | comment text => exact absurd rfl (hcomment text)
      | newline => exact absurd rfl hnewline
      | indent => exact absurd rfl hindent
      | dedent => exact absurd rfl h'
      | eof => exact absurd rfl h
      | _ => rfl
    refine (follows_simpleLine room around m n).weaken fun xs ys h => ?_
    obtain ⟨⟨⟨hxy, hm, hn⟩, hend, hblock⟩, rfl⟩ := h
    exact ⟨hxy.of_token (hlayout hend hblock), hm, hn⟩

end Statements

/-- A comment is a statement of its own. -/
theorem statementAt_comment (room : Nat) (around : Surroundings) (s : TokenStream) (text : String)
    (h : s.current.kind = .comment text) :
    statementAt room around s = .ok ([.comment text], s.advance) := by
  cases room with
  | zero => exact peek_of_eq h
  | succ room => exact peek_of_eq h

theorem follows_statementAt
    (hnext : ∀ rest, next = some rest →
      rest.headD .eof ≠ .name "elif" ∧ rest.headD .eof ≠ .name "else") (room : Nat)
    (around : Surroundings) (blocks m n : Nat) :
    Follows E
      (fun xs ys => AtLine next blocks (m + 1) (n + 1) xs ys ∧
        xs.headD .eof ≠ .eof ∧ xs.headD .eof ≠ .dedent)
      (sameCode (BetweenLines next blocks m n)) (statementAt room around)
      (statementAt room around) := by
  induction room generalizing around blocks m n with
  | zero => exact follows_statement (fun h => absurd rfl h) (fun h => absurd rfl h) around hnext m n
  | succ room ih =>
    exact follows_statement (fun _ => ih) (fun _ => statementAt_comment room) around hnext m n

end Indented

end Labyrinth
