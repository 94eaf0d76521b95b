import Labyrinth.Proofs.Language.Continuations
import Labyrinth.Proofs.Language.Positions

/-!
# The layout among the tokens

The tokens of a source of the indented dialect are in a **regular** order. Blocks are closed after
they have been opened, a line is ended only behind a token that stands on it, and nothing of the
layout stands inside brackets. Only the end of the source is different: there the last line is ended
and all blocks are closed, even if brackets are open.

Scanning keeps track of the brackets and of the blocks that are open. `Regular` states what can
follow then, and all else is derived from it.

## Main results

* `countP_le_depthThrough`: how the number of open brackets is bounded by the brackets themselves.
* `regular_scan`: the tokens from any place in a source.
* `laidOut_tokens`: the tokens of a whole source.
-/

namespace Labyrinth

/-! ### Brackets -/

namespace TokenKind

/-- Whether a token opens a bracket. -/
def opensBracket (k : TokenKind) : Bool := k ∈ [op "(", op "[", op "\x7b"]

/-- Whether a token closes a bracket. -/
def closesBracket (k : TokenKind) : Bool := k ∈ [op ")", op "]", op "\x7d"]

end TokenKind

theorem Reader.StandsIn.position_of_rest {source : List Char} {r : Reader}
    (h : r.StandsIn source) (hrest : r.rest = []) : r.position = Position.start.after source := by
  obtain ⟨before, rfl, hposition⟩ := h
  rw [hposition, hrest, List.append_nil]

namespace Indented

theorem le_depthAfter (k : TokenKind) (depth : Nat) :
    depth + (if k.opensBracket then 1 else 0) ≤
      depthAfter k depth + (if k.closesBracket then 1 else 0) := by
  have hcloses : depth ≤ depth - 1 + 1 := by omega
  fun_cases depthAfter k depth with
  | case1 => exact Nat.le_add_right _ _
  | case2 => exact Nat.le_add_right _ _
  | case3 => exact Nat.le_add_right _ _
  | case4 => exact hcloses
  | case5 => exact hcloses
  | case6 => exact hcloses
  | case7 k hround hsquare hcurly =>
    have hopens : ¬k.opensBracket = true := by
      simp only [TokenKind.opensBracket, List.mem_cons, List.not_mem_nil, or_false, not_or,
        decide_eq_true_eq]
      exact ⟨hround, hsquare, hcurly⟩
    rw [if_neg hopens]
    exact Nat.le_add_right _ _

/-- A bracket that closes nothing is passed over, so that more brackets may be open than the
brackets themselves account for, but not fewer. -/
theorem countP_le_depthThrough (ks : List TokenKind) (depth : Nat) :
    depth + ks.countP TokenKind.opensBracket ≤
      depthThrough ks depth + ks.countP TokenKind.closesBracket := by
  induction ks generalizing depth with
  | nil => exact Nat.le_refl depth
  | cons k ks ih =>
    have hk := le_depthAfter k depth
    have hks := ih (depthAfter k depth)
    rw [List.countP_cons, List.countP_cons, depthThrough_cons]
    omega

/-! ### Regular sequences -/

/-- The tokens that can follow in a source that ends at `e`. `line` is the number of brackets that
are open on the line, if a token stands on it, and `blocks` the number of open blocks. -/
inductive Regular (e : Position) : Option Nat → Nat → List Token → Prop
  | token {line : Option Nat} {blocks : Nat} {t : Token} {ts : List Token}
    (ht : t.kind.isLayout = false)
    (h : Regular e (some (depthAfter t.kind (line.getD 0))) blocks ts) :
    Regular e line blocks (t :: ts)
  | newline {blocks : Nat} {p : Position} {ts : List Token} (h : Regular e none blocks ts) :
    Regular e (some 0) blocks (⟨.newline, p⟩ :: ts)
  | comment {blocks : Nat} {text : String} {p : Position} {ts : List Token}
    (h : Regular e none blocks ts) : Regular e none blocks (⟨.comment text, p⟩ :: ts)
  | indent {blocks : Nat} {p : Position} {ts : List Token} (h : Regular e none (blocks + 1) ts) :
    Regular e none blocks (⟨.indent, p⟩ :: ts)
  | dedent {blocks : Nat} {p : Position} {ts : List Token} (h : Regular e none blocks ts) :
    Regular e none (blocks + 1) (⟨.dedent, p⟩ :: ts)
  /-- The source may end within brackets. -/
  | finish (depth : Nat) (pending : Bool) (indents : List Nat) :
    Regular e (Place.inLine depth pending).line indents.length (finish indents pending e)

section Scan

variable {e p : Position} {blocks : Nat} {ts : List Token} {indents indents' : List Nat}

theorem Regular.lineEnd (h : Regular e none blocks ts) (pending : Bool) :
    Regular e (Place.inLine 0 pending).line blocks (lineEnd pending p ++ ts) := by
  cases pending with
  | false => exact h
  | true => exact .newline h

theorem Regular.dedents (h : Regular e none blocks ts) (n : Nat) :
    Regular e none (n + blocks) (List.replicate n ⟨.dedent, p⟩ ++ ts) := by
  induction n with
  | zero => rwa [Nat.zero_add]
  | succ n ih =>
    rw [Nat.succ_add]
    exact .dedent ih

theorem Regular.align {w : Nat} {layout : List Token}
    (halign : align w indents p = .ok (layout, indents')) (h : Regular e none indents'.length ts) :
    Regular e none indents.length (layout ++ ts) := by
  obtain ⟨-, rfl, rfl⟩ | ⟨closed, rfl, rfl, -⟩ := align_cases halign
  · exact .indent h
  · rw [List.length_append]
    exact h.dedents closed.length

/-- From any place in a source, a scan yields tokens that can follow there. -/
theorem regular_scan {source : List Char} {place : Place} {r : Reader} (hr : r.StandsIn source)
    (hplace : place.Settled) (h : scan place indents r = .ok ts) :
    Regular (Position.start.after source) place.line indents.length ts := by
  fun_induction scan place indents r generalizing ts with
  | case1 indents r hnil =>
    cases h
    have hbody : (lineBody r).StandsIn source := hr.takeWhile _
    rw [hbody.position_of_rest hnil]
    exact .finish 0 false indents
  | case2 indents r cs hrest ih =>
    have hbody : (lineBody r).StandsIn source := hr.takeWhile _
    exact ih (hbody.skip 1) trivial h
  | case3 indents r cs hrest ih =>
    obtain ⟨ts, hts, h⟩ := bind_eq_ok_iff.1 h
    cases h
    have hbody : (lineBody r).StandsIn source := hr.takeWhile _
    exact .comment (ih (((hbody.skip 1).takeWhile _).skip 1) trivial hts)
  | case4 indents r hnil hbreak hcomment ih =>
    obtain ⟨⟨layout, indents'⟩, halign, h⟩ := bind_eq_ok_iff.1 h
    obtain ⟨ts, hts, h⟩ := bind_eq_ok_iff.1 h
    cases h
    exact (ih (layout, indents') (hr.takeWhile _) (fun _ => rfl) hts).align halign
  | case5 indents r depth pending hnil =>
    cases h
    rw [hr.position_of_rest hnil]
    exact .finish depth pending indents
  | case6 indents r pending cs hrest ih =>
    obtain ⟨ts, hts, h⟩ := bind_eq_ok_iff.1 h
    cases h
    exact (ih (hr.skip 1) trivial hts).lineEnd pending
  | case7 indents r depth pending cs hrest hdepth ih => exact ih (hr.skip 1) hplace h
  | case8 indents r depth pending cs hrest ih => exact ih (hr.takeWhile _) hplace h
  | case9 indents r depth pending cs hrest ih => exact ih (hr.skip 2) hplace h
  | case10 indents r depth pending c cs hbreak hcomment hjoined hrest hspacing ih =>
    exact ih (hr.skip 1) hplace h
  | case11 => cases h
  | case12 indents r depth pending c cs hbreak hcomment hjoined hrest hspacing kind after htoken
      ih =>
    obtain ⟨ts, hts, h⟩ := bind_eq_ok_iff.1 h
    cases h
    have hafter := hr.token operators
    rw [htoken] at hafter
    -- The first token of a line finds no brackets open, since none are open between lines.
    have hdepth : (Place.inLine depth pending).line.getD 0 = depth := by
      cases pending with
      | false => exact (hplace rfl).symm
      | true => rfl
    refine .token (Reader.isLayout_token htoken) ?_
    rw [hdepth]
    exact ih hafter (by simp [Place.Settled]) hts

end Scan

/-! ### Blocks -/

/-- No block is closed before it has been opened, and all blocks are closed. Before the tokens,
`blocks` blocks are open. -/
structure Nested (blocks : Nat) (ks : List TokenKind) : Prop where
  le : ∀ before, before <+: ks → before.count .dedent ≤ before.count .indent + blocks
  eq : ks.count .dedent = ks.count .indent + blocks

theorem Nested.cons {m n : Nat} {k : TokenKind} {ks : List TokenKind} (h : Nested n ks)
    (hk : m + (if k == .indent then 1 else 0) = n + (if k == .dedent then 1 else 0)) :
    Nested m (k :: ks) := by
  constructor
  · intro before hbefore
    obtain rfl | ⟨before, rfl, hprefix⟩ := List.prefix_cons_iff.1 hbefore
    · exact Nat.zero_le _
    · have hle := h.le before hprefix
      rw [List.count_cons, List.count_cons]
      omega
  · have heq := h.eq
    rw [List.count_cons, List.count_cons]
    omega

theorem nested_finish (indents : List Nat) (pending : Bool) (e : Position) :
    Nested indents.length ((finish indents pending e).map Token.kind) := by
  have hdedent : ((finish indents pending e).map Token.kind).count .dedent = indents.length := by
    rw [map_finish]
    cases pending <;> simp [lineEndKinds]
  have hindent : ((finish indents pending e).map Token.kind).count .indent = 0 := by
    rw [map_finish]
    cases pending <;> simp [lineEndKinds, List.count_replicate]
  refine ⟨fun before hbefore => ?_, by rw [hdedent, hindent, Nat.zero_add]⟩
  calc before.count .dedent
      ≤ ((finish indents pending e).map Token.kind).count .dedent := hbefore.sublist.count_le _
    _ = indents.length := hdedent
    _ ≤ before.count .indent + indents.length := Nat.le_add_left _ _

section Regular

variable {e : Position} {line : Option Nat} {blocks : Nat} {ts : List Token}

theorem Regular.nested (h : Regular e line blocks ts) : Nested blocks (ts.map Token.kind) := by
  induction h with
  | @token _ _ t _ ht _ ih =>
    have hindent : t.kind ≠ .indent := fun heq => by cases heq ▸ ht
    have hdedent : t.kind ≠ .dedent := fun heq => by cases heq ▸ ht
    exact ih.cons (by rw [beq_false_of_ne hindent, beq_false_of_ne hdedent])
  | newline _ ih => exact ih.cons rfl
  | comment _ ih => exact ih.cons rfl
  | indent _ ih => exact ih.cons rfl
  | dedent _ ih => exact ih.cons rfl
  | finish _ pending indents => exact nested_finish indents pending e

/-! ### Line ends -/

theorem ne_newline_of_mem {n : Nat} {k : TokenKind}
    (h : k ∈ List.replicate n TokenKind.dedent ++ [.eof]) : k ≠ .newline := by
  rcases List.mem_append.1 h with h | h
  · rw [List.eq_of_mem_replicate h]
    exact nofun
  · rw [List.mem_singleton.1 h]
    exact nofun

/-- Where no token stands on the line, there is nothing to end. -/
theorem Regular.head?_ne (h : Regular e line blocks ts) (hline : line = none) :
    (ts.map Token.kind).head? ≠ some .newline := by
  cases h with
  | token ht => exact fun heq => by cases Option.some.inj heq ▸ ht
  | newline => cases hline
  | comment => exact nofun
  | indent => exact nofun
  | dedent => exact nofun
  | finish depth pending indents =>
    cases pending with
    | true => cases hline
    | false =>
      rw [map_finish]
      exact fun heq => ne_newline_of_mem (List.mem_of_mem_head? heq) rfl

/-- Whether a token can stand behind another one: a line is ended behind its tokens only. -/
def MayFollow (k k' : TokenKind) : Prop := k' = .newline → k.isLayout = false

theorem Regular.isChain (h : Regular e line blocks ts) :
    (ts.map Token.kind).IsChain MayFollow := by
  have hcons {k : TokenKind} {blocks : Nat} {ts : List Token} (h : Regular e none blocks ts)
      (ih : (ts.map Token.kind).IsChain MayFollow) : (k :: ts.map Token.kind).IsChain MayFollow :=
    List.isChain_cons.2 ⟨fun k' hk' heq => absurd (heq ▸ hk') (h.head?_ne rfl), ih⟩
  induction h with
  | token ht _ ih => exact List.isChain_cons.2 ⟨fun _ _ _ => ht, ih⟩
  | newline h ih => exact hcons h ih
  | comment h ih => exact hcons h ih
  | indent h ih => exact hcons h ih
  | dedent h ih => exact hcons h ih
  | finish depth pending indents =>
    have hend : List.IsChain MayFollow (List.replicate indents.length .dedent ++ [.eof]) :=
      (List.pairwise_of_forall_mem_list fun _ _ k hk heq =>
        absurd heq (ne_newline_of_mem hk)).isChain
    rw [map_finish, List.append_assoc]
    cases pending with
    | false => exact hend
    | true =>
      exact List.isChain_cons.2
        ⟨fun k hk heq => absurd heq (ne_newline_of_mem (List.mem_of_mem_head? hk)), hend⟩

/-! ### Layout and brackets -/

/-- The layout among the tokens stands outside brackets. Before the tokens, `depth` brackets are
open. -/
def Unbracketed (depth : Nat) (ks : List TokenKind) : Prop :=
  ∀ before k after, ks = before ++ k :: after → k.isLayout = true → depthThrough before depth = 0

theorem Unbracketed.nil (depth : Nat) : Unbracketed depth [] := by
  intro before k after h
  simp at h

theorem Unbracketed.cons {depth : Nat} {k : TokenKind} {ks : List TokenKind}
    (hk : k.isLayout = true → depth = 0) (h : Unbracketed (depthAfter k depth) ks) :
    Unbracketed depth (k :: ks) := by
  intro before k' after heq hk'
  cases before with
  | nil =>
    cases heq
    exact hk hk'
  | cons b before =>
    obtain ⟨rfl, hks⟩ := List.cons.inj heq
    exact h before k' after hks hk'

/-- Where no bracket is open, all brackets that have been opened since there was none before are
closed. -/
theorem Unbracketed.countP_le {ks before since after : List TokenKind} {k : TokenKind}
    (h : Unbracketed 0 ks) (hks : ks = before ++ since ++ k :: after) (hk : k.isLayout = true)
    (hbefore : depthThrough before 0 = 0) :
    since.countP TokenKind.opensBracket ≤ since.countP TokenKind.closesBracket := by
  have hdepth := h _ k after hks hk
  rw [depthThrough_append, hbefore] at hdepth
  have hle := countP_le_depthThrough since 0
  omega

/-- There are some tokens, and then those at the end of the source. The layout among the former
stands outside brackets. Before the tokens, `depth` brackets are open. -/
def Finishes (e : Position) (depth : Nat) (ts : List Token) : Prop :=
  ∃ body indents pending, ts = body ++ finish indents pending e ∧
    (∀ t ∈ body, t.kind ≠ .eof) ∧ Unbracketed depth (body.map Token.kind)

theorem Finishes.cons {depth : Nat} {t : Token} (h : Finishes e (depthAfter t.kind depth) ts)
    (ht : t.kind ≠ .eof) (hlayout : t.kind.isLayout = true → depth = 0) :
    Finishes e depth (t :: ts) := by
  obtain ⟨body, indents, pending, rfl, heof, hbody⟩ := h
  exact ⟨t :: body, indents, pending, rfl, List.forall_mem_cons.2 ⟨ht, heof⟩, hbody.cons hlayout⟩

theorem Finishes.exists_eof {depth : Nat} (h : Finishes e depth ts) :
    ∃ us, ts = us ++ [⟨.eof, e⟩] ∧ ∀ u ∈ us, u.kind ≠ .eof := by
  obtain ⟨body, indents, pending, rfl, heof, -⟩ := h
  refine ⟨body ++ (lineEnd pending e ++ List.replicate indents.length ⟨.dedent, e⟩),
    (List.append_assoc ..).symm, ?_⟩
  refine List.forall_mem_append.2 ⟨heof, List.forall_mem_append.2 ⟨fun u hu => ?_, fun u hu => ?_⟩⟩
  · cases pending with
    | false => cases hu
    | true =>
      rw [List.mem_singleton.1 hu]
      exact nofun
  · rw [List.eq_of_mem_replicate hu]
    exact nofun

theorem Regular.finishes (h : Regular e line blocks ts) : Finishes e (line.getD 0) ts := by
  induction h with
  | @token _ _ t _ ht _ ih =>
    have hkind : t.kind ≠ .eof := fun heq => by cases heq ▸ ht
    exact ih.cons hkind fun hlayout => absurd (ht.symm.trans hlayout) nofun
  | newline _ ih => exact ih.cons nofun fun _ => rfl
  | comment _ ih => exact ih.cons nofun fun _ => rfl
  | indent _ ih => exact ih.cons nofun fun _ => rfl
  | dedent _ ih => exact ih.cons nofun fun _ => rfl
  | finish _ pending indents =>
    exact ⟨[], indents, pending, rfl, List.forall_mem_nil _, .nil _⟩

end Regular

/-! ### Sources -/

/-- The order of the tokens of a source. -/
structure LaidOut (source : String) (ts : List Token) : Prop where
  nested : Nested 0 (ts.map Token.kind)
  /-- The end of the source is marked once, behind all other tokens. -/
  eof : ∃ us p, ts = us ++ [⟨.eof, p⟩] ∧ ∀ u ∈ us, u.kind ≠ .eof
  /-- No line is ended before the first token. -/
  head?_ne : (ts.map Token.kind).head? ≠ some .newline
  isChain : (ts.map Token.kind).IsChain MayFollow
  /-- Apart from the tokens with which the end of the source is marked, no layout stands where,
  since some point at which no bracket was open, more brackets have been opened than closed. -/
  outside : ∃ body indents pending,
    ts = body ++ finish indents pending (Position.start.after source.toList) ∧
    ∀ before since t after, body = before ++ since ++ t :: after → t.kind.isLayout = true →
      depthThrough (before.map Token.kind) 0 = 0 →
      (since.map Token.kind).countP TokenKind.opensBracket ≤
        (since.map Token.kind).countP TokenKind.closesBracket

theorem laidOut_tokens {source : String} {ts : List Token} (h : tokens source = .ok ts) :
    LaidOut source ts := by
  have hsettled : Place.lineStart.Settled := trivial
  have hregular : Regular _ none 0 ts := regular_scan (.ofString source) hsettled h
  obtain ⟨us, hts, hus⟩ := hregular.finishes.exists_eof
  refine ⟨hregular.nested, ⟨us, _, hts, hus⟩, hregular.head?_ne rfl, hregular.isChain, ?_⟩
  obtain ⟨body, indents, pending, hbody, -, houtside⟩ := hregular.finishes
  refine ⟨body, indents, pending, hbody, fun before since t after heq ht hbefore => ?_⟩
  have hkinds : body.map Token.kind =
      before.map Token.kind ++ since.map Token.kind ++ t.kind :: after.map Token.kind := by
    rw [heq, List.map_append, List.map_append, List.map_cons]
  exact houtside.countP_le hkinds ht hbefore

/-- A source with a bracket that closes nothing, a blank line, a comment, and a bracket that is open
where the source ends within a block. -/
def unclosedBlock : String := "if a:\n  b = [1,\n 2]\n\n # c\n  d) = (e\n# f"

/-- Its tokens. The last three of them stand behind the last character. -/
def unclosedBlockTokens : List Token := [
  ⟨.name "if", ⟨1, 1⟩⟩, ⟨.name "a", ⟨1, 4⟩⟩, ⟨.op ":", ⟨1, 5⟩⟩, ⟨.newline, ⟨1, 6⟩⟩,
  ⟨.indent, ⟨2, 3⟩⟩, ⟨.name "b", ⟨2, 3⟩⟩, ⟨.op "=", ⟨2, 5⟩⟩, ⟨.op "[", ⟨2, 7⟩⟩, ⟨.int 1, ⟨2, 8⟩⟩,
  ⟨.op ",", ⟨2, 9⟩⟩, ⟨.int 2, ⟨3, 2⟩⟩, ⟨.op "]", ⟨3, 3⟩⟩, ⟨.newline, ⟨3, 4⟩⟩,
  ⟨.comment " c", ⟨5, 2⟩⟩,
  ⟨.name "d", ⟨6, 3⟩⟩, ⟨.op ")", ⟨6, 4⟩⟩, ⟨.op "=", ⟨6, 6⟩⟩, ⟨.op "(", ⟨6, 8⟩⟩, ⟨.name "e", ⟨6, 9⟩⟩,
  ⟨.newline, ⟨7, 4⟩⟩, ⟨.dedent, ⟨7, 4⟩⟩, ⟨.eof, ⟨7, 4⟩⟩]

theorem tokens_unclosedBlock : tokens unclosedBlock = .ok unclosedBlockTokens := by cbv

/-- Its last line is ended and its block is closed behind the bracket that is still open. -/
theorem laidOut_tokens_unclosedBlock :
    tokens unclosedBlock = .ok unclosedBlockTokens ∧ LaidOut unclosedBlock unclosedBlockTokens :=
  ⟨tokens_unclosedBlock, laidOut_tokens tokens_unclosedBlock⟩

end Indented

end Labyrinth
