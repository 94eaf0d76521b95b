import Labyrinth.Proofs.Language.Continuations
import Labyrinth.Proofs.Language.LineEnds
import Labyrinth.Proofs.Language.Positions

/-!
# Outcomes of scanning

The **outcome** of scanning a source consists of the kinds of its tokens, or of the cause of the
first error. It does not depend on positions, and so neither the place where a reader stands nor
what it has read before matter to it.

## Main results

* `Indented.outcome_scan`, `Braced.outcome_scan`: outcomes depend on the characters that are left.
* `Indented.kindsFrom_token`, `Braced.kindsFrom_token` and their companions: outcomes step by step.
-/

namespace Labyrinth

/-- The kinds of the tokens of a source, or the cause of the error in it. -/
def outcome : Except SyntaxError (List Token) → Except SyntaxCause (List TokenKind)
  | .error e => .error e.cause
  | .ok ts => .ok (ts.map Token.kind)

theorem outcome_eq_ok_iff {x : Except SyntaxError (List Token)} {ks : List TokenKind} :
    outcome x = .ok ks ↔ ∃ ts, x = .ok ts ∧ ts.map Token.kind = ks := by
  cases x with
  | error e => simp [outcome]
  | ok ts => simp [outcome]

theorem outcome_append (us : List Token) (x : Except SyntaxError (List Token)) :
    outcome (do
      let ts ← x
      return us ++ ts) = (outcome x).map (us.map Token.kind ++ ·) := by
  cases x with
  | error e => rfl
  | ok ts => exact congrArg Except.ok (List.map_append ..)

theorem outcome_cons (t : Token) (x : Except SyntaxError (List Token)) :
    outcome (do
      let ts ← x
      return t :: ts) = (outcome x).map (t.kind :: ·) := outcome_append [t] x

/-- What has not been read is the end of the source. -/
theorem nextToken_suffix {operators : List String} {cs rest : List Char} {kind : TokenKind}
    (h : nextToken operators cs = .ok (kind, rest)) : rest <:+ cs := by
  obtain ⟨after, htoken, rfl⟩ := nextToken_eq_ok_iff (r := ⟨cs, Position.start⟩).1 h
  have hreads := (show Reader.StandsIn cs ⟨cs, Position.start⟩ from ⟨[], rfl, rfl⟩).token operators
  rw [htoken] at hreads
  obtain ⟨before, hcs, -⟩ := hreads
  exact ⟨before, hcs.symm⟩

theorem nextToken_length_lt {operators : List String} (hops : ∀ op ∈ operators, 0 < op.length)
    {cs rest : List Char} {kind : TokenKind} (h : nextToken operators cs = .ok (kind, rest)) :
    rest.length < cs.length := by
  obtain ⟨after, htoken, rfl⟩ := nextToken_eq_ok_iff (r := ⟨cs, Position.start⟩).1 h
  exact Reader.token_length_lt hops htoken

theorem isLayout_nextToken {operators : List String} {cs rest : List Char} {kind : TokenKind}
    (h : nextToken operators cs = .ok (kind, rest)) : kind.isLayout = false := by
  obtain ⟨after, htoken, -⟩ := nextToken_eq_ok_iff (r := ⟨cs, Position.start⟩).1 h
  exact Reader.isLayout_token htoken

/-- The text of a comment, up to the end of its line. -/
def lineText (cs : List Char) : String :=
  String.ofList ((cs.takeWhile (· != '\n')).filter (· != '\r'))

namespace Indented

/-- What stands in front of a line of a certain width, and the blocks that are open then. -/
def alignKinds (w : Nat) (indents : List Nat) : Except SyntaxCause (List TokenKind × List Nat) :=
  if innermost indents < w then
    .ok ([.indent], w :: indents)
  else
    let remaining := indents.dropWhile (w < ·)
    if innermost remaining = w then
      .ok (List.replicate (indents.length - remaining.length) .dedent, remaining)
    else
      .error .badDedent

theorem align_eq (w : Nat) (indents : List Nat) (p : Position) :
    align w indents p =
      match alignKinds w indents with
      | .error cause => .error ⟨p, cause⟩
      | .ok aligned => .ok (aligned.1.map (Token.mk · p), aligned.2) := by
  unfold align alignKinds
  split
  · rfl
  · dsimp only
    split
    · dsimp only
      rw [List.map_replicate]
    · rfl

theorem outcome_align (w : Nat) (indents : List Nat) (p : Position)
    (x : List Nat → Except SyntaxError (List Token)) :
    outcome (do
      let aligned ← align w indents p
      let ts ← x aligned.2
      return aligned.1 ++ ts) = (do
      let aligned ← alignKinds w indents
      (outcome (x aligned.2)).map (aligned.1 ++ ·)) := by
  rw [align_eq]
  cases alignKinds w indents with
  | error cause => rfl
  | ok aligned =>
    have hkinds : (aligned.1.map (Token.mk · p)).map Token.kind = aligned.1 :=
      List.map_map.trans (List.map_id _)
    have happend := outcome_append (aligned.1.map (Token.mk · p)) (x aligned.2)
    rw [hkinds] at happend
    exact happend

variable {place : Place} {indents : List Nat} {r r' : Reader} {depth : Nat} {pending : Bool}

theorem outcome_finish (p : Position) :
    outcome (.ok (finish indents pending p)) =
      .ok (lineEndKinds pending ++ List.replicate indents.length .dedent ++ [.eof]) :=
  congrArg Except.ok (map_finish indents pending p)

/-- Two readers before the same characters. -/
theorem outcome_scan_congr (h : r'.rest = r.rest) :
    outcome (scan place indents r') = outcome (scan place indents r) := by
  fun_induction scan place indents r generalizing r' with
  | case1 indents r hnil =>
    have hbody : (lineBody r').rest = (lineBody r).rest := congrArg (List.dropWhile isSpacing) h
    rw [scan_lineStart_nil (hbody.trans hnil), outcome_finish, outcome_finish]
  | case2 indents r cs hrest ih =>
    have hbody : (lineBody r').rest = (lineBody r).rest := congrArg (List.dropWhile isSpacing) h
    rw [scan_lineStart_break (hbody.trans hrest)]
    exact ih (congrArg (List.drop 1) hbody)
  | case3 indents r cs hrest ih =>
    have hbody : (lineBody r').rest = (lineBody r).rest := congrArg (List.dropWhile isSpacing) h
    have hskip : ((lineBody r').skip 1).rest = ((lineBody r).skip 1).rest :=
      congrArg (List.drop 1) hbody
    have hline : ((lineBody r').skip 1).line.2.rest = ((lineBody r).skip 1).line.2.rest :=
      congrArg (List.dropWhile (· != '\n')) hskip
    have htext : ((lineBody r').skip 1).line.1 = ((lineBody r).skip 1).line.1 :=
      congrArg lineText hskip
    rw [scan_lineStart_comment (hbody.trans hrest), outcome_cons, outcome_cons,
      ih (congrArg (List.drop 1) hline), htext]
  | case4 indents r hnil hbreak hcomment ih =>
    have hbody : (lineBody r').rest = (lineBody r).rest := congrArg (List.dropWhile isSpacing) h
    obtain ⟨c, cs, hrest⟩ := List.exists_cons_of_ne_nil hnil
    rw [scan_lineStart_code (hbody.trans hrest) (fun hc => hbreak cs (hc ▸ hrest)) fun hc =>
      hcomment cs (hc ▸ hrest), h]
    refine (outcome_align _ _ _ fun indents =>
      scan (.inLine 0 false) indents (lineBody r')).trans ?_
    refine .trans ?_
      (outcome_align _ _ _ fun indents => scan (.inLine 0 false) indents (lineBody r)).symm
    exact congrArg _ (funext fun aligned => by rw [ih ([], aligned.2) hbody])
  | case5 indents r depth pending hnil =>
    rw [scan_inLine_nil (h.trans hnil), outcome_finish, outcome_finish]
  | case6 indents r pending cs hrest ih =>
    rw [scan_inLine_break (h.trans hrest), outcome_append, outcome_append, map_lineEnd, map_lineEnd,
      ih (congrArg (List.drop 1) h)]
  | case7 indents r depth pending cs hrest hdepth ih =>
    rw [scan_inLine_within (h.trans hrest) hdepth]
    exact ih (congrArg (List.drop 1) h)
  | case8 indents r depth pending cs hrest ih =>
    rw [scan_inLine_comment (h.trans hrest)]
    exact ih (congrArg (List.dropWhile (· != '\n')) h)
  | case9 indents r depth pending cs hrest ih =>
    rw [scan_inLine_joined (h.trans hrest)]
    exact ih (congrArg (List.drop 2) h)
  | case10 indents r depth pending c cs hbreak hcomment hjoined hrest hspacing ih =>
    rw [scan_inLine_spacing (h.trans hrest) hspacing]
    exact ih (congrArg (List.drop 1) h)
  | case11 indents r depth pending c cs hbreak hcomment hjoined hrest hspacing e htoken =>
    rw [scan_inLine_token (h.trans hrest) hbreak hcomment hjoined hspacing]
    have hnext : nextToken operators r'.rest = .error e.cause :=
      h ▸ nextToken_eq_error_iff.2 ⟨e, htoken, rfl⟩
    obtain ⟨e', htoken', hcause⟩ := nextToken_eq_error_iff.1 hnext
    rw [htoken']
    exact congrArg Except.error hcause
  | case12 indents r depth pending c cs hbreak hcomment hjoined hrest hspacing kind after htoken
      ih =>
    have hnext : nextToken operators r'.rest = .ok (kind, after.rest) :=
      h ▸ nextToken_eq_ok_iff.2 ⟨after, htoken, rfl⟩
    obtain ⟨after', htoken', hafter⟩ := nextToken_eq_ok_iff.1 hnext
    rw [scan_inLine_token (h.trans hrest) hbreak hcomment hjoined hspacing, htoken']
    refine (outcome_cons ⟨kind, r'.position⟩ _).trans ?_
    rw [ih hafter]
    exact (outcome_cons ⟨kind, r.position⟩ _).symm

/-- A backslash begins no token. -/
theorem nextToken_backslash {cs : List Char} {x : TokenKind × List Char} :
    nextToken operators ('\\' :: cs) ≠ .ok x := by
  intro h
  obtain ⟨after, htoken, -⟩ := nextToken_eq_ok_iff (r := ⟨'\\' :: cs, Position.start⟩).1 h
  exact token_backslash rfl htoken

/-! ### Outcomes step by step -/

/-- The outcome of scanning characters, from a place with open blocks. -/
def kindsFrom (place : Place) (indents : List Nat) (cs : List Char) :
    Except SyntaxCause (List TokenKind) :=
  outcome (scan place indents ⟨cs, Position.start⟩)

theorem outcome_scan (place : Place) (indents : List Nat) (r : Reader) :
    outcome (scan place indents r) = kindsFrom place indents r.rest := outcome_scan_congr rfl

/-- What stands at the end of a source. -/
def finishKinds (indents : List Nat) (pending : Bool) : List TokenKind :=
  lineEndKinds pending ++ List.replicate indents.length .dedent ++ [.eof]

section Steps

variable {c : Char} {cs rest : List Char} {kind : TokenKind} {cause : SyntaxCause}

theorem kindsFrom_lineStart_nil (h : cs.dropWhile isSpacing = []) :
    kindsFrom .lineStart indents cs = .ok (finishKinds indents false) :=
  (congrArg outcome (scan_lineStart_nil (r := ⟨cs, Position.start⟩) h)).trans (outcome_finish _)

theorem kindsFrom_lineStart_break (h : cs.dropWhile isSpacing = '\n' :: rest) :
    kindsFrom .lineStart indents cs = kindsFrom .lineStart indents rest :=
  (congrArg outcome (scan_lineStart_break (r := ⟨cs, Position.start⟩) h)).trans
    (outcome_scan_congr (congrArg (List.drop 1) h))

theorem kindsFrom_lineStart_comment (h : cs.dropWhile isSpacing = '#' :: rest) :
    kindsFrom .lineStart indents cs =
      (kindsFrom .lineStart indents ((rest.dropWhile (· != '\n')).drop 1)).map
        (.comment (lineText rest) :: ·) := by
  have hskip : ((lineBody ⟨cs, Position.start⟩).skip 1).rest = rest := congrArg (List.drop 1) h
  refine (congrArg outcome (scan_lineStart_comment (r := ⟨cs, Position.start⟩) h)).trans ?_
  refine (outcome_cons ..).trans ?_
  rw [outcome_scan]
  exact congrArg (fun rest => (kindsFrom .lineStart indents
    ((rest.dropWhile (· != '\n')).drop 1)).map (.comment (lineText rest) :: ·)) hskip

theorem kindsFrom_lineStart_code (h : cs.dropWhile isSpacing = c :: rest) (hbreak : c ≠ '\n')
    (hcomment : c ≠ '#') :
    kindsFrom .lineStart indents cs = (do
      let aligned ← alignKinds (width (cs.takeWhile isSpacing)) indents
      (kindsFrom (.inLine 0 false) aligned.2 (c :: rest)).map (aligned.1 ++ ·)) := by
  refine (congrArg outcome
    (scan_lineStart_code (r := ⟨cs, Position.start⟩) h hbreak hcomment)).trans ?_
  refine (outcome_align _ _ _ fun indents => scan (.inLine 0 false) indents _).trans ?_
  exact congrArg _ (funext fun aligned => congrArg _ (outcome_scan_congr h))

theorem kindsFrom_inLine_nil :
    kindsFrom (.inLine depth pending) indents [] = .ok (finishKinds indents pending) :=
  (congrArg outcome (scan_inLine_nil rfl)).trans (outcome_finish _)

theorem kindsFrom_inLine_break :
    kindsFrom (.inLine 0 pending) indents ('\n' :: cs) =
      (kindsFrom .lineStart indents cs).map (lineEndKinds pending ++ ·) := by
  refine (congrArg outcome (scan_inLine_break rfl)).trans ((outcome_append ..).trans ?_)
  rw [outcome_scan, map_lineEnd]
  rfl

theorem kindsFrom_inLine_within (hdepth : depth ≠ 0) :
    kindsFrom (.inLine depth pending) indents ('\n' :: cs) =
      kindsFrom (.inLine depth pending) indents cs :=
  (congrArg outcome (scan_inLine_within rfl hdepth)).trans (outcome_scan ..)

theorem kindsFrom_inLine_comment :
    kindsFrom (.inLine depth pending) indents ('#' :: cs) =
      kindsFrom (.inLine depth pending) indents (cs.dropWhile (· != '\n')) :=
  (congrArg outcome (scan_inLine_comment rfl)).trans (outcome_scan ..)

theorem kindsFrom_inLine_joined :
    kindsFrom (.inLine depth pending) indents ('\\' :: '\n' :: cs) =
      kindsFrom (.inLine depth pending) indents cs :=
  (congrArg outcome (scan_inLine_joined rfl)).trans (outcome_scan ..)

theorem kindsFrom_inLine_spacing (hc : isSpacing c = true) :
    kindsFrom (.inLine depth pending) indents (c :: cs) =
      kindsFrom (.inLine depth pending) indents cs :=
  (congrArg outcome (scan_inLine_spacing rfl hc)).trans (outcome_scan ..)

theorem kindsFrom_inLine_token (hbreak : c ≠ '\n') (hcomment : c ≠ '#')
    (hjoined : ∀ further, c = '\\' → cs ≠ '\n' :: further) (hspacing : ¬isSpacing c = true) :
    kindsFrom (.inLine depth pending) indents (c :: cs) = (do
      let (kind, rest) ← nextToken operators (c :: cs)
      (kindsFrom (.inLine (depthAfter kind depth) true) indents rest).map (kind :: ·)) := by
  refine (congrArg outcome (scan_inLine_token rfl hbreak hcomment hjoined hspacing)).trans ?_
  unfold nextToken
  cases Reader.token operators ⟨c :: cs, Position.start⟩ with
  | error e => rfl
  | ok x => exact (outcome_cons ⟨x.1, Position.start⟩ _).trans (congrArg _ (outcome_scan ..))

end Steps

end Indented

namespace Braced

variable {r r' : Reader} {c : Char} {cs : List Char}

/-- What follows the mark that closes a comment, if there is one. -/
def behindComment : List Char → Option (List Char)
  | '*' :: '/' :: rest => some rest
  | _ :: rest => behindComment rest
  | [] => none

theorem closeComment_rest (cs : List Char) (p : Position) :
    (closeComment cs p).map Reader.rest = behindComment cs := by
  fun_induction closeComment cs p with
  | case1 => rfl
  | case2 c rest p hclose ih =>
    rw [ih, behindComment]
    exact hclose
  | case3 => rfl

/-- Two readers before the same characters. -/
theorem outcome_scan_congr (h : r'.rest = r.rest) : outcome (scan r') = outcome (scan r) := by
  fun_induction scan r generalizing r' with
  | case1 r hnil =>
    rw [scan_nil (h.trans hnil)]
    rfl
  | case2 r rest hrest ih =>
    rw [scan_line (h.trans hrest)]
    exact ih (congrArg (fun cs => (cs.drop 2).dropWhile (· != '\n')) h)
  | case3 r rest hrest hclose =>
    obtain ⟨q, hscan⟩ := scan_block (h.trans hrest)
    have hbehind := (closeComment_rest (r.skip 2).rest (r.skip 2).position).symm
    rw [hclose, Reader.rest_skip_two hrest, ← closeComment_rest rest q] at hbehind
    rw [hscan, Option.map_eq_none_iff.1 hbehind]
    rfl
  | case4 r rest hrest after hclose ih =>
    obtain ⟨q, hscan⟩ := scan_block (h.trans hrest)
    have hbehind := (closeComment_rest (r.skip 2).rest (r.skip 2).position).symm
    rw [hclose, Reader.rest_skip_two hrest, ← closeComment_rest rest q] at hbehind
    obtain ⟨after', hclose', hafter⟩ := Option.map_eq_some_iff.1 hbehind
    rw [hscan, hclose']
    exact ih hafter
  | case5 r c rest hline hblock hrest hspacing ih =>
    obtain ⟨_, p⟩ := r'
    obtain rfl := h.trans hrest
    rw [scan_spacing hspacing]
    exact ih (congrArg (List.drop 1) hrest).symm
  | case6 r c rest hline hblock hrest hspacing e htoken =>
    have hnext : nextToken operators r'.rest = .error e.cause :=
      h ▸ nextToken_eq_error_iff.2 ⟨e, htoken, rfl⟩
    obtain ⟨e', htoken', hcause⟩ := nextToken_eq_error_iff.1 hnext
    rw [scan_token (h.trans hrest) (uncommented_cons hline hblock) hspacing, htoken']
    exact congrArg Except.error hcause
  | case7 r c rest hline hblock hrest hspacing kind after htoken ih =>
    have hnext : nextToken operators r'.rest = .ok (kind, after.rest) :=
      h ▸ nextToken_eq_ok_iff.2 ⟨after, htoken, rfl⟩
    obtain ⟨after', htoken', hafter⟩ := nextToken_eq_ok_iff.1 hnext
    rw [scan_token (h.trans hrest) (uncommented_cons hline hblock) hspacing, htoken']
    refine (outcome_cons ⟨kind, r'.position⟩ _).trans ?_
    rw [ih hafter]
    exact (outcome_cons ⟨kind, r.position⟩ _).symm

/-! ### Outcomes step by step -/

/-- The outcome of scanning characters. -/
def kindsFrom (cs : List Char) : Except SyntaxCause (List TokenKind) :=
  outcome (scan ⟨cs, Position.start⟩)

theorem outcome_scan (r : Reader) : outcome (scan r) = kindsFrom r.rest := outcome_scan_congr rfl

theorem kindsFrom_line : kindsFrom ('/' :: '/' :: cs) = kindsFrom (cs.dropWhile (· != '\n')) :=
  (congrArg outcome (scan_line rfl)).trans (outcome_scan _)

theorem kindsFrom_block : kindsFrom ('/' :: '*' :: cs) =
    match behindComment cs with
    | none => .error .unterminatedComment
    | some rest => kindsFrom rest := by
  obtain ⟨q, hscan⟩ := scan_block (r := ⟨'/' :: '*' :: cs, Position.start⟩) rfl
  rw [kindsFrom, hscan, ← closeComment_rest cs q]
  cases closeComment cs q with
  | none => rfl
  | some after => exact outcome_scan after

theorem kindsFrom_spacing (hc : isSpacing c = true) : kindsFrom (c :: cs) = kindsFrom cs :=
  (congrArg outcome (scan_spacing hc cs _)).trans (outcome_scan _)

theorem kindsFrom_token (hcomment : Uncommented (c :: cs)) (hspacing : ¬isSpacing c = true) :
    kindsFrom (c :: cs) = (do
      let (kind, rest) ← nextToken operators (c :: cs)
      (kindsFrom rest).map (kind :: ·)) := by
  refine (congrArg outcome (scan_token rfl hcomment hspacing)).trans ?_
  unfold nextToken
  cases Reader.token operators ⟨c :: cs, Position.start⟩ with
  | error e => rfl
  | ok x => exact (outcome_cons ⟨x.1, Position.start⟩ _).trans (congrArg _ (outcome_scan _))

end Braced

end Labyrinth
