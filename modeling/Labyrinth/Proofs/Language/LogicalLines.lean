import Labyrinth.Proofs.Language.Outcomes

/-!
# Logical lines

A **logical line** of the indented dialect ends at the first line feed that is neither inside
brackets nor right behind a backslash. Every source is cut into logical lines, and its tokens are
laid out line by line: those of the layout depend on the widths of the lines alone, and the others
on one line each.

## Main results

* `logicalLines_intercalate`: the lines of a source that has been put together from lines.
* `kindsFrom_lineStart`: the tokens of a source, line by line.
-/

namespace Labyrinth.Indented

variable {depth : Nat} {c : Char} {cs rest : List Char} {kind : TokenKind}

/-! ### The end of a line -/

/-- What follows a logical line inside `depth` brackets, from its line feed on. Behind an error the
line goes on as if the rest of it were a comment. -/
def lineRest (depth : Nat) (cs : List Char) : List Char :=
  match cs with
  | [] => []
  | '\n' :: rest => if depth = 0 then '\n' :: rest else lineRest depth rest
  | '#' :: rest => lineRest depth (rest.dropWhile (· != '\n'))
  | '\\' :: '\n' :: rest => lineRest depth rest
  | c :: rest =>
    if isSpacing c then lineRest depth rest
    else
      match _h : nextToken operators (c :: rest) with
      | .error _ => lineRest depth (rest.dropWhile (· != '\n'))
      | .ok (kind, rest) => lineRest (depthAfter kind depth) rest
termination_by cs.length
decreasing_by
  all_goals try simp only [List.length_cons]
  · omega
  · exact Nat.lt_succ_of_le (List.dropWhile_sublist _).length_le
  · omega
  · omega
  · exact Nat.lt_succ_of_le (List.dropWhile_sublist _).length_le
  · exact nextToken_length_lt operators_length_pos _h

theorem lineRest_nil : lineRest depth [] = [] := by
  rw [lineRest]

theorem lineRest_break (cs : List Char) : lineRest 0 ('\n' :: cs) = '\n' :: cs := by
  rw [lineRest, if_pos rfl]

theorem lineRest_within (hdepth : depth ≠ 0) (cs : List Char) :
    lineRest depth ('\n' :: cs) = lineRest depth cs := by
  rw [lineRest, if_neg hdepth]

theorem lineRest_comment (cs : List Char) :
    lineRest depth ('#' :: cs) = lineRest depth (cs.dropWhile (· != '\n')) := by
  rw [lineRest]

theorem lineRest_joined (cs : List Char) :
    lineRest depth ('\\' :: '\n' :: cs) = lineRest depth cs := by
  rw [lineRest]

theorem lineRest_spacing (hc : isSpacing c = true) (cs : List Char) :
    lineRest depth (c :: cs) = lineRest depth cs := by
  rw [lineRest, if_pos hc]
  · rintro rfl
    cases hc
  · rintro rfl
    cases hc
  · rintro further rfl -
    cases hc

theorem lineRest_token (hbreak : c ≠ '\n') (hcomment : c ≠ '#')
    (hjoined : ∀ further, c = '\\' → cs ≠ '\n' :: further) (hspacing : ¬isSpacing c = true) :
    lineRest depth (c :: cs) =
      match nextToken operators (c :: cs) with
      | .error _ => lineRest depth (cs.dropWhile (· != '\n'))
      | .ok (kind, rest) => lineRest (depthAfter kind depth) rest := by
  rw [lineRest, if_neg hspacing]
  · split
    · next h => rw [h]
    · next h => rw [h]
  · exact hbreak
  · exact hcomment
  · exact hjoined

/-- Indentation belongs to the line. -/
theorem lineRest_append (hspacing : ∀ c ∈ cs, isSpacing c = true) (rest : List Char) :
    lineRest depth (cs ++ rest) = lineRest depth rest := by
  induction cs with
  | nil => rfl
  | cons c cs ih =>
    rw [List.forall_mem_cons] at hspacing
    rw [List.cons_append, lineRest_spacing hspacing.1, ih hspacing.2]

theorem lineRest_dropWhile (line tail : List Char) :
    lineRest depth (line.dropWhile isSpacing ++ tail) = lineRest depth (line ++ tail) := by
  conv_rhs =>
    rw [← List.takeWhile_append_dropWhile (p := isSpacing) (l := line), List.append_assoc,
      lineRest_append fun _ hc => List.mem_takeWhile_imp hc]

theorem lineRest_suffix (depth : Nat) (cs : List Char) : lineRest depth cs <:+ cs := by
  fun_induction lineRest depth cs with
  | case1 => exact List.suffix_rfl
  | case2 => exact List.suffix_rfl
  | case3 depth rest _ ih => exact ih.trans (List.suffix_cons ..)
  | case4 depth rest ih =>
    exact ih.trans ((List.dropWhile_suffix _).trans (List.suffix_cons ..))
  | case5 depth rest ih => exact ih.trans ((List.suffix_cons ..).trans (List.suffix_cons ..))
  | case6 depth c rest _ _ _ _ ih => exact ih.trans (List.suffix_cons ..)
  | case7 depth c rest _ _ _ _ cause _ ih =>
    exact ih.trans ((List.dropWhile_suffix _).trans (List.suffix_cons ..))
  | case8 depth c rest _ _ _ _ kind rest' hnext ih => exact ih.trans (nextToken_suffix hnext)

/-- A line is ended by the source or by a line feed. -/
theorem atLineEnd_lineRest (depth : Nat) (cs : List Char) :
    AtLineEnd (lineRest depth cs) := by
  fun_induction lineRest depth cs with
  | case1 => exact .inl rfl
  | case2 rest => exact .inr ⟨rest, rfl⟩
  | case3 _ _ _ ih => exact ih
  | case4 _ _ ih => exact ih
  | case5 _ _ ih => exact ih
  | case6 _ _ _ _ _ _ _ ih => exact ih
  | case7 _ _ _ _ _ _ _ _ _ ih => exact ih
  | case8 _ _ _ _ _ _ _ _ _ _ ih => exact ih

theorem lineRest_ne_cons (depth : Nat) (c : Char) (cs : List Char) :
    lineRest depth cs ≠ c :: cs := by
  intro h
  have hle := (lineRest_suffix depth cs).length_le
  rw [h, List.length_cons] at hle
  omega

/-- No line feed outside brackets belongs to a line. -/
theorem ne_break {tail : List Char} (h : lineRest 0 (c :: cs ++ tail) = tail) : c ≠ '\n' := by
  rintro rfl
  rw [List.cons_append, lineRest_break] at h
  have hlength := congrArg List.length h
  rw [List.length_cons, List.length_append] at hlength
  omega

/-- A backslash that joins no lines does not do so in front of other characters either, unless it is
the last one of its line. -/
theorem not_joined_append {us : List Char} (hjoined : ∀ further, c = '\\' → us ≠ '\n' :: further)
    (hne : c = '\\' → us ≠ []) (tail : List Char) :
    ∀ further, c = '\\' → us ++ tail ≠ '\n' :: further := by
  intro further hc heq
  obtain ⟨d, us, rfl⟩ := List.exists_cons_of_ne_nil (hne hc)
  obtain ⟨rfl, -⟩ := List.cons.inj heq
  exact hjoined us hc rfl

theorem depth_eq_zero (h : lineRest depth ('\n' :: cs) = '\n' :: cs) : depth = 0 := by
  by_contra hdepth
  rw [lineRest_within hdepth] at h
  exact lineRest_ne_cons depth _ cs h

section Tokens

variable {us us' tail : List Char} (htail : AtLineEnd tail)
  (hjoined : ∀ further, c = '\\' → us ≠ '\n' :: further)
  (hnext : nextToken operators (c :: us) = .ok (kind, us'))
include htail hjoined hnext

/-- A token on a line is the same in front of the end of the line. -/
theorem nextToken_line : (∀ further, c = '\\' → us ++ tail ≠ '\n' :: further) ∧
    nextToken operators (c :: (us ++ tail)) = .ok (kind, us' ++ tail) :=
  ⟨not_joined_append hjoined (fun hc => absurd (hc ▸ hnext) nextToken_backslash) tail,
    htail.endsLine.nextToken_eq_ok oneLine_operators (List.cons_ne_nil c us) hnext⟩

theorem lineRest_token_append (hbreak : c ≠ '\n') (hcomment : c ≠ '#')
    (hspacing : ¬isSpacing c = true) :
    lineRest depth (c :: us ++ tail) = lineRest (depthAfter kind depth) (us' ++ tail) := by
  obtain ⟨hjoined', hnext'⟩ := nextToken_line htail hjoined hnext
  rw [List.cons_append, lineRest_token hbreak hcomment hjoined' hspacing, hnext']

end Tokens

/-- What stands behind the end of a line does not belong to it. -/
theorem lineRest_feed {us : List Char} (h : lineRest depth (us ++ '\n' :: cs) = '\n' :: cs)
    (rest : List Char) : lineRest depth (us ++ '\n' :: rest) = '\n' :: rest := by
  fun_induction lineRest depth us with
  | case1 depth =>
    rw [depth_eq_zero h]
    exact lineRest_break rest
  | case2 us => exact absurd rfl (ne_break h)
  | case3 depth us hdepth ih =>
    rw [List.cons_append, lineRest_within hdepth] at h ⊢
    exact ih h
  | case4 depth us ih =>
    rw [List.cons_append, lineRest_comment, (atLineEnd_feed _).dropWhile] at h ⊢
    exact ih h
  | case5 depth us ih =>
    rw [List.cons_append, List.cons_append, lineRest_joined] at h ⊢
    exact ih h
  | case6 depth c us hbreak hcomment hjoined hspacing ih =>
    rw [List.cons_append, lineRest_spacing hspacing] at h ⊢
    exact ih h
  | case7 depth c us hbreak hcomment hjoined hspacing cause hnext ih =>
    by_cases hend : c = '\\' ∧ us = []
    · obtain ⟨rfl, rfl⟩ := hend
      rw [List.cons_append, List.nil_append, lineRest_joined] at h
      exact absurd h (lineRest_ne_cons depth _ cs)
    · have hne : c = '\\' → us ≠ [] := fun hc hus => hend ⟨hc, hus⟩
      have hline (tail : List Char) : lineRest depth (c :: us ++ '\n' :: tail) =
          lineRest depth (us.dropWhile (· != '\n') ++ '\n' :: tail) := by
        obtain ⟨cause', hnext'⟩ := (EndsLine.feed tail).nextToken_eq_error oneLine_operators
          (List.cons_ne_nil c us) hnext
        rw [List.cons_append] at hnext' ⊢
        rw [lineRest_token hbreak hcomment (not_joined_append hjoined hne _) hspacing, hnext',
          (atLineEnd_feed tail).dropWhile]
      rw [hline] at h ⊢
      exact ih h
  | case8 depth c us hbreak hcomment hjoined hspacing kind us' hnext ih =>
    rw [lineRest_token_append (atLineEnd_feed _) hjoined hnext hbreak hcomment hspacing] at h ⊢
    exact ih h

/-! ### Lines of a source -/

/-- A line that is ended by a line feed behind it. -/
def Closed (line : List Char) : Prop := lineRest 0 (line ++ ['\n']) = ['\n']

theorem Closed.lineRest_eq {line : List Char} (h : Closed line) (rest : List Char) :
    lineRest 0 (line ++ '\n' :: rest) = '\n' :: rest := lineRest_feed h rest

theorem exists_closed (h : lineRest 0 cs = '\n' :: rest) :
    ∃ line, cs = line ++ '\n' :: rest ∧ Closed line := by
  obtain ⟨line, hline⟩ := lineRest_suffix 0 cs
  rw [h] at hline
  subst hline
  exact ⟨line, rfl, lineRest_feed h []⟩

/-- The source that consists of certain lines. -/
def ofLines (lines : List (List Char)) : String := String.ofList (['\n'].intercalate lines)

/-- The logical lines of a source, without the line feeds that end them. -/
def logicalLines (cs : List Char) : List (List Char) :=
  if _h : lineRest 0 cs = [] then [cs]
  else cs.take (cs.length - (lineRest 0 cs).length) :: logicalLines ((lineRest 0 cs).drop 1)
termination_by cs.length
decreasing_by
  have hle := (lineRest_suffix 0 cs).length_le
  have hpos := List.length_pos_iff.2 _h
  rw [List.length_drop]
  omega

/-- Lines that can follow each other: all of them are ended by the line feeds between them. -/
inductive AreLines : List (List Char) → Prop
  | last {line : List Char} (h : lineRest 0 line = []) : AreLines [line]
  | cons {line : List Char} {lines : List (List Char)} (h : Closed line) (hlines : AreLines lines) :
    AreLines (line :: lines)

theorem AreLines.ne_nil {lines : List (List Char)} (h : AreLines lines) : lines ≠ [] := by
  cases h <;> exact List.cons_ne_nil _ _

theorem AreLines.tail {line : List Char} {lines : List (List Char)} (h : AreLines (line :: lines)) :
    lines = [] ∨ AreLines lines := by
  cases h with
  | last => exact .inl rfl
  | cons _ hlines => exact .inr hlines

theorem logicalLines_last (h : lineRest 0 cs = []) : logicalLines cs = [cs] := by
  rw [logicalLines, dif_pos h]

theorem logicalLines_cons {line : List Char} (h : Closed line) (rest : List Char) :
    logicalLines (line ++ '\n' :: rest) = line :: logicalLines rest := by
  have hlength : (line ++ '\n' :: rest).length - ('\n' :: rest).length = line.length := by
    rw [List.length_append, Nat.add_sub_cancel]
  rw [logicalLines, h.lineRest_eq, dif_neg (List.cons_ne_nil _ _), hlength, List.take_left]
  rfl

/-- Every source consists of its logical lines. -/
theorem areLines_logicalLines (cs : List Char) :
    AreLines (logicalLines cs) ∧ ['\n'].intercalate (logicalLines cs) = cs := by
  induction hn : cs.length using Nat.strong_induction_on generalizing cs with
  | _ n ih =>
    obtain h | ⟨rest, h⟩ := atLineEnd_lineRest 0 cs
    · rw [logicalLines_last h]
      exact ⟨.last h, List.intercalate_singleton⟩
    · obtain ⟨line, rfl, hline⟩ := exists_closed h
      have hlt : rest.length < n := by
        rw [← hn, List.length_append, List.length_cons]
        omega
      obtain ⟨hrest, hjoin⟩ := ih _ hlt rest rfl
      rw [logicalLines_cons hline, List.intercalate_cons_of_ne_nil hrest.ne_nil, hjoin,
        List.append_assoc]
      exact ⟨.cons hline hrest, rfl⟩

/-- A source that has been put together from lines has these logical lines. -/
theorem logicalLines_intercalate {lines : List (List Char)} (h : AreLines lines) :
    logicalLines (['\n'].intercalate lines) = lines := by
  induction h with
  | last h => rw [List.intercalate_singleton, logicalLines_last h]
  | cons hline hlines ih =>
    rw [List.intercalate_cons_of_ne_nil hlines.ne_nil, List.append_assoc]
    exact (logicalLines_cons hline _).trans (congrArg _ ih)

/-! ### Tokens line by line -/

/-- The kinds of the tokens on a line. -/
def lineKinds (depth : Nat) (pending : Bool) (cs : List Char) :
    Except SyntaxCause (List TokenKind) :=
  (kindsFrom (.inLine depth pending) [] cs).map (List.filter (· != .eof))

/-- The tokens of a line and of what is behind it, in open blocks. The line is blank, it is a
comment, or it holds tokens. -/
def layLine (indents : List Nat) (line ending : List Char)
    (behind : List Nat → Except SyntaxCause (List TokenKind)) :
    Except SyntaxCause (List TokenKind) :=
  match line.dropWhile isSpacing with
  | [] => behind indents
  | '#' :: text => (behind indents).map (.comment (lineText text) :: ·)
  | body => do
    let aligned ← alignKinds (width (line.takeWhile isSpacing)) indents
    let kinds ← lineKinds 0 false (body ++ ending)
    (behind aligned.2).map (aligned.1 ++ kinds ++ ·)

section Cases

variable {indents : List Nat} {line text ending : List Char}
  {behind : List Nat → Except SyntaxCause (List TokenKind)}

theorem layLine_blank (h : line.dropWhile isSpacing = []) :
    layLine indents line ending behind = behind indents := by
  rw [layLine, h]

theorem layLine_comment (h : line.dropWhile isSpacing = '#' :: text) :
    layLine indents line ending behind =
      (behind indents).map (.comment (lineText text) :: ·) := by
  rw [layLine, h]
  rfl

theorem layLine_code (h : line.dropWhile isSpacing = c :: cs) (hc : c ≠ '#') :
    layLine indents line ending behind = (do
      let aligned ← alignKinds (width (line.takeWhile isSpacing)) indents
      let kinds ← lineKinds 0 false (c :: cs ++ ending)
      (behind aligned.2).map (aligned.1 ++ kinds ++ ·)) := by
  rw [layLine, h]
  split
  · next heq => cases heq
  · next heq => exact absurd (List.cons.inj heq).1 hc
  · rfl

end Cases

/-- The tokens behind a line, where nothing is left of the source or a line feed comes next. -/
def restKinds (indents : List Nat) : List Char → Except SyntaxCause (List TokenKind)
  | [] => .ok (finishKinds indents false)
  | _ :: rest => kindsFrom .lineStart indents rest

/-- The tokens of a line and those behind it. -/
def thenRest (indents : List Nat) (tail : List Char) (x : Except SyntaxCause (List TokenKind)) :
    Except SyntaxCause (List TokenKind) := do
  let kinds ← x
  (restKinds indents tail).map (kinds ++ ·)

section Line

variable {indents : List Nat} {tail us : List Char} {pending : Bool}

/-- Of what stands behind a line no more than its line feed matters. -/
theorem nextToken_take (htail : AtLineEnd tail) (hne : us ≠ []) :
    nextToken operators (us ++ tail) =
      (nextToken operators (us ++ tail.take 1)).map (continued (tail.drop 1)) := by
  obtain rfl | ⟨rest, rfl⟩ := htail
  · rw [List.take_nil, List.drop_nil]
    cases nextToken operators (us ++ []) with
    | error cause => rfl
    | ok x => simp [Except.map, continued]
  · exact nextToken_feed oneLine_operators hne rest

theorem thenRest_ok (kinds : List TokenKind) :
    thenRest indents tail (.ok kinds) = (restKinds indents tail).map (kinds ++ ·) := rfl

theorem thenRest_map (ks : List TokenKind) (x : Except SyntaxCause (List TokenKind)) :
    (thenRest indents tail x).map (ks ++ ·) = (do
      let kinds ← x
      (restKinds indents tail).map (ks ++ kinds ++ ·)) := by
  cases x with
  | error cause => rfl
  | ok kinds =>
    rw [thenRest_ok]
    cases restKinds indents tail <;> simp [Except.map, bind, Except.bind]

theorem thenRest_cons (x : Except SyntaxCause (List TokenKind)) :
    thenRest indents tail (x.map (kind :: ·)) = (thenRest indents tail x).map (kind :: ·) := by
  cases x with
  | error cause => rfl
  | ok kinds =>
    rw [thenRest_ok]
    cases h : restKinds indents tail <;> simp [thenRest, h, Except.map, bind, Except.bind]

theorem lineKinds_nil : lineKinds depth pending [] = .ok (lineEndKinds pending) := by
  rw [lineKinds, kindsFrom_inLine_nil]
  cases pending <;> rfl

theorem lineKinds_break : lineKinds 0 pending ['\n'] = .ok (lineEndKinds pending) := by
  rw [lineKinds, kindsFrom_inLine_break, kindsFrom_lineStart_nil rfl]
  cases pending <;> rfl

theorem lineKinds_within (hdepth : depth ≠ 0) :
    lineKinds depth pending ('\n' :: cs) = lineKinds depth pending cs := by
  rw [lineKinds, kindsFrom_inLine_within hdepth, lineKinds]

theorem lineKinds_comment :
    lineKinds depth pending ('#' :: cs) = lineKinds depth pending (cs.dropWhile (· != '\n')) := by
  rw [lineKinds, kindsFrom_inLine_comment, lineKinds]

theorem lineKinds_joined :
    lineKinds depth pending ('\\' :: '\n' :: cs) = lineKinds depth pending cs := by
  rw [lineKinds, kindsFrom_inLine_joined, lineKinds]

theorem lineKinds_spacing (hc : isSpacing c = true) :
    lineKinds depth pending (c :: cs) = lineKinds depth pending cs := by
  rw [lineKinds, kindsFrom_inLine_spacing hc, lineKinds]

theorem lineKinds_token (hbreak : c ≠ '\n') (hcomment : c ≠ '#')
    (hjoined : ∀ further, c = '\\' → cs ≠ '\n' :: further) (hspacing : ¬isSpacing c = true) :
    lineKinds depth pending (c :: cs) = (do
      let (kind, rest) ← nextToken operators (c :: cs)
      (lineKinds (depthAfter kind depth) true rest).map (kind :: ·)) := by
  rw [lineKinds, kindsFrom_inLine_token hbreak hcomment hjoined hspacing]
  cases hnext : nextToken operators (c :: cs) with
  | error cause => rfl
  | ok x =>
    obtain ⟨kind, rest⟩ := x
    have hkind : (kind != .eof) = true := by
      cases kind with
      | eof => cases isLayout_nextToken hnext
      | _ => rfl
    change Except.map _ (Except.map _ (kindsFrom (.inLine (depthAfter kind depth) true) [] rest)) =
      (lineKinds (depthAfter kind depth) true rest).map (kind :: ·)
    unfold lineKinds
    cases kindsFrom (.inLine (depthAfter kind depth) true) [] rest with
    | error cause => rfl
    | ok kinds => exact congrArg Except.ok (List.filter_cons_of_pos hkind)

theorem lineKinds_token_append {us' : List Char} (htail : AtLineEnd tail)
    (hjoined : ∀ further, c = '\\' → us ≠ '\n' :: further)
    (hnext : nextToken operators (c :: us) = .ok (kind, us')) (hbreak : c ≠ '\n')
    (hcomment : c ≠ '#') (hspacing : ¬isSpacing c = true) :
    lineKinds depth pending (c :: us ++ tail) =
      (lineKinds (depthAfter kind depth) true (us' ++ tail)).map (kind :: ·) := by
  obtain ⟨hjoined', hnext'⟩ := nextToken_line htail hjoined hnext
  rw [List.cons_append, lineKinds_token hbreak hcomment hjoined' hspacing, hnext']
  rfl

/-- The tokens of a line do not depend on the lines behind it, nor on open blocks. -/
theorem kindsFrom_inLine (htail : AtLineEnd tail)
    (h : lineRest depth (us ++ tail) = tail) :
    kindsFrom (.inLine depth pending) indents (us ++ tail) =
      thenRest indents tail (lineKinds depth pending (us ++ tail.take 1)) := by
  fun_induction lineRest depth us generalizing pending with
  | case1 depth =>
    obtain rfl | ⟨rest, rfl⟩ := htail
    · have hkinds : kindsFrom (.inLine depth pending) indents [] =
          thenRest indents [] (.ok (lineEndKinds pending)) := by
        rw [kindsFrom_inLine_nil]
        cases pending <;> rfl
      exact hkinds.trans (congrArg (thenRest indents []) lineKinds_nil.symm)
    · obtain rfl : depth = 0 := depth_eq_zero h
      exact kindsFrom_inLine_break.trans
        (congrArg (thenRest indents ('\n' :: rest)) lineKinds_break.symm)
  | case2 us => exact absurd rfl (ne_break h)
  | case3 depth us hdepth ih =>
    rw [List.cons_append] at h ⊢
    rw [lineRest_within hdepth] at h
    rw [List.cons_append, kindsFrom_inLine_within hdepth, lineKinds_within hdepth, ih h]
  | case4 depth us ih =>
    rw [List.cons_append] at h ⊢
    rw [lineRest_comment, htail.dropWhile] at h
    rw [List.cons_append, kindsFrom_inLine_comment, lineKinds_comment, htail.dropWhile,
      htail.take.dropWhile, ih h]
  | case5 depth us ih =>
    rw [List.cons_append, List.cons_append] at h ⊢
    rw [lineRest_joined] at h
    rw [List.cons_append, List.cons_append, kindsFrom_inLine_joined, lineKinds_joined, ih h]
  | case6 depth c us hbreak hcomment hjoined hspacing ih =>
    rw [List.cons_append] at h ⊢
    rw [lineRest_spacing hspacing] at h
    rw [List.cons_append, kindsFrom_inLine_spacing hspacing, lineKinds_spacing hspacing, ih h]
  | case7 depth c us hbreak hcomment hjoined hspacing cause hnext ih =>
    by_cases hend : c = '\\' ∧ us = []
    · obtain ⟨rfl, rfl⟩ := hend
      obtain rfl | ⟨rest, rfl⟩ := htail
      · rw [List.take_nil, List.append_nil, kindsFrom_inLine_token hbreak hcomment hjoined hspacing,
          lineKinds_token hbreak hcomment hjoined hspacing, hnext]
        rfl
      · rw [List.cons_append, List.nil_append, lineRest_joined] at h
        exact absurd h (lineRest_ne_cons depth _ rest)
    · have hne : c = '\\' → us ≠ [] := fun hc hus => hend ⟨hc, hus⟩
      obtain ⟨cause', hnext'⟩ := htail.take.endsLine.nextToken_eq_error
        oneLine_operators (List.cons_ne_nil c us) hnext
      have htake := nextToken_take htail (List.cons_ne_nil c us)
      rw [hnext'] at htake
      rw [List.cons_append] at htake hnext' ⊢
      rw [List.cons_append, kindsFrom_inLine_token hbreak hcomment
        (not_joined_append hjoined hne _) hspacing, lineKinds_token hbreak hcomment
        (not_joined_append hjoined hne _) hspacing, htake, hnext']
      rfl
  | case8 depth c us hbreak hcomment hjoined hspacing kind us' hnext ih =>
    obtain ⟨hjoined', hnext'⟩ := nextToken_line htail hjoined hnext
    rw [lineRest_token_append htail hjoined hnext hbreak hcomment hspacing] at h
    rw [lineKinds_token_append htail.take hjoined hnext hbreak hcomment hspacing,
      List.cons_append, kindsFrom_inLine_token hbreak hcomment hjoined' hspacing, hnext']
    exact (congrArg (Except.map _) (ih h)).trans (thenRest_cons _).symm

theorem kindsFrom_line (htail : AtLineEnd tail) (h : lineRest 0 (us ++ tail) = tail) :
    kindsFrom .lineStart indents (us ++ tail) =
      layLine indents us (tail.take 1) (restKinds · tail) := by
  have hhead : ∀ c ∈ tail.head?, isSpacing c = false := htail.head?_eq_false rfl
  have hdrop := dropWhile_append_of_head? hhead us
  have htake := takeWhile_append_of_head? hhead us
  have hbody : lineRest 0 (us.dropWhile isSpacing ++ tail) = tail :=
    (lineRest_dropWhile us tail).trans h
  unfold layLine
  split
  · next hnil =>
    rw [hnil, List.nil_append] at hdrop
    obtain rfl | ⟨rest, rfl⟩ := htail
    · exact kindsFrom_lineStart_nil hdrop
    · exact kindsFrom_lineStart_break hdrop
  · next text hcomment =>
    rw [hcomment, List.cons_append] at hdrop
    rw [hcomment, List.cons_append, lineRest_comment, htail.dropWhile] at hbody
    have htext : text.dropWhile (· != '\n') = [] := by
      obtain htext | ⟨rest, htext⟩ := atLineEnd_dropWhile text
      · exact htext
      · rw [htext] at hbody
        exact absurd rfl (ne_break hbody)
    have hline : lineText (text ++ tail) = lineText text := by
      rw [lineText, takeWhile_append_of_head? (htail.head?_eq_false rfl), lineText]
    rw [kindsFrom_lineStart_comment hdrop, htail.dropWhile, htext, List.nil_append, hline]
    obtain rfl | ⟨rest, rfl⟩ := htail
    · rw [List.drop_nil, kindsFrom_lineStart_nil rfl]
      rfl
    · rfl
  · next hnil hcomment =>
    obtain ⟨c, body, hcode⟩ := List.exists_cons_of_ne_nil hnil
    rw [hcode] at hdrop hbody ⊢
    have hbreak : c ≠ '\n' := ne_break hbody
    have hcomment : c ≠ '#' := fun hc => hcomment body (hc ▸ hcode)
    rw [List.cons_append] at hdrop
    rw [kindsFrom_lineStart_code hdrop hbreak hcomment, htake]
    refine congrArg _ (funext fun aligned => ?_)
    rw [← List.cons_append, kindsFrom_inLine htail hbody, thenRest_map]

end Line

/-- The tokens of several lines, with the blocks that are open in front of them. -/
def layOut (indents : List Nat) : List (List Char) → Except SyntaxCause (List TokenKind)
  | [] => .ok (finishKinds indents false)
  | line :: lines =>
    layLine indents line (if lines.isEmpty then [] else ['\n']) (layOut · lines)

/-- The tokens of a source are those of its lines. -/
theorem kindsFrom_lineStart {lines : List (List Char)} (h : AreLines lines) (indents : List Nat) :
    kindsFrom .lineStart indents (['\n'].intercalate lines) = layOut indents lines := by
  induction h generalizing indents with
  | @last line h =>
    have hline : kindsFrom .lineStart indents (line ++ []) = _ :=
      kindsFrom_line (.inl rfl) ((List.append_nil line).symm ▸ h)
    rw [List.append_nil] at hline
    rw [List.intercalate_singleton, hline]
    rfl
  | @cons line lines h hlines ih =>
    have hempty : lines.isEmpty = false := by
      rw [List.isEmpty_eq_false_iff]
      exact hlines.ne_nil
    rw [List.intercalate_cons_of_ne_nil hlines.ne_nil, List.append_assoc, layOut, hempty]
    refine (kindsFrom_line (atLineEnd_feed _) (h.lineRest_eq _)).trans ?_
    exact congrArg _ (funext ih)

/-- The tokens of lines that have been put together. -/
theorem outcome_ofLines {lines : List (List Char)} (h : AreLines lines) :
    outcome (tokens (ofLines lines)) = layOut [] lines := by
  refine (outcome_scan ..).trans ?_
  rw [← kindsFrom_lineStart h, ← String.toList_ofList (l := ['\n'].intercalate lines)]
  rfl

theorem ofLines_logicalLines (source : String) : ofLines (logicalLines source.toList) = source := by
  rw [ofLines, (areLines_logicalLines source.toList).2, String.ofList_toList]

end Labyrinth.Indented
