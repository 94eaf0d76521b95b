import Labyrinth.Language.Read
import Labyrinth.Proofs.Language.BracedRelabeling
import Labyrinth.Proofs.Language.IndentedRelabeling
import Labyrinth.Proofs.Language.Outcomes

/-!
# Carriage returns

A source may end its lines with a line feed, or with a carriage return and a line feed. Both
dialects pass over carriage returns wherever a line can end, with one exception: in the indented
dialect a backslash joins two lines only if the line feed follows at once. With carriage returns
such a source is refused, and every other source is read as it is without them.

## Main results

* `nextToken_withReturns`: tokens in front of line ends of the other kind.
* `Indented.kindsFrom_withReturns`, `Braced.kindsFrom_withReturns`: tokens of whole sources.
* `Program.read_withReturns`: programs whose lines end with carriage returns.
-/

namespace Labyrinth

/-! ### Line ends of the other kind -/

/-- The same characters with a carriage return in front of every line feed. -/
def withReturns (cs : List Char) : List Char :=
  cs.flatMap fun c => if c = '\n' then ['\r', '\n'] else [c]

section WithReturns

variable {c : Char} {cs us ys : List Char}

@[simp]
theorem withReturns_nil : withReturns [] = [] := rfl

@[simp]
theorem withReturns_feed (cs : List Char) :
    withReturns ('\n' :: cs) = '\r' :: '\n' :: withReturns cs := rfl

theorem withReturns_cons (h : c ≠ '\n') (cs : List Char) :
    withReturns (c :: cs) = c :: withReturns cs := by
  rw [withReturns, List.flatMap_cons, if_neg h]
  rfl

theorem withReturns_append (h : '\n' ∉ us) (cs : List Char) :
    withReturns (us ++ cs) = us ++ withReturns cs := by
  induction us with
  | nil => rfl
  | cons c us ih =>
    rw [List.mem_cons, not_or] at h
    rw [List.cons_append, withReturns_cons (Ne.symm h.1), ih h.2, List.cons_append]

/-- What comes first, unless that belongs to the end of a line. -/
theorem exists_of_withReturns_eq_cons (hfeed : c ≠ '\n') (hreturn : c ≠ '\r')
    (h : withReturns cs = c :: ys) : ∃ zs, cs = c :: zs ∧ ys = withReturns zs := by
  cases cs with
  | nil => cases h
  | cons d zs =>
    by_cases hd : d = '\n'
    · rw [hd, withReturns_feed] at h
      exact absurd (List.cons.inj h).1.symm hreturn
    · rw [withReturns_cons hd] at h
      obtain ⟨rfl, rfl⟩ := List.cons.inj h
      exact ⟨zs, rfl, rfl⟩

/-- No line feed comes first. -/
theorem withReturns_ne_feed (cs ys : List Char) : withReturns cs ≠ '\n' :: ys := by
  intro h
  cases cs with
  | nil => cases h
  | cons d zs =>
    by_cases hd : d = '\n'
    · rw [hd, withReturns_feed] at h
      cases h
    · rw [withReturns_cons hd] at h
      exact hd (List.cons.inj h).1

/-- What follows the end of a line. -/
theorem endsLine_dropWhile (cs : List Char) : EndsLine (cs.dropWhile (· != '\n')) ∧
    EndsLine (withReturns (cs.dropWhile (· != '\n'))) := by
  obtain h | ⟨rest, h⟩ := atLineEnd_dropWhile cs
  · rw [h]
    exact ⟨.nil, .nil⟩
  · rw [h]
    exact ⟨.feed rest, .returnFeed _⟩

theorem notMem_takeWhile (cs : List Char) : '\n' ∉ cs.takeWhile (· != '\n') := fun h =>
  absurd (List.mem_takeWhile_imp h) (by decide)

theorem withReturns_eq (cs : List Char) : withReturns cs =
    cs.takeWhile (· != '\n') ++ withReturns (cs.dropWhile (· != '\n')) := by
  rw [← withReturns_append (notMem_takeWhile cs), List.takeWhile_append_dropWhile]

/-- A comment does not contain the carriage return at its end. -/
theorem lineText_withReturns (cs : List Char) : lineText (withReturns cs) = lineText cs := by
  refine congrArg String.ofList ?_
  induction cs with
  | nil => rfl
  | cons c cs ih =>
    by_cases hc : c = '\n'
    · simp [hc]
    · rw [withReturns_cons hc, List.takeWhile_cons_of_pos (by simp [hc]),
        List.takeWhile_cons_of_pos (by simp [hc]), List.filter_cons, List.filter_cons, ih]

/-- Behind the next line feed nothing is different. -/
theorem drop_dropWhile_withReturns (cs : List Char) :
    ((withReturns cs).dropWhile (· != '\n')).drop 1 =
      withReturns ((cs.dropWhile (· != '\n')).drop 1) := by
  induction cs with
  | nil => rfl
  | cons c cs ih =>
    by_cases hc : c = '\n'
    · simp [hc]
    · rw [withReturns_cons hc, List.dropWhile_cons_of_pos (by simp [hc]),
        List.dropWhile_cons_of_pos (by simp [hc]), ih]

/-- In front of the next line feed there may be a carriage return. -/
theorem dropWhile_withReturns (cs : List Char) :
    withReturns (cs.dropWhile (· != '\n')) = (withReturns cs).dropWhile (· != '\n') ∨
      withReturns (cs.dropWhile (· != '\n')) = '\r' :: (withReturns cs).dropWhile (· != '\n') := by
  induction cs with
  | nil => exact .inl rfl
  | cons c cs ih =>
    by_cases hc : c = '\n'
    · simp [hc]
    · rwa [withReturns_cons hc, List.dropWhile_cons_of_pos (by simp [hc]),
        List.dropWhile_cons_of_pos (by simp [hc])]

/-- A token in front of line ends of the other kind. -/
theorem nextToken_withReturns {operators : List String}
    (hops : ∀ op ∈ operators, '\n' ∉ op.toList ∧ '\r' ∉ op.toList) (hc : c ≠ '\n')
    (cs : List Char) : (nextToken operators (withReturns (c :: cs))).toOption =
      (nextToken operators (c :: cs)).toOption.map fun x => (x.1, withReturns x.2) := by
  have hne : (c :: cs).takeWhile (· != '\n') ≠ [] := by simp [hc]
  obtain ⟨htail, htail'⟩ := endsLine_dropWhile (c :: cs)
  have hline := htail.nextToken_append hops hne
  rw [List.takeWhile_append_dropWhile] at hline
  rw [withReturns_eq, htail'.nextToken_append hops hne, hline, Option.map_map]
  cases hx : nextToken operators ((c :: cs).takeWhile (· != '\n')) with
  | error cause => rfl
  | ok x =>
    have hfeed : '\n' ∉ x.2 := fun hmem =>
      notMem_takeWhile _ ((nextToken_suffix hx).subset hmem)
    exact congrArg (fun rest => some (x.1, rest)) (withReturns_append hfeed _).symm

end WithReturns

/-! ### The braced dialect -/

namespace Braced

theorem behindComment_withReturns (cs : List Char) :
    behindComment (withReturns cs) = (behindComment cs).map withReturns := by
  fun_induction behindComment cs with
  | case1 rest => rfl
  | case2 c rest hclose ih =>
    by_cases hc : c = '\n'
    · rw [hc]
      exact ih
    · rw [withReturns_cons hc, behindComment, ih]
      intro further hstar hslash
      obtain ⟨zs, hrest, -⟩ := exists_of_withReturns_eq_cons (by decide) (by decide) hslash
      exact hclose zs hstar hrest
  | case3 => rfl

theorem uncommented_withReturns {c : Char} {cs : List Char} (h : Uncommented (c :: cs)) :
    Uncommented (c :: withReturns cs) := by
  refine uncommented_cons (fun rest hslash heq => ?_) fun rest hslash heq => ?_
  · obtain ⟨zs, rfl, -⟩ := exists_of_withReturns_eq_cons (by decide) (by decide) heq
    exact (h zs).1 (hslash ▸ rfl)
  · obtain ⟨zs, rfl, -⟩ := exists_of_withReturns_eq_cons (by decide) (by decide) heq
    exact (h zs).2 (hslash ▸ rfl)

/-- A token and the tokens behind it. -/
theorem toOption_kindsFrom_token {c : Char} {cs : List Char} (h : Uncommented (c :: cs))
    (hc : c ≠ '\n') (hspacing : ¬isSpacing c = true) :
    (kindsFrom (withReturns (c :: cs))).toOption =
      (nextToken operators (c :: cs)).toOption.bind fun x =>
        (kindsFrom (withReturns x.2)).toOption.map (x.1 :: ·) := by
  have hreturns := nextToken_withReturns oneLine_operators hc cs
  rw [withReturns_cons hc] at hreturns ⊢
  rw [kindsFrom_token (uncommented_withReturns h) hspacing, toOption_bind, hreturns,
    Option.bind_map]
  exact congrArg _ (funext fun x => toOption_map ..)

theorem toOption_kindsFrom_withReturns (r : Reader) :
    (kindsFrom (withReturns r.rest)).toOption = (kindsFrom r.rest).toOption := by
  fun_induction scan r with
  | case1 r hnil => rw [hnil, withReturns_nil]
  | case2 r rest hrest ih =>
    have hskip : (r.skip 2).line.2.rest = rest.dropWhile (· != '\n') :=
      congrArg (fun cs => (cs.drop 2).dropWhile (· != '\n')) hrest
    rw [hskip] at ih
    rw [hrest, withReturns_cons (by decide), withReturns_cons (by decide), kindsFrom_line,
      kindsFrom_line, ← ih]
    obtain hdrop | hdrop := dropWhile_withReturns rest
    · rw [hdrop]
    · rw [hdrop, kindsFrom_spacing rfl]
  | case3 r rest hrest hclose =>
    have hbehind := closeComment_rest (r.skip 2).rest (r.skip 2).position
    rw [hclose, Reader.rest_skip_two hrest] at hbehind
    rw [hrest, withReturns_cons (by decide), withReturns_cons (by decide), kindsFrom_block,
      kindsFrom_block, behindComment_withReturns, ← hbehind]
    rfl
  | case4 r rest hrest after hclose ih =>
    have hbehind := closeComment_rest (r.skip 2).rest (r.skip 2).position
    rw [hclose, Reader.rest_skip_two hrest] at hbehind
    rw [hrest, withReturns_cons (by decide), withReturns_cons (by decide), kindsFrom_block,
      kindsFrom_block, behindComment_withReturns, ← hbehind]
    exact ih
  | case5 r c rest hline hblock hrest hspacing ih =>
    rw [Reader.rest_skip_one hrest] at ih
    rw [hrest, kindsFrom_spacing hspacing, ← ih]
    by_cases hc : c = '\n'
    · rw [hc, withReturns_feed, kindsFrom_spacing rfl, kindsFrom_spacing rfl]
    · rw [withReturns_cons hc, kindsFrom_spacing hspacing]
  | case6 r c rest hline hblock hrest hspacing e htoken =>
    have hc : c ≠ '\n' := fun hc => hspacing (hc ▸ rfl)
    have hnext : nextToken operators r.rest = .error e.cause :=
      nextToken_eq_error_iff.2 ⟨e, htoken, rfl⟩
    rw [hrest] at hnext ⊢
    rw [toOption_kindsFrom_token (uncommented_cons hline hblock) hc hspacing, hnext,
      kindsFrom_token (uncommented_cons hline hblock) hspacing, hnext]
    rfl
  | case7 r c rest hline hblock hrest hspacing kind after htoken ih =>
    have hc : c ≠ '\n' := fun hc => hspacing (hc ▸ rfl)
    have hnext : nextToken operators r.rest = .ok (kind, after.rest) :=
      nextToken_eq_ok_iff.2 ⟨after, htoken, rfl⟩
    rw [hrest] at hnext ⊢
    rw [toOption_kindsFrom_token (uncommented_cons hline hblock) hc hspacing, hnext,
      kindsFrom_token (uncommented_cons hline hblock) hspacing, hnext]
    exact (congrArg _ ih).trans (toOption_map ..).symm

end Braced

/-! ### The indented dialect -/

namespace Indented

/-- Whether a backslash joins two lines of a source: it stands right before a line feed, and neither
in a comment nor in a text. Behind an error nothing is looked at. -/
def joinsLines (cs : List Char) : Bool :=
  match cs with
  | [] => false
  | '#' :: rest => joinsLines (rest.dropWhile (· != '\n'))
  | '\\' :: '\n' :: _ => true
  | c :: rest =>
    if c = '\n' ∨ isSpacing c then joinsLines rest
    else
      match _h : nextToken operators (c :: rest) with
      | .error _ => false
      | .ok (_, rest) => joinsLines rest
termination_by cs.length
decreasing_by
  · exact Nat.lt_succ_of_le (List.dropWhile_sublist _).length_le
  · exact Nat.lt_succ_self _
  · exact nextToken_length_lt operators_length_pos _h

section Joins

variable {c : Char} {cs rest : List Char} {kind : TokenKind} {place : Place} {indents : List Nat}
  {depth : Nat} {pending : Bool}

theorem joinsLines_nil : joinsLines [] = false := by
  rw [joinsLines]

theorem joinsLines_comment (cs : List Char) :
    joinsLines ('#' :: cs) = joinsLines (cs.dropWhile (· != '\n')) := by
  rw [joinsLines]

theorem joinsLines_joined (cs : List Char) : joinsLines ('\\' :: '\n' :: cs) = true := by
  rw [joinsLines]

theorem joinsLines_blank (h : c = '\n' ∨ isSpacing c) (cs : List Char) :
    joinsLines (c :: cs) = joinsLines cs := by
  rw [joinsLines, if_pos h]
  · rintro rfl
    revert h
    decide
  · rintro further rfl -
    revert h
    decide

theorem joinsLines_token (hbreak : c ≠ '\n') (hcomment : c ≠ '#')
    (hjoined : ∀ further, c = '\\' → cs ≠ '\n' :: further) (hspacing : ¬isSpacing c = true) :
    joinsLines (c :: cs) =
      match nextToken operators (c :: cs) with
      | .error _ => false
      | .ok (_, rest) => joinsLines rest := by
  rw [joinsLines, if_neg (not_or.2 ⟨hbreak, hspacing⟩)]
  · split
    · next h => rw [h]
    · next h => rw [h]
  · exact hcomment
  · exact hjoined

theorem joinsLines_dropWhile (cs : List Char) :
    joinsLines (cs.dropWhile isSpacing) = joinsLines cs := by
  induction cs with
  | nil => rfl
  | cons c cs ih =>
    by_cases hc : isSpacing c = true
    · rw [List.dropWhile_cons_of_pos hc, ih, joinsLines_blank (.inr hc)]
    · rw [List.dropWhile_cons_of_neg hc]

theorem joinsLines_drop (cs : List Char) :
    joinsLines ((cs.dropWhile (· != '\n')).drop 1) = joinsLines (cs.dropWhile (· != '\n')) := by
  obtain h | ⟨rest, h⟩ := atLineEnd_dropWhile cs
  · rw [h]
    rfl
  · rw [h, joinsLines_blank (.inl rfl)]
    rfl

end Joins

section Returns

variable {c : Char} {cs rest : List Char} {place : Place} {indents : List Nat} {depth : Nat}
  {pending : Bool}

theorem dropWhile_isSpacing_withReturns (cs : List Char) :
    (withReturns cs).dropWhile isSpacing =
      (withReturns (cs.dropWhile isSpacing)).dropWhile isSpacing := by
  induction cs with
  | nil => rfl
  | cons c cs ih =>
    by_cases hc : isSpacing c = true
    · have hbreak : c ≠ '\n' := fun h => by rw [h] at hc; cases hc
      rw [withReturns_cons hbreak, List.dropWhile_cons_of_pos hc, List.dropWhile_cons_of_pos hc, ih]
    · rw [List.dropWhile_cons_of_neg hc]

/-- The first character of a line that is no indentation, unless it is the end of the line. -/
theorem dropWhile_isSpacing_of_ne (h : cs.dropWhile isSpacing = c :: rest) (hbreak : c ≠ '\n') :
    (withReturns cs).dropWhile isSpacing = c :: withReturns rest := by
  have hc : ¬isSpacing c = true := by
    have hhead := List.head?_dropWhile_not isSpacing cs
    rw [h] at hhead
    simpa using hhead
  rw [dropWhile_isSpacing_withReturns, h, withReturns_cons hbreak, List.dropWhile_cons_of_neg hc]

theorem takeWhile_isSpacing_of_ne (h : cs.dropWhile isSpacing = c :: rest) (hbreak : c ≠ '\n') :
    (withReturns cs).takeWhile isSpacing = cs.takeWhile isSpacing := by
  have hspacing : '\n' ∉ cs.takeWhile isSpacing := fun hmem =>
    absurd (List.mem_takeWhile_imp hmem) (by decide)
  have hcs := withReturns_append hspacing (c :: rest)
  rw [← h, List.takeWhile_append_dropWhile, h, withReturns_cons hbreak] at hcs
  have hdrop := dropWhile_isSpacing_of_ne h hbreak
  have hsplit := (List.takeWhile_append_dropWhile (p := isSpacing) (l := withReturns cs))
  rw [hdrop, hcs] at hsplit
  rw [hcs]
  exact List.append_cancel_right hsplit

/-- A token and the tokens behind it. -/
theorem toOption_kindsFrom_token (hbreak : c ≠ '\n') (hcomment : c ≠ '#')
    (hspacing : ¬isSpacing c = true) :
    (kindsFrom (.inLine depth pending) indents (withReturns (c :: cs))).toOption =
      (nextToken operators (c :: cs)).toOption.bind fun x =>
        (kindsFrom (.inLine (depthAfter x.1 depth) true) indents
          (withReturns x.2)).toOption.map (x.1 :: ·) := by
  have hreturns := nextToken_withReturns oneLine_operators hbreak cs
  rw [withReturns_cons hbreak] at hreturns ⊢
  rw [kindsFrom_inLine_token hbreak hcomment (fun further _ => withReturns_ne_feed cs further)
    hspacing, toOption_bind, hreturns, Option.bind_map]
  exact congrArg _ (funext fun x => toOption_map ..)

end Returns

theorem toOption_kindsFrom_withReturns (place : Place) (indents : List Nat) (r : Reader) :
    (kindsFrom place indents (withReturns r.rest)).toOption =
      if joinsLines r.rest then none else (kindsFrom place indents r.rest).toOption := by
  fun_induction scan place indents r with
  | case1 indents r hnil =>
    have hdrop : r.rest.dropWhile isSpacing = [] := hnil
    have hdrop' : (withReturns r.rest).dropWhile isSpacing = [] := by
      rw [dropWhile_isSpacing_withReturns, hdrop]
      rfl
    rw [← joinsLines_dropWhile, hdrop, joinsLines_nil, kindsFrom_lineStart_nil hdrop,
      kindsFrom_lineStart_nil hdrop']
    rfl
  | case2 indents r cs hrest ih =>
    have hdrop : r.rest.dropWhile isSpacing = '\n' :: cs := hrest
    have hdrop' : (withReturns r.rest).dropWhile isSpacing = '\n' :: withReturns cs := by
      rw [dropWhile_isSpacing_withReturns, hdrop]
      rfl
    rw [Reader.rest_skip_one hrest] at ih
    rw [← joinsLines_dropWhile, hdrop, joinsLines_blank (.inl rfl), kindsFrom_lineStart_break hdrop,
      kindsFrom_lineStart_break hdrop', ih]
  | case3 indents r cs hrest ih =>
    have hdrop : r.rest.dropWhile isSpacing = '#' :: cs := hrest
    rw [show (((lineBody r).skip 1).line.2.skip 1).rest = (cs.dropWhile (· != '\n')).drop 1 from
      congrArg (fun cs => ((cs.drop 1).dropWhile (· != '\n')).drop 1) hrest] at ih
    rw [← joinsLines_dropWhile, hdrop, joinsLines_comment, ← joinsLines_drop,
      kindsFrom_lineStart_comment hdrop,
      kindsFrom_lineStart_comment (dropWhile_isSpacing_of_ne hdrop (by decide)), toOption_map,
      toOption_map, drop_dropWhile_withReturns, ih, lineText_withReturns]
    exact apply_ite ..
  | case4 indents r hnil hbreak hcomment ih =>
    obtain ⟨c, cs, hrest⟩ := List.exists_cons_of_ne_nil hnil
    have hdrop : r.rest.dropWhile isSpacing = c :: cs := hrest
    have hc : c ≠ '\n' := fun hc => hbreak cs (hc ▸ hrest)
    have hc' : c ≠ '#' := fun hc => hcomment cs (hc ▸ hrest)
    rw [hrest] at ih
    rw [← joinsLines_dropWhile, hdrop, kindsFrom_lineStart_code hdrop hc hc',
      kindsFrom_lineStart_code (dropWhile_isSpacing_of_ne hdrop hc) hc hc',
      takeWhile_isSpacing_of_ne hdrop hc, ← withReturns_cons hc]
    cases alignKinds (width (r.rest.takeWhile isSpacing)) indents with
    | error cause => exact (ite_self none).symm
    | ok aligned =>
      rw [ok_bind, ok_bind, toOption_map, toOption_map, ih ([], aligned.2)]
      exact apply_ite ..
  | case5 indents r depth pending hnil =>
    rw [hnil, joinsLines_nil]
    rfl
  | case6 indents r pending cs hrest ih =>
    rw [Reader.rest_skip_one hrest] at ih
    rw [hrest, joinsLines_blank (.inl rfl), withReturns_feed, kindsFrom_inLine_spacing rfl,
      kindsFrom_inLine_break, kindsFrom_inLine_break, toOption_map, toOption_map, ih]
    exact apply_ite ..
  | case7 indents r depth pending cs hrest hdepth ih =>
    rw [Reader.rest_skip_one hrest] at ih
    rw [hrest, joinsLines_blank (.inl rfl), withReturns_feed, kindsFrom_inLine_spacing rfl,
      kindsFrom_inLine_within hdepth, kindsFrom_inLine_within hdepth, ih]
  | case8 indents r depth pending cs hrest ih =>
    have hline : r.line.2.rest = cs.dropWhile (· != '\n') :=
      (congrArg (List.dropWhile (· != '\n')) hrest :).trans (List.dropWhile_cons_of_pos rfl)
    rw [hline] at ih
    rw [hrest, joinsLines_comment, withReturns_cons (by decide), kindsFrom_inLine_comment,
      kindsFrom_inLine_comment, ← ih]
    obtain hdrop | hdrop := dropWhile_withReturns cs
    · rw [hdrop]
    · rw [hdrop, kindsFrom_inLine_spacing rfl]
  | case9 indents r depth pending cs hrest ih =>
    rw [hrest, joinsLines_joined, toOption_kindsFrom_token (by decide) (by decide) (by decide)]
    cases hnext : nextToken operators ('\\' :: '\n' :: cs) with
    | error cause => rfl
    | ok x => exact absurd hnext nextToken_backslash
  | case10 indents r depth pending c cs hbreak hcomment hjoined hrest hspacing ih =>
    rw [Reader.rest_skip_one hrest] at ih
    rw [hrest, joinsLines_blank (.inr hspacing), withReturns_cons hbreak,
      kindsFrom_inLine_spacing hspacing, kindsFrom_inLine_spacing hspacing, ih]
  | case11 indents r depth pending c cs hbreak hcomment hjoined hrest hspacing e htoken =>
    have hnext : nextToken operators r.rest = .error e.cause :=
      nextToken_eq_error_iff.2 ⟨e, htoken, rfl⟩
    rw [hrest] at hnext ⊢
    rw [toOption_kindsFrom_token hbreak hcomment hspacing, hnext,
      joinsLines_token hbreak hcomment hjoined hspacing, hnext,
      kindsFrom_inLine_token hbreak hcomment hjoined hspacing, hnext]
    rfl
  | case12 indents r depth pending c cs hbreak hcomment hjoined hrest hspacing kind after htoken
      ih =>
    have hnext : nextToken operators r.rest = .ok (kind, after.rest) :=
      nextToken_eq_ok_iff.2 ⟨after, htoken, rfl⟩
    rw [hrest] at hnext ⊢
    rw [toOption_kindsFrom_token hbreak hcomment hspacing, hnext,
      joinsLines_token hbreak hcomment hjoined hspacing, hnext,
      kindsFrom_inLine_token hbreak hcomment hjoined hspacing, hnext]
    refine (congrArg (Option.map (kind :: ·)) ih).trans ?_
    rw [ok_bind, toOption_map]
    exact apply_ite ..

end Indented

/-! ### Programs -/

/-- What is read depends on the kinds of the tokens. -/
theorem Parser.run_eq_ok_iff {α : Type} {p : Parser α} (hp : ∀ g, Relabels g p p)
    {x y : Except SyntaxError (List Token)} (h : (outcome x).toOption = (outcome y).toOption)
    {a : α} : run p x = .ok a ↔ run p y = .ok a := by
  have hok {z : Except SyntaxError α} : z = .ok a ↔ z.mapError SyntaxError.cause = .ok a := by
    cases z with
    | error e => exact ⟨nofun, nofun⟩
    | ok b => exact ⟨congrArg _, fun h => by cases h; rfl⟩
  cases x with
  | error e =>
    cases y with
    | error e' => exact ⟨nofun, nofun⟩
    | ok us => cases h
  | ok ts =>
    cases y with
    | error e' => cases h
    | ok us => rw [hok, hok, run_mapError_cause hp (Option.some.inj h)]

/-- The same source with a carriage return in front of every line feed. -/
def Text.withReturns (source : String) : String := .ofList (Labyrinth.withReturns source.toList)

theorem Braced.parse_withReturns {source : String} {body : List Stmt} :
    parse (Text.withReturns source) = .ok body ↔ parse source = .ok body := by
  refine Parser.run_eq_ok_iff relabels_program ?_
  have hreturns := toOption_kindsFrom_withReturns (.ofString source)
  rw [tokens, tokens, outcome_scan, outcome_scan]
  simpa [Text.withReturns, Reader.ofString] using hreturns

theorem Indented.parse_withReturns {source : String} {body : List Stmt} :
    parse (Text.withReturns source) = .ok body ↔
      parse source = .ok body ∧ joinsLines source.toList = false := by
  have hreturns := toOption_kindsFrom_withReturns .lineStart [] (.ofString source)
  have hsource : (Reader.ofString (Text.withReturns source)).rest =
      withReturns (Reader.ofString source).rest := String.toList_ofList
  rw [← hsource, ← outcome_scan, ← outcome_scan] at hreturns
  have hrest : joinsLines (Reader.ofString source).rest = joinsLines source.toList := rfl
  rw [hrest] at hreturns
  cases hjoins : joinsLines source.toList with
  | false =>
    rw [hjoins, if_neg (by decide)] at hreturns
    rw [and_iff_left rfl]
    exact Parser.run_eq_ok_iff relabels_program hreturns
  | true =>
    rw [hjoins, if_pos rfl] at hreturns
    refine ⟨fun h => ?_, fun h => nomatch h.2⟩
    obtain ⟨ts, hts, -⟩ := bind_eq_ok_iff.1 h
    rw [tokens] at hts
    rw [hts] at hreturns
    cases hreturns

/-- A program whose lines end with carriage returns and line feeds is read as it is with line feeds
alone, but it is refused if a backslash joins two of its lines in the indented dialect. -/
theorem Program.read_withReturns {d : Dialect} {source : String} {body : List Stmt} :
    Program.read ⟨d, Text.withReturns source⟩ = .ok body ↔
      Program.read ⟨d, source⟩ = .ok body ∧
        (d = .indented → Indented.joinsLines source.toList = false) := by
  cases d with
  | indented =>
    exact Indented.parse_withReturns.trans
      (and_congr_right' ⟨fun h _ => h, fun h => h rfl⟩)
  | braced => exact Braced.parse_withReturns.trans (and_iff_left nofun).symm

/-- A sum on two lines. -/
def Program.joined : Program := ⟨.indented, "x = 1 + \\\n2\n"⟩

/-- The tree of `joined`. -/
def Program.joinedBody : List Stmt :=
  [.declare (.single "x") (some (.binary .add (.literal (.int 1)) (.literal (.int 2)))) false]

/-- With carriage returns it is refused at the backslash. -/
theorem Program.read_joined_withReturns :
    '\r' ∉ Program.joined.source.toList ∧ Program.joined.read = .ok Program.joinedBody ∧
      Program.read ⟨Program.joined.dialect, Text.withReturns Program.joined.source⟩ =
        .error ⟨⟨1, 9⟩, .unexpectedCharacter '\\'⟩ :=
  ⟨by decide, by cbv, by cbv⟩

end Labyrinth
