import Labyrinth.Proofs.Language.LineEnds
import Labyrinth.Proofs.Language.Locality

/-!
# Sources that go on

A source may **go on** behind its end, with a line feed first. Nothing changes about the tokens
before that: none of them contains a line feed, and what would be a different token in front of some
characters is the same one in front of a line feed.

## Main results

* `Reader.GoesOn.token`: a single token.
* `Braced.scan_append`: the tokens of a source of the braced dialect, and of its tail.
-/

namespace Labyrinth

open Labyrinth.Braced

/-- Nothing or a line feed comes first. -/
def BeginsLine (tail : List Char) : Prop := ∀ c ∈ tail.head?, c = '\n'

namespace BeginsLine

theorem nil : BeginsLine [] := fun _ h => nomatch h

theorem cons (cs : List Char) : BeginsLine ('\n' :: cs) := fun _ h => (Option.some.inj h).symm

theorem cases {tail : List Char} (h : BeginsLine tail) : tail = [] ∨ ∃ cs, tail = '\n' :: cs := by
  cases tail with
  | nil => exact .inl rfl
  | cons c cs =>
    obtain rfl : c = '\n' := h c rfl
    exact .inr ⟨cs, rfl⟩

variable {tail : List Char} {p : Char → Bool}

theorem endsLine (h : BeginsLine tail) : EndsLine tail := by
  obtain rfl | ⟨cs, rfl⟩ := h.cases
  · exact .nil
  · exact .feed cs

theorem head?_eq_false (h : BeginsLine tail) (hp : p '\n' = false) :
    ∀ c ∈ tail.head?, p c = false := fun c hc => h c hc ▸ hp

end BeginsLine

/-! ### Single tokens -/

theorem Reader.rest_skip_one {r : Reader} {c : Char} {cs : List Char} (h : r.rest = c :: cs) :
    (r.skip 1).rest = cs := congrArg (List.drop 1) h

theorem Reader.rest_skip_two {r : Reader} {c d : Char} {cs : List Char}
    (h : r.rest = c :: d :: cs) : (r.skip 2).rest = cs := congrArg (List.drop 2) h

/-- The second reader stands before the same characters as the first one, wherever that may be, and
before a tail behind them. -/
def Reader.GoesOn (tail : List Char) (r r' : Reader) : Prop := r'.rest = r.rest ++ tail

namespace Reader.GoesOn

variable {tail : List Char} {r r' after : Reader} {kind : TokenKind}

theorem rest_eq {cs : List Char} (hr : r.GoesOn tail r') (h : r.rest = cs) :
    r'.rest = cs ++ tail := h ▸ hr

theorem skip {n : Nat} (hr : r.GoesOn tail r') (hn : n ≤ r.rest.length) :
    (r.skip n).GoesOn tail (r'.skip n) := by
  rw [GoesOn, Reader.skip, Reader.skip, hr, List.drop_append_of_le_length hn]

theorem skip_nil (hr : r.GoesOn [] r') (n : Nat) : (r.skip n).GoesOn [] (r'.skip n) := by
  rw [GoesOn, List.append_nil] at hr ⊢
  rw [Reader.skip, Reader.skip, hr]

variable (htail : BeginsLine tail)
include htail

theorem takeWhile (hr : r.GoesOn tail r') {p : Char → Bool} (hp : p '\n' = false) :
    (r'.takeWhile p).1 = (r.takeWhile p).1 ∧
      (r.takeWhile p).2.GoesOn tail (r'.takeWhile p).2 := by
  simp only [GoesOn, Reader.takeWhile] at hr ⊢
  rw [hr]
  exact ⟨takeWhile_append_of_head? (htail.head?_eq_false hp) _,
    dropWhile_append_of_head? (htail.head?_eq_false hp) _⟩

theorem line (hr : r.GoesOn tail r') :
    r'.line.1 = r.line.1 ∧ r.line.2.GoesOn tail r'.line.2 := by
  obtain ⟨htext, hrest⟩ := hr.takeWhile htail (p := (· != '\n')) rfl
  refine ⟨?_, hrest⟩
  simp only [Reader.line, htext]

/-- A single token. -/
theorem token {operators : List String}
    (hops : ∀ op ∈ operators, '\n' ∉ op.toList ∧ '\r' ∉ op.toList) (hr : r.GoesOn tail r')
    (hne : r.rest ≠ []) (h : r.token operators = .ok (kind, after)) :
    ∃ after', r'.token operators = .ok (kind, after') ∧ after.GoesOn tail after' := by
  have hnext : nextToken operators r.rest = .ok (kind, after.rest) :=
    nextToken_eq_ok_iff.2 ⟨after, h, rfl⟩
  have hnext' := htail.endsLine.nextToken_eq_ok hops hne hnext
  rw [← hr] at hnext'
  exact nextToken_eq_ok_iff.1 hnext'

end Reader.GoesOn

/-- No token belongs to the layout of a source. -/
theorem Reader.isLayout_token {operators : List String} {r after : Reader} {kind : TokenKind}
    (h : r.token operators = .ok (kind, after)) : kind.isLayout = false := by
  have hoperator {r : Reader} (h : r.operator operators = .ok (kind, after)) :
      kind.isLayout = false := by
    unfold Reader.operator at h
    split at h
    · cases h
      rfl
    · split at h
      · cases h
      · cases h
  unfold Reader.token at h
  split at h
  · split at h
    · rw [integer_eq] at h
      split at h
      · cases h
      · split at h
        · cases h
          rfl
        · cases h
    · split at h
      · obtain ⟨_, -, h⟩ := bind_eq_ok_iff.1 h
        cases h
        rfl
      · split at h
        · cases h
          rfl
        · exact hoperator h
  · exact hoperator h

/-! ### The braced dialect -/

namespace Braced

section Steps

variable {r : Reader} {c : Char} {cs : List Char}

theorem scan_nil (h : r.rest = []) : scan r = .ok [⟨.eof, r.position⟩] := by
  rw [scan]
  split <;> grind

theorem scan_line (h : r.rest = '/' :: '/' :: cs) : scan r = scan (r.skip 2).line.2 := by
  rw [scan]
  split <;> grind

theorem scan_block (h : r.rest = '/' :: '*' :: cs) : ∃ q,
    scan r = match closeComment cs q with
      | none => .error ⟨r.position, .unterminatedComment⟩
      | some after => scan after := by
  refine ⟨(r.skip 2).position, ?_⟩
  rw [← Reader.rest_skip_two h]
  conv_lhs => rw [scan]
  split <;> grind

theorem scan_token (h : r.rest = c :: cs) (hcomment : Uncommented (c :: cs))
    (hspacing : ¬isSpacing c = true) : scan r = (do
      let (kind, after) ← r.token operators
      let ts ← scan after
      return ⟨kind, r.position⟩ :: ts) := by
  obtain ⟨_, p⟩ := r
  subst h
  rw [scan_cons hcomment, if_neg hspacing]

end Steps

variable {tail : List Char} {zs : List TokenKind}

theorem closeComment_append {cs : List Char} {p : Position} {r : Reader} (tail : List Char)
    (h : closeComment cs p = some r) (p' : Position) :
    ∃ r', closeComment (cs ++ tail) p' = some r' ∧ r.GoesOn tail r' := by
  fun_induction closeComment cs p generalizing p' with
  | case1 rest p =>
    cases h
    exact ⟨_, rfl, rfl⟩
  | case2 c rest p hclose ih =>
    obtain ⟨r', hr', hlonger⟩ := ih h (p'.next c)
    refine ⟨r', ?_, hlonger⟩
    cases rest with
    | nil => cases h
    | cons d rest =>
      rw [List.cons_append, closeComment]
      · exact hr'
      · rintro rest' rfl heq
        cases heq
        exact hclose rest rfl rfl
  | case3 => cases h

theorem Uncommented.append {cs : List Char} (h : Uncommented cs) (hne : cs ≠ [])
    (htail : BeginsLine tail) : Uncommented (cs ++ tail) := by
  rcases cs with _ | ⟨c, _ | ⟨d, cs⟩⟩
  · exact absurd rfl hne
  · refine fun rest => ⟨fun heq => ?_, fun heq => ?_⟩
    · obtain ⟨-, rfl⟩ := List.cons.inj heq
      cases htail '/' rfl
    · obtain ⟨-, rfl⟩ := List.cons.inj heq
      cases htail '*' rfl
  · refine fun rest => ⟨fun heq => ?_, fun heq => ?_⟩
    · cases heq
      exact (h cs).1 rfl
    · cases heq
      exact (h cs).2 rfl

/-- The tokens of a source are followed by those of its tail. -/
theorem scan_append (htail : BeginsLine tail)
    (hend : ∀ p, ∃ us, scan ⟨tail, p⟩ = .ok us ∧ us.map Token.kind = zs ++ [.eof])
    {r : Reader} {ts : List Token} (h : scan r = .ok ts) {r' : Reader} (hr : r.GoesOn tail r') :
    ∃ xs us, ts.map Token.kind = xs ++ [.eof] ∧ .eof ∉ xs ∧ scan r' = .ok us ∧
      us.map Token.kind = xs ++ zs ++ [.eof] := by
  fun_induction scan r generalizing ts r' with
  | case1 r hnil =>
    cases h
    obtain ⟨us, hus, hkinds⟩ := hend r'.position
    obtain ⟨_, p⟩ := r'
    obtain rfl := hr.rest_eq hnil
    exact ⟨[], us, rfl, List.not_mem_nil, hus, hkinds⟩
  | case2 r rest hrest ih =>
    have hskip := hr.skip (n := 2) (by simp [hrest])
    obtain ⟨xs, us, hxs, heof, hus, hkinds⟩ := ih h (hskip.line htail).2
    exact ⟨xs, us, hxs, heof, (scan_line (hr.rest_eq hrest)).trans hus, hkinds⟩
  | case3 => cases h
  | case4 r rest hrest after hclose ih =>
    have hrest' : r'.rest = '/' :: '*' :: (rest ++ tail) := hr.rest_eq hrest
    obtain ⟨q, hscan⟩ := scan_block hrest'
    rw [Reader.rest_skip_two hrest] at hclose
    obtain ⟨after', hafter, hgoes⟩ := closeComment_append tail hclose q
    obtain ⟨xs, us, hxs, heof, hus, hkinds⟩ := ih h hgoes
    refine ⟨xs, us, hxs, heof, hscan.trans ?_, hkinds⟩
    rw [hafter]
    exact hus
  | case5 r c rest hline hblock hrest hspacing ih =>
    have hskip := hr.skip (n := 1) (by simp [hrest])
    obtain ⟨xs, us, hxs, heof, hus, hkinds⟩ := ih h hskip
    obtain ⟨_, p⟩ := r'
    obtain rfl := hr.rest_eq hrest
    exact ⟨xs, us, hxs, heof, (scan_spacing hspacing _ p).trans hus, hkinds⟩
  | case6 => cases h
  | case7 r c rest hline hblock hrest hspacing kind after htoken ih =>
    obtain ⟨ts, hts, h⟩ := bind_eq_ok_iff.1 h
    cases h
    have hne : c :: rest ≠ [] := List.cons_ne_nil c rest
    obtain ⟨after', htoken', hafter⟩ := hr.token htail oneLine_operators (hrest ▸ hne) htoken
    obtain ⟨xs, us, hxs, heof, hus, hkinds⟩ := ih hts hafter
    have hcomment : Uncommented (c :: rest ++ tail) :=
      (uncommented_cons hline hblock).append hne htail
    refine ⟨kind :: xs, ⟨kind, r'.position⟩ :: us, by rw [List.map_cons, hxs]; rfl, ?_, ?_, ?_⟩
    · rw [List.mem_cons, not_or]
      refine ⟨?_, heof⟩
      rintro rfl
      cases Reader.isLayout_token htoken
    · rw [scan_token (hr.rest_eq hrest) hcomment hspacing, htoken']
      simp only [bind, Except.bind, hus]
      rfl
    · rw [List.map_cons, hkinds]
      rfl

/-- The tokens of two sources, and of the second one behind the first one. -/
theorem tokens_append {first second : String} {ts us : List Token}
    (hts : tokens first = .ok ts) (hus : tokens second = .ok us) :
    ∃ xs zs vs, ts.map Token.kind = xs ++ [.eof] ∧ us.map Token.kind = zs ++ [.eof] ∧ .eof ∉ xs ∧
      .eof ∉ zs ∧ tokens (first ++ "\n" ++ second) = .ok vs ∧
      vs.map Token.kind = xs ++ zs ++ [.eof] := by
  have hnil (p : Position) :
      ∃ us, scan ⟨[], p⟩ = .ok us ∧ us.map Token.kind = [] ++ [TokenKind.eof] := by
    refine ⟨[⟨.eof, p⟩], ?_, rfl⟩
    rw [scan]
  have hself (p : Position) : (Reader.ofString second).GoesOn [] ⟨second.toList, p⟩ :=
    (List.append_nil _).symm
  obtain ⟨zs, -, hzs, heof, -⟩ := scan_append .nil hnil hus (hself Position.start)
  have hsecond (p : Position) : ∃ us, scan ⟨'\n' :: second.toList, p⟩ = .ok us ∧
      us.map Token.kind = zs ++ [.eof] := by
    obtain ⟨zs', us', hzs', -, hus', hkinds⟩ := scan_append .nil hnil hus (hself (p.next '\n'))
    obtain rfl : zs' = zs := List.append_cancel_right (hzs'.symm.trans hzs)
    rw [List.append_nil] at hkinds
    exact ⟨us', (scan_spacing rfl _ p).trans hus', hkinds⟩
  have hboth : (Reader.ofString first).GoesOn ('\n' :: second.toList)
      (Reader.ofString (first ++ "\n" ++ second)) := by
    suffices h : (first ++ "\n" ++ second).toList = first.toList ++ '\n' :: second.toList from h
    simp
  obtain ⟨xs, vs, hxs, heof', hvs, hkinds⟩ := scan_append (.cons _) hsecond hts hboth
  exact ⟨xs, zs, vs, hxs, hzs, heof', heof, hvs, hkinds⟩

end Braced

end Labyrinth
