import Labyrinth.Language.Read
import Labyrinth.Proofs.Language.BracedRelabeling
import Labyrinth.Proofs.Language.IndentedRelabeling
import Labyrinth.Proofs.Language.WellFormed
import Mathlib.Data.List.Induction

/-!
# Positions in a source

Every position that the lexers hand out **lies in** the source: it stands behind some of the first
characters. This holds for the positions of tokens, among them those of the layout, and for those of
errors. Parsers pass such positions on, so that an error always points into the source.

## Main results

* `Reader.StandsIn.token`: readers behind tokens, and errors in tokens.
* `Indented.located_scan`, `Braced.located_scan`: tokens and errors in sources.
* `Program.position_of_read`: where the error in a program is reported.
-/

namespace Labyrinth

/-! ### Positions behind the beginning of a source -/

/-- A position behind some of the first characters of a source. -/
def Position.LiesIn (source : List Char) (q : Position) : Prop :=
  ∃ before, before <+: source ∧ q = Position.start.after before

namespace Position

theorem after_concat (p : Position) (cs : List Char) (c : Char) :
    p.after (cs ++ [c]) = (p.after cs).next c := after_append p cs [c]

/-- Lines are counted by the line feeds before a position. -/
theorem line_after (cs : List Char) : (start.after cs).line = 1 + cs.count '\n' := by
  induction cs using List.reverseRecOn with
  | nil => rfl
  | append_singleton cs c ih =>
    rw [after_concat, next, List.count_append, List.count_singleton]
    split
    · next hc =>
      rw [ih, beq_iff_eq.2 hc]
      exact Nat.add_assoc ..
    · next hc =>
      rw [ih, beq_false_of_ne hc]
      rfl

/-- Columns are counted by the characters between the last line feed and a position. -/
theorem column_after (cs : List Char) :
    (start.after cs).column = 1 + (cs.reverse.takeWhile (· ≠ '\n')).length := by
  induction cs using List.reverseRecOn with
  | nil => rfl
  | append_singleton cs c ih =>
    rw [after_concat, next, List.reverse_concat, List.takeWhile_cons]
    split
    · next hc => simp [hc]
    · next hc =>
      rw [ih, if_pos (decide_eq_true hc), List.length_cons]
      exact Nat.add_assoc ..

end Position

/-! ### Readers -/

/-- A reader that has come to some place in a source. -/
def Reader.StandsIn (source : List Char) (r : Reader) : Prop :=
  ∃ before, source = before ++ r.rest ∧ r.position = Position.start.after before

/-- What has been read leads to another place in the source, and an error lies in it. -/
def ReadsIn {α : Type} (source : List Char) : Except SyntaxError (α × Reader) → Prop
  | .error e => e.position.LiesIn source
  | .ok (_, r) => r.StandsIn source

/-- The rest of a text is read behind a character of it. -/
theorem ReadsIn.cons {source : List Char} {x : Except SyntaxError (List Char × Reader)}
    (h : ReadsIn source x) (c : Char) : ReadsIn source (do
      let (text, r) ← x
      return (c :: text, r)) := by
  cases x with
  | error e => exact h
  | ok a => exact h

namespace Reader.StandsIn

variable {source : List Char} {r : Reader}

theorem ofString (source : String) : (Reader.ofString source).StandsIn source.toList :=
  ⟨[], rfl, rfl⟩

theorem liesIn (h : r.StandsIn source) : r.position.LiesIn source := by
  obtain ⟨before, rfl, hposition⟩ := h
  exact ⟨before, List.prefix_append .., hposition⟩

/-- Some characters have been passed over. -/
theorem append (h : r.StandsIn source) {cs : List Char} {r' : Reader}
    (hrest : r.rest = cs ++ r'.rest) (hposition : r'.position = r.position.after cs) :
    r'.StandsIn source := by
  obtain ⟨before, rfl, hbefore⟩ := h
  refine ⟨before ++ cs, by rw [hrest, List.append_assoc], ?_⟩
  rw [hposition, hbefore, Position.after_append]

theorem skip (h : r.StandsIn source) (n : Nat) : (r.skip n).StandsIn source :=
  h.append (List.take_append_drop n r.rest).symm rfl

theorem takeWhile (h : r.StandsIn source) (p : Char → Bool) : (r.takeWhile p).2.StandsIn source :=
  h.append List.takeWhile_append_dropWhile.symm rfl

theorem next {c : Char} {cs : List Char} {p : Position} (h : Reader.StandsIn source ⟨c :: cs, p⟩) :
    Reader.StandsIn source ⟨cs, p.next c⟩ := h.skip 1

theorem readText {start p : Position} {cs : List Char} (h : Reader.StandsIn source ⟨cs, p⟩)
    (quote : Char) (hstart : start.LiesIn source) :
    ReadsIn source (readText quote start cs p) := by
  fun_induction Labyrinth.readText quote start cs p with
  | case1 => exact hstart
  | case2 => exact hstart
  | case3 => exact h.next
  | case4 => exact hstart
  | case5 => exact h.next.next.liesIn
  | case6 p e rest x _ _ _ ih => exact (ih h.next.next).cons x
  | case7 c rest p _ _ _ ih => exact (ih h.next).cons c

theorem integer (h : r.StandsIn source) : ReadsIn source r.integer := by
  unfold Reader.integer
  dsimp only
  split
  · exact h.liesIn
  · split
    · split
      · exact h.liesIn
      · exact h.takeWhile _
    · split
      · exact h.liesIn
      · exact h.takeWhile _
    · exact h.takeWhile _

theorem operator (h : r.StandsIn source) (operators : List String) :
    ReadsIn source (r.operator operators) := by
  unfold Reader.operator
  split
  · exact h.skip _
  · split
    · exact h.liesIn
    · exact h.liesIn

/-- A token leads to another place in the source, and errors in it lie in the source. -/
theorem token (h : r.StandsIn source) (operators : List String) :
    ReadsIn source (r.token operators) := by
  unfold Reader.token
  split
  · next c rest hrest =>
    have hnext : Reader.StandsIn source ⟨rest, r.position.next c⟩ := next (hrest ▸ h)
    split
    · exact h.integer
    · split
      · have htext := hnext.readText c h.liesIn
        cases hx : Labyrinth.readText c r.position rest (r.position.next c) with
        | error e =>
          rw [hx] at htext
          exact htext
        | ok a =>
          rw [hx] at htext
          exact htext
      · split
        · exact h.takeWhile _
        · exact h.operator operators
  · exact h.operator operators

end Reader.StandsIn

/-! ### Tokens -/

/-- All tokens of a sequence, or the error in it, lie in a source. -/
def Located (source : List Char) : Except SyntaxError (List Token) → Prop
  | .error e => e.position.LiesIn source
  | .ok ts => ∀ t ∈ ts, t.position.LiesIn source

theorem Located.append {source : List Char} {us : List Token} {x : Except SyntaxError (List Token)}
    (hus : ∀ t ∈ us, t.position.LiesIn source) (h : Located source x) :
    Located source (do
      let ts ← x
      return us ++ ts) := by
  cases x with
  | error e => exact h
  | ok ts => exact List.forall_mem_append.2 ⟨hus, h⟩

theorem Located.cons {source : List Char} {t : Token} {x : Except SyntaxError (List Token)}
    (ht : t.position.LiesIn source) (h : Located source x) :
    Located source (do
      let ts ← x
      return t :: ts) :=
  have hus : ∀ t' ∈ [t], t'.position.LiesIn source := List.forall_mem_singleton.2 ht
  h.append hus

/-- An error in a program is the error in its tokens, or is reported at one of them. -/
theorem Parser.liesIn_of_run {α : Type} {p : Parser α} (hp : ∀ g, Relabels g p p)
    {source : List Char} {x : Except SyntaxError (List Token)} (hx : Located source x)
    {e : SyntaxError} (h : run p x = .error e) : e.position.LiesIn source := by
  cases x with
  | error e' =>
    cases h
    exact hx
  | ok ts =>
    cases ts with
    | nil =>
      -- Without any tokens the end of the source is taken to be at its beginning.
      have hend : run p (.ok [⟨.eof, Position.start⟩]) = .error e := h
      obtain ⟨t, ht, hposition⟩ := position_mem_of_run hp (List.cons_ne_nil _ _) hend
      rw [← hposition, List.mem_singleton.1 ht]
      exact ⟨[], List.nil_prefix, rfl⟩
    | cons t ts =>
      obtain ⟨u, hu, hposition⟩ := position_mem_of_run hp (List.cons_ne_nil t ts) h
      exact hposition ▸ hx u hu

namespace Indented

variable {source : List Char} {place : Place} {indents : List Nat} {r : Reader}

theorem position_lineEnd {pending : Bool} {q : Position} {t : Token} (h : t ∈ lineEnd pending q) :
    t.position = q := by
  cases pending with
  | false => cases h
  | true => rw [List.mem_singleton.1 h]

theorem located_finish {pending : Bool} {q : Position} (hq : q.LiesIn source) :
    Located source (.ok (finish indents pending q)) := by
  refine List.forall_mem_append.2 ⟨List.forall_mem_append.2 ⟨?_, ?_⟩, ?_⟩
  · exact fun t ht => position_lineEnd ht ▸ hq
  · exact fun t ht => List.eq_of_mem_replicate ht ▸ hq
  · exact List.forall_mem_singleton.2 hq

/-- The layout in front of a line stands where the line begins. -/
theorem located_align {w : Nat} {q : Position} (hq : q.LiesIn source) :
    Located source ((align w indents q).map Prod.fst) := by
  unfold align
  split
  · exact List.forall_mem_singleton.2 hq
  · dsimp only
    split
    · exact fun t ht => List.eq_of_mem_replicate ht ▸ hq
    · exact hq

theorem located_scan (h : r.StandsIn source) : Located source (scan place indents r) := by
  fun_induction scan place indents r with
  | case1 indents r => exact located_finish (h.takeWhile _).liesIn
  | case2 indents r _ _ ih => exact ih ((h.takeWhile _).skip 1)
  | case3 indents r _ _ ih =>
    have hbody : (lineBody r).StandsIn source := h.takeWhile _
    exact .cons hbody.liesIn (ih (((hbody.skip 1).takeWhile _).skip 1))
  | case4 indents r _ _ _ ih =>
    have hbody : (lineBody r).StandsIn source := h.takeWhile _
    have halign :=
      @located_align source indents (width (r.rest.takeWhile isSpacing)) _ hbody.liesIn
    cases hlayout : align (width (r.rest.takeWhile isSpacing)) indents (lineBody r).position with
    | error e =>
      rw [hlayout] at halign
      exact halign
    | ok aligned =>
      rw [hlayout] at halign
      exact .append halign (ih aligned hbody)
  | case5 indents r depth pending => exact located_finish h.liesIn
  | case6 indents r pending _ _ ih =>
    exact .append (fun t ht => position_lineEnd ht ▸ h.liesIn) (ih (h.skip 1))
  | case7 _ _ _ _ _ _ _ ih => exact ih (h.skip 1)
  | case8 _ _ _ _ _ _ ih => exact ih (h.takeWhile _)
  | case9 _ _ _ _ _ _ ih => exact ih (h.skip 2)
  | case10 _ _ _ _ _ _ _ _ _ _ _ ih => exact ih (h.skip 1)
  | case11 indents r depth pending c cs _ _ _ _ _ e htoken =>
    have hreads := h.token operators
    rw [htoken] at hreads
    exact hreads
  | case12 indents r depth pending c cs _ _ _ _ _ kind after htoken ih =>
    have hreads := h.token operators
    rw [htoken] at hreads
    exact .cons h.liesIn (ih hreads)

theorem located_tokens (source : String) : Located source.toList (tokens source) :=
  located_scan (.ofString source)

end Indented

namespace Braced

variable {source : List Char} {r : Reader}

theorem closeComment_standsIn {cs : List Char} {p : Position} {after : Reader}
    (h : Reader.StandsIn source ⟨cs, p⟩) (hafter : closeComment cs p = some after) :
    after.StandsIn source := by
  fun_induction closeComment cs p with
  | case1 =>
    cases hafter
    exact h.next.next
  | case2 c rest p _ ih => exact ih h.next hafter
  | case3 => cases hafter

theorem located_scan (h : r.StandsIn source) : Located source (scan r) := by
  fun_induction scan r with
  | case1 r => exact List.forall_mem_singleton.2 h.liesIn
  | case2 _ _ _ ih => exact ih ((h.skip 2).takeWhile _)
  | case3 => exact h.liesIn
  | case4 r _ _ after hclose ih => exact ih (closeComment_standsIn (h.skip 2) hclose)
  | case5 _ _ _ _ _ _ _ ih => exact ih (h.skip 1)
  | case6 r c rest _ _ _ _ e htoken =>
    have hreads := h.token operators
    rw [htoken] at hreads
    exact hreads
  | case7 r c rest _ _ _ _ kind after htoken ih =>
    have hreads := h.token operators
    rw [htoken] at hreads
    exact .cons h.liesIn (ih hreads)

theorem located_tokens (source : String) : Located source.toList (tokens source) :=
  located_scan (.ofString source)

end Braced

/-! ### Programs -/

theorem Program.liesIn_of_read {p : Program} {e : SyntaxError} (h : p.read = .error e) :
    e.position.LiesIn p.source.toList := by
  obtain ⟨d, source⟩ := p
  cases d with
  | indented =>
    exact Parser.liesIn_of_run Indented.relabels_program (Indented.located_tokens source) h
  | braced => exact Parser.liesIn_of_run Braced.relabels_program (Braced.located_tokens source) h

/-- An error in a program is reported behind some of the first characters of its source: its line
is counted by the line feeds among them, and its column by the characters behind the last of these.
For a source of ordinary length, 32 bits are enough for both. -/
theorem Program.position_of_read {p : Program} {e : SyntaxError} (h : p.read = .error e) :
    (∃ i ≤ p.source.length,
      e.position.line = 1 + (p.source.toList.take i).count '\n' ∧
      e.position.column = 1 + ((p.source.toList.take i).reverse.takeWhile (· ≠ '\n')).length) ∧
    (p.source.length < 2 ^ 32 - 1 → e.position.line < 2 ^ 32 ∧ e.position.column < 2 ^ 32) := by
  obtain ⟨before, hbefore, hposition⟩ := Program.liesIn_of_read h
  have hlength : before.length ≤ p.source.length := by
    rw [← String.length_toList]
    exact hbefore.length_le
  have hline : e.position.line = 1 + before.count '\n' :=
    (congrArg Position.line hposition).trans (Position.line_after before)
  have hcolumn : e.position.column = 1 + (before.reverse.takeWhile (· ≠ '\n')).length :=
    (congrArg Position.column hposition).trans (Position.column_after before)
  refine ⟨⟨before.length, hlength, ?_⟩, fun hsmall => ?_⟩
  · rw [← List.prefix_iff_eq_take.1 hbefore]
    exact ⟨hline, hcolumn⟩
  · have hcount := before.count_le_length (a := '\n')
    have hwhile := (List.takeWhile_prefix (l := before.reverse) (· ≠ '\n')).length_le
    rw [List.length_reverse] at hwhile
    omega

/-- A list that is never closed. -/
def Program.unclosed : Program := ⟨.indented, "a = [1\nb"⟩

theorem Program.read_unclosed :
    Program.unclosed.read = .error ⟨⟨2, 1⟩, .expected "]" (.name "b")⟩ := by cbv

/-- The error in it is reported behind the line feed. -/
theorem Program.position_of_read_unclosed :
    Program.unclosed.read = .error ⟨⟨2, 1⟩, .expected "]" (.name "b")⟩ ∧
    Program.unclosed.source.length < 2 ^ 32 - 1 ∧
    (∃ i ≤ Program.unclosed.source.length,
      2 = 1 + (Program.unclosed.source.toList.take i).count '\n' ∧
      1 = 1 + ((Program.unclosed.source.toList.take i).reverse.takeWhile (· ≠ '\n')).length) ∧
    2 < 2 ^ 32 ∧ 1 < 2 ^ 32 := by
  have hlength : Program.unclosed.source.length < 2 ^ 32 - 1 := by decide
  obtain ⟨hbehind, hsmall⟩ := Program.position_of_read Program.read_unclosed
  exact ⟨Program.read_unclosed, hlength, hbehind, hsmall hlength⟩

end Labyrinth
