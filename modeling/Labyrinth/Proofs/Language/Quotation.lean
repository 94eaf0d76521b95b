import Labyrinth.Proofs.Language.Continuations
import Labyrinth.Proofs.Language.Spelling

/-!
# Texts in quotes

A text in quotes is read back in both dialects, whatever its characters are and whatever stands
behind it. It is a single token. Line feeds are escaped in it, so that what follows is read on the
same line.

## Main results

* `after_quote`: the position behind a text in quotes.
* `token_quote_behind`: such a text as a single token.
* `scan_quote_append`: such a text and what follows it, in a source of either dialect.
-/

namespace Labyrinth

/-- Behind characters of a single line, only the column is different. -/
theorem Position.after_of_notMem {cs : List Char} (h : '\n' ∉ cs) (p : Position) :
    p.after cs = ⟨p.line, p.column + cs.length⟩ := by
  induction cs generalizing p with
  | nil => rfl
  | cons c cs ih =>
    obtain ⟨hc, hcs⟩ := List.ne_and_not_mem_of_not_mem_cons h
    have hnext : p.next c = ⟨p.line, p.column + 1⟩ := if_neg (Ne.symm hc)
    calc p.after (c :: cs)
        = (p.next c).after cs := rfl
      _ = ⟨p.line, p.column + 1 + cs.length⟩ := by rw [ih hcs, hnext]
      _ = ⟨p.line, p.column + (c :: cs).length⟩ := by
        rw [List.length_cons, Nat.add_assoc, Nat.add_comm 1]

namespace Braced

theorem notMem_escape (c : Char) : '\n' ∉ escape c := by
  unfold escape
  split
  case h_7 => grind
  all_goals decide

theorem notMem_quote (s : String) : '\n' ∉ (quote s).toList := by
  rw [toList_quote, List.mem_cons, List.mem_append, List.mem_flatMap]
  rintro (h | ⟨c, -, h⟩ | h)
  · cases h
  · exact notMem_escape c h
  · cases List.mem_singleton.1 h

theorem after_quote (s : String) (p : Position) :
    p.after (quote s).toList = ⟨p.line, p.column + (quote s).length⟩ := by
  rw [Position.after_of_notMem (notMem_quote s), String.length_toList]

/-- The reader behind a text in quotes, on the line of that text. -/
def behindQuote (s : String) (rest : List Char) (p : Position) : Reader :=
  ⟨rest, ⟨p.line, p.column + (quote s).length⟩⟩

variable (s : String) (rest : List Char) (p : Position)

theorem token_quote_behind (operators : List String) :
    (Reader.mk ((quote s).toList ++ rest) p).token operators =
      .ok (.str s, behindQuote s rest p) := by
  rw [token_quote, after_quote]
  rfl

theorem scan_quote :
    scan ⟨(quote s).toList ++ rest, p⟩ =
      (do return ⟨.str s, p⟩ :: (← scan (behindQuote s rest p))) := by
  have htoken := token_quote_behind s rest p operators
  rw [toList_quote, List.cons_append] at htoken ⊢
  rw [scan_cons (uncommented_of_ne (by decide)), if_neg (by decide), htoken]
  rfl

end Braced

namespace Indented

open Braced (quote toList_quote behindQuote token_quote_behind)

variable (s : String) (rest : List Char) (p : Position) (indents : List Nat)

theorem scan_inLine_quote (depth : Nat) (pending : Bool) :
    scan (.inLine depth pending) indents ⟨(quote s).toList ++ rest, p⟩ =
      (do return ⟨.str s, p⟩ :: (← scan (.inLine depth true) indents (behindQuote s rest p))) := by
  have hrest : (Reader.mk ((quote s).toList ++ rest) p).rest =
      '"' :: (s.toList.flatMap Braced.escape ++ ['"'] ++ rest) := by
    rw [toList_quote, List.cons_append]
  rw [scan_inLine_token hrest (by decide) (by decide) nofun (by decide), token_quote_behind]
  rfl

/-- At the start of a line, the layout of a line that is not indented comes first. -/
theorem scan_lineStart_quote :
    scan .lineStart indents ⟨(quote s).toList ++ rest, p⟩ = (do
      let (layout, indents') ← align 0 indents p
      return layout ++ ⟨.str s, p⟩ :: (← scan (.inLine 0 true) indents'
        (behindQuote s rest p))) := by
  have hbody : lineBody ⟨(quote s).toList ++ rest, p⟩ = ⟨(quote s).toList ++ rest, p⟩ := by
    rw [toList_quote]
    rfl
  have hrest : (lineBody ⟨(quote s).toList ++ rest, p⟩).rest =
      '"' :: (s.toList.flatMap Braced.escape ++ ['"'] ++ rest) := by
    rw [hbody, toList_quote, List.cons_append]
  have hwidth : width (((quote s).toList ++ rest).takeWhile isSpacing) = 0 := by
    rw [toList_quote]
    rfl
  rw [scan_lineStart_code hrest (by decide) (by decide), hbody, hwidth]
  cases align 0 indents p with
  | error e => rfl
  | ok aligned =>
    simp only [bind, Except.bind, scan_inLine_quote]
    cases scan (.inLine 0 true) aligned.2 (behindQuote s rest p) with
    | error e => rfl
    | ok ts => rfl

end Indented

/-- Every text survives its quotes, whatever stands behind them: it is read as a single token in
either dialect, and reading goes on at what follows, on the same line. This holds in the middle of a
line as well as at its start, where the layout comes first, and hence for a whole source. -/
theorem scan_quote_append (s following : String) (p : Position) :
    let reader : Reader := ⟨(Braced.quote s ++ following).toList, p⟩
    let behind : Reader := ⟨following.toList, ⟨p.line, p.column + (Braced.quote s).length⟩⟩
    (∀ operators, reader.token operators = .ok (.str s, behind)) ∧
    Braced.scan reader = (do return ⟨.str s, p⟩ :: (← Braced.scan behind)) ∧
    (∀ depth pending indents, Indented.scan (.inLine depth pending) indents reader =
      (do return ⟨.str s, p⟩ :: (← Indented.scan (.inLine depth true) indents behind))) ∧
    (∀ indents, Indented.scan .lineStart indents reader = (do
      let (layout, indents') ← Indented.align 0 indents p
      return layout ++ ⟨.str s, p⟩ :: (← Indented.scan (.inLine 0 true) indents' behind))) := by
  have hsource : (Braced.quote s ++ following).toList =
      (Braced.quote s).toList ++ following.toList := String.toList_append
  simp only [hsource]
  refine ⟨fun operators => ?_, ?_, fun depth pending indents => ?_, fun indents => ?_⟩
  · exact Braced.token_quote_behind s _ p operators
  · exact Braced.scan_quote s _ p
  · exact Indented.scan_inLine_quote s _ p indents depth pending
  · exact Indented.scan_lineStart_quote s _ p indents

end Labyrinth
