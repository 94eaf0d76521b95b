import Labyrinth.Language.Braced.Printer
import Labyrinth.Proofs.Language.WellFormed

/-!
# Texts and their tokens

A text **spells** tokens before the rest of a source if scanning it yields them, wherever it
begins. What a text spells can depend on the character behind it: a name or an integer must not go
on there.

## Main results

* `Spells.append`: one text after the other.
* `spells_name`, `spells_int`, `spells_quote`, `spells_bracket`, `spells_operator`: the texts of
  single tokens.
-/

namespace Labyrinth.Braced

/-! ### Single steps of scanning -/

/-- Characters at which no comment begins. -/
def Uncommented (cs : List Char) : Prop :=
  ∀ rest, cs ≠ '/' :: '/' :: rest ∧ cs ≠ '/' :: '*' :: rest

theorem uncommented_of_ne {c : Char} {cs : List Char} (h : c ≠ '/') : Uncommented (c :: cs) := by
  refine fun rest => ⟨?_, ?_⟩
  · rintro ⟨⟩
    exact h rfl
  · rintro ⟨⟩
    exact h rfl

theorem uncommented_cons {c : Char} {cs : List Char}
    (hline : ∀ rest, c = '/' → cs = '/' :: rest → False)
    (hblock : ∀ rest, c = '/' → cs = '*' :: rest → False) : Uncommented (c :: cs) := by
  refine fun rest => ⟨fun heq => ?_, fun heq => ?_⟩
  · obtain ⟨hc, hcs⟩ := List.cons.inj heq
    exact hline rest hc hcs
  · obtain ⟨hc, hcs⟩ := List.cons.inj heq
    exact hblock rest hc hcs

theorem scan_cons {c : Char} {cs : List Char} (h : Uncommented (c :: cs)) (p : Position) :
    scan ⟨c :: cs, p⟩ =
      if isSpacing c then scan ⟨cs, p.next c⟩
      else do
        let (kind, after) ← (Reader.mk (c :: cs) p).token operators
        return ⟨kind, p⟩ :: (← scan after) := by
  rw [scan]
  split
  · rename_i heq
    cases heq
  · rename_i heq
    exact absurd heq (h _).1
  · rename_i heq
    exact absurd heq (h _).2
  · rename_i heq
    cases heq
    split
    · rfl
    · split
      · rename_i htoken
        rw [htoken]
        rfl
      · rename_i htoken
        rw [htoken]
        rfl

theorem scan_spacing {c : Char} (hc : isSpacing c = true) (cs : List Char) (p : Position) :
    scan ⟨c :: cs, p⟩ = scan ⟨cs, p.next c⟩ := by
  have hslash : c ≠ '/' := by
    rintro rfl
    cases hc
  rw [scan_cons (uncommented_of_ne hslash), if_pos hc]

theorem scan_comment (cs : List Char) (p : Position) :
    ∃ p', scan ⟨'/' :: '/' :: cs, p⟩ = scan ⟨cs.dropWhile (· != '\n'), p'⟩ := by
  rw [scan]
  exact ⟨_, rfl⟩

/-! ### Texts -/

/-- A text is read as tokens of certain kinds where it stands before the rest of a source. -/
def Spells (text : String) (kinds : List TokenKind) (rest : List Char) : Prop :=
  ∀ p, ∃ ts p', ts.map Token.kind = kinds ∧
    scan ⟨text.toList ++ rest, p⟩ = (do return ts ++ (← scan ⟨rest, p'⟩))

namespace Spells

variable {text text' : String} {k l : List TokenKind} {rest : List Char}

/-- A text that is passed over. -/
theorem passed (h : ∀ p, ∃ p', scan ⟨text.toList ++ rest, p⟩ = scan ⟨rest, p'⟩) :
    Spells text [] rest := by
  intro p
  obtain ⟨p', hscan⟩ := h p
  refine ⟨[], p', rfl, ?_⟩
  rw [hscan]
  cases scan ⟨rest, p'⟩ with
  | error e => rfl
  | ok ts => rfl

theorem empty : Spells "" [] rest := .passed fun p => ⟨p, rfl⟩

/-- One text after the other. -/
theorem append (h : Spells text k (text'.toList ++ rest)) (h' : Spells text' l rest) :
    Spells (text ++ text') (k ++ l) rest := by
  intro p
  obtain ⟨ts, p', hts, hscan⟩ := h p
  obtain ⟨us, p'', hus, hscan'⟩ := h' p'
  refine ⟨ts ++ us, p'', by rw [List.map_append, hts, hus], ?_⟩
  rw [String.toList_append, List.append_assoc, hscan, hscan']
  cases scan ⟨rest, p''⟩ with
  | error e => rfl
  | ok vs => simp

/-- A text that is a single token. -/
theorem token {c : Char} {cs : List Char} {kind : TokenKind} (htext : text.toList = c :: cs)
    (hcomment : Uncommented (c :: (cs ++ rest))) (hc : isSpacing c = false)
    (h : ∀ p, ∃ p', (Reader.mk (c :: (cs ++ rest)) p).token operators = .ok (kind, ⟨rest, p'⟩)) :
    Spells text [kind] rest := by
  intro p
  obtain ⟨p', htoken⟩ := h p
  refine ⟨[⟨kind, p⟩], p', rfl, ?_⟩
  rw [htext, List.cons_append, scan_cons hcomment, if_neg (by rw [hc]; decide), htoken]
  rfl

end Spells

/-! ### Characters -/

theorem isAlphabetic_eq_false_of_isDigit {c : Char} (h : c.isDigit = true) :
    Text.isAlphabetic c = false := by
  obtain ⟨hlow, hhigh⟩ := Char.isDigit_iff_toNat.1 h
  have hnine : '9'.toNat = 57 := rfl
  rw [Text.isAlphabetic, if_pos (by omega)]
  refine Bool.eq_false_iff.2 fun halpha => ?_
  simp only [Char.isAlpha, Char.isUpper, Char.isLower, Bool.or_eq_true, Bool.and_eq_true,
    decide_eq_true_eq, ge_iff_le, UInt32.le_iff_toNat_le] at halpha
  have hupper : 'A'.val.toNat = 65 := rfl
  have hlower : 'a'.val.toNat = 97 := rfl
  have hval : c.toNat = c.val.toNat := rfl
  omega

theorem isDigit_eq_false_of_isNameStart {c : Char} (h : isNameStart c = true) :
    c.isDigit = false := by
  refine Bool.eq_false_iff.2 fun hdigit => ?_
  simp only [isNameStart, isAlphabetic_eq_false_of_isDigit hdigit, Bool.false_or, Bool.or_eq_true,
    beq_iff_eq] at h
  rcases h with rfl | rfl
  · cases hdigit
  · cases hdigit

theorem isNamePart_of_isIntegerPart {c : Char} (h : isIntegerPart c = true) :
    isNamePart c = true := by
  simp only [isIntegerPart, Bool.or_eq_true] at h
  simp only [isNamePart, Bool.or_eq_true]
  rcases h with h | h
  · exact .inl (.inl (.inr (Text.isNumeric_of_isDigit h)))
  · exact .inl (.inr h)

/-- What follows a name or an integer does not go on with it. -/
def Breaks (rest : List Char) : Prop :=
  ∀ c cs, rest = c :: cs → isNamePart c = false ∧
    (c = '.' → ∀ d ds, cs = d :: ds → d.isDigit = false)

theorem breaks_cons {c : Char} {cs : List Char} (hc : isNamePart c = false) (hdot : c ≠ '.') :
    Breaks (c :: cs) := by
  rintro _ _ ⟨⟩
  exact ⟨hc, fun h => absurd h hdot⟩

theorem Breaks.takeWhile {rest : List Char} (h : Breaks rest) {p : Char → Bool}
    (hp : ∀ c, p c = true → isNamePart c = true) :
    rest.takeWhile p = [] ∧ rest.dropWhile p = rest := by
  cases rest with
  | nil => exact ⟨rfl, rfl⟩
  | cons c cs =>
    have hc : ¬p c = true := fun hc => by simpa [(h c cs rfl).1] using hp c hc
    exact ⟨List.takeWhile_cons_of_neg hc, List.dropWhile_cons_of_neg hc⟩

/-- All of a text, and nothing behind it, consists of certain characters. -/
theorem takeWhile_text {cs rest : List Char} {p : Char → Bool} (hcs : ∀ c ∈ cs, p c = true)
    (hrest : Breaks rest) (hp : ∀ c, p c = true → isNamePart c = true) (q : Position) :
    (Reader.mk (cs ++ rest) q).takeWhile p = (cs, ⟨rest, q.after cs⟩) := by
  obtain ⟨htake, hdrop⟩ := hrest.takeWhile hp
  simp only [Reader.takeWhile, List.takeWhile_append_of_pos hcs, List.dropWhile_append_of_pos hcs,
    htake, hdrop, List.append_nil]

/-! ### Names and constants -/

theorem spells_name {x : String} {rest : List Char} (hx : IsName x) (hrest : Breaks rest) :
    Spells x [.name x] rest := by
  obtain ⟨c, cs, hxs, hc, hcs⟩ := hx
  have hne : ∀ d, isNameStart d = false → c ≠ d := by
    rintro d hd rfl
    rw [hc] at hd
    cases hd
  refine .token hxs (uncommented_of_ne (hne _ (by decide))) ?_ fun p => ?_
  · simp [isSpacing, hne ' ' (by decide), hne '\t' (by decide), hne '\r' (by decide),
      hne '\n' (by decide)]
  have hall : ∀ d ∈ c :: cs, isNamePart d = true :=
    List.forall_mem_cons.2 ⟨isNamePart_of_isNameStart hc, hcs⟩
  have htake := takeWhile_text hall hrest (fun _ h => h) p
  have hx : String.ofList (c :: cs) = x := by rw [← hxs, String.ofList_toList]
  refine ⟨p.after (c :: cs), ?_⟩
  rw [List.cons_append] at htake
  simp only [Reader.token, isDigit_eq_false_of_isNameStart hc, Bool.false_eq_true, if_false,
    hne '"' (by decide), hne '\'' (by decide), or_self, hc, if_true, htake, hx]

theorem isDigit_of_mem_repr {n : Nat} {c : Char} (h : c ∈ n.repr.toList) : c.isDigit = true := by
  rw [Nat.toList_repr] at h
  exact Nat.isDigit_of_mem_toDigits (by decide) (by decide) h

theorem exists_digit (n : Nat) : ∃ c cs, n.repr.toList = c :: cs ∧ c.isDigit = true := by
  have hne : n.repr.toList ≠ [] := by
    rw [Nat.toList_repr]
    exact Nat.toDigits_ne_nil
  obtain ⟨c, cs, h⟩ := List.exists_cons_of_ne_nil hne
  exact ⟨c, cs, h, isDigit_of_mem_repr (h ▸ List.mem_cons_self)⟩

/-- The digits of a number. -/
theorem spells_digits {n : Nat} (hn : n ≤ 9223372036854775807) {rest : List Char}
    (hrest : Breaks rest) : Spells n.repr [.int (Int64.ofNat n)] rest := by
  have hvalue : digitsValue n.repr.toList = n := by
    rw [Nat.toList_repr]
    exact Nat.ofDigitChars_ten_toDigits
  obtain ⟨c, cs, hcs, hc⟩ := exists_digit n
  have hdigits : ∀ d ∈ c :: cs, d.isDigit = true := hcs ▸ fun _ => isDigit_of_mem_repr
  rw [hcs] at hvalue
  have hne : ∀ d : Char, d.isDigit = false → c ≠ d := by
    rintro d hd rfl
    rw [hc] at hd
    cases hd
  refine .token hcs (uncommented_of_ne (hne _ (by decide))) ?_ fun p => ?_
  · simp [isSpacing, hne ' ' (by decide), hne '\t' (by decide), hne '\r' (by decide),
      hne '\n' (by decide)]
  have hparts : ∀ d ∈ c :: cs, isIntegerPart d = true := by
    intro d hd
    rw [isIntegerPart, hdigits d hd, Bool.true_or]
  have htake := takeWhile_text hparts hrest (fun _ h => isNamePart_of_isIntegerPart h) p
  have hfilter : (c :: cs).filter Char.isDigit = c :: cs := List.filter_eq_self.2 hdigits
  refine ⟨p.after (c :: cs), ?_⟩
  rw [List.cons_append] at htake
  simp only [Reader.token, hc, if_true, Reader.integer, htake, hfilter, hvalue,
    if_neg (Nat.not_lt.2 hn)]
  split
  · rename_i d ds
    rw [(hrest _ _ rfl).2 rfl d ds rfl]
    rfl
  · rename_i d ds _
    have hd := (hrest d ds rfl).1
    simp only [isNamePart, Bool.or_eq_false_iff] at hd
    rw [hd.1.1.1]
    rfl
  · rfl

theorem readText_escaped {quote : Char} (start : Position) {e x : Char} (rest : List Char)
    (p : Position) (hquote : '\\' ≠ quote) (h : escaped? e = some x) :
    readText quote start ('\\' :: e :: rest) p =
      (do
        let (text, r) ← readText quote start rest ((p.next '\\').next e)
        return (x :: text, r)) := by
  rw [readText.eq_def]
  split
  · rename_i heq
    cases heq
  · rename_i heq
    cases heq
  · rename_i heq
    cases heq
    rw [if_neg hquote, if_pos rfl]
    simp only [h]

theorem readText_plain {quote : Char} (start : Position) {c : Char} (rest : List Char)
    (p : Position) (hquote : c ≠ quote) (hslash : c ≠ '\\') (hline : c ≠ '\n') :
    readText quote start (c :: rest) p =
      (do
        let (text, r) ← readText quote start rest (p.next c)
        return (c :: text, r)) := by
  rw [readText.eq_def]
  split
  · rename_i heq
    cases heq
  · rename_i heq
    cases heq
    exact absurd rfl hline
  · rename_i heq
    cases heq
    rw [if_neg hquote, if_neg hslash]

theorem readText_quote {quote : Char} (start : Position) (rest : List Char) (p : Position)
    (hline : quote ≠ '\n') :
    readText quote start (quote :: rest) p = .ok ([], ⟨rest, p.next quote⟩) := by
  rw [readText.eq_def]
  split
  · rename_i heq
    cases heq
  · rename_i heq
    cases heq
    exact absurd rfl hline
  · rename_i heq
    cases heq
    rw [if_pos rfl]

theorem readText_escape (start : Position) (cs rest : List Char) (p : Position) :
    readText '"' start (cs.flatMap escape ++ '"' :: rest) p =
      .ok (cs, ⟨rest, p.after (cs.flatMap escape ++ ['"'])⟩) := by
  induction cs generalizing p with
  | nil => exact readText_quote start rest p (by decide)
  | cons c cs ih =>
    have hescaped : ∀ e, escape c = ['\\', e] → escaped? e = some c →
        readText '"' start ((c :: cs).flatMap escape ++ '"' :: rest) p =
          .ok (c :: cs, ⟨rest, p.after ((c :: cs).flatMap escape ++ ['"'])⟩) := by
      intro e hc he
      have hread := readText_escaped start (cs.flatMap escape ++ '"' :: rest) p
        (show '\\' ≠ '"' by decide) he
      rw [ih] at hread
      rwa [List.flatMap_cons, hc, List.append_assoc, List.append_assoc]
    by_cases hquote : c = '"'
    · exact hescaped '"' (by rw [hquote]; rfl) (by rw [hquote]; rfl)
    by_cases hslash : c = '\\'
    · exact hescaped '\\' (by rw [hslash]; rfl) (by rw [hslash]; rfl)
    by_cases hline : c = '\n'
    · exact hescaped 'n' (by rw [hline]; rfl) (by rw [hline]; rfl)
    by_cases htab : c = '\t'
    · exact hescaped 't' (by rw [htab]; rfl) (by rw [htab]; rfl)
    by_cases hreturn : c = '\r'
    · exact hescaped 'r' (by rw [hreturn]; rfl) (by rw [hreturn]; rfl)
    by_cases hnull : c = '\x00'
    · exact hescaped '0' (by rw [hnull]; rfl) (by rw [hnull]; rfl)
    have hplain : escape c = [c] := by
      unfold escape
      split <;> first | contradiction | rfl
    have hread := readText_plain start (cs.flatMap escape ++ '"' :: rest) p hquote hslash hline
    rw [ih] at hread
    rwa [List.flatMap_cons, hplain, List.append_assoc, List.append_assoc]

theorem toList_quote (s : String) : (quote s).toList =
    '"' :: (s.toList.flatMap escape ++ ['"']) := by
  simp [quote]

/-- A text in quotes is a single token, whatever follows it and whatever the operators are. -/
theorem token_quote (operators : List String) (s : String) (rest : List Char) (p : Position) :
    (Reader.mk ((quote s).toList ++ rest) p).token operators =
      .ok (.str s, ⟨rest, p.after (quote s).toList⟩) := by
  have hread := readText_escape p s.toList rest (p.next '"')
  have hs : String.ofList s.toList = s := String.ofList_toList
  rw [toList_quote, List.cons_append, List.append_assoc, List.singleton_append]
  simp only [Reader.token, show ('"' : Char).isDigit = false from rfl, Bool.false_eq_true, if_false,
    true_or, if_true, hread, ok_bind, hs]
  rfl

/-- A text in quotes. -/
theorem spells_quote (s : String) (rest : List Char) : Spells (quote s) [.str s] rest := by
  refine .token (toList_quote s) (uncommented_of_ne (by decide)) (by decide) fun p => ?_
  refine ⟨p.after (quote s).toList, ?_⟩
  rw [← List.cons_append, ← toList_quote]
  exact token_quote operators s rest p

/-! ### Operators -/

/-- Whether neither a name nor a constant nor a blank begins with a character. -/
def isOperatorStart (c : Char) : Bool :=
  !isSpacing c && !c.isDigit && c != '"' && c != '\'' && !isNameStart c

theorem operators_start : ∀ op ∈ operators, op.toList.head?.any isOperatorStart = true := by
  decide

/-- An operator that is the first one with which the source goes on. -/
theorem spells_first {op : String} {rest : List Char}
    (hcomment : Uncommented (op.toList ++ rest))
    (hfirst : (operators.find? fun o => o.toList.isPrefixOf (op.toList ++ rest)) = some op) :
    Spells op [.op op] rest := by
  have hstart := operators_start op (List.mem_of_find?_eq_some hfirst)
  cases hop : op.toList with
  | nil =>
    rw [hop] at hstart
    cases hstart
  | cons c cs =>
    rw [hop] at hstart hcomment hfirst
    have hc : isOperatorStart c = true := hstart
    simp only [isOperatorStart, Bool.and_eq_true, Bool.not_eq_true', bne_iff_ne] at hc
    obtain ⟨⟨⟨⟨hspacing, hdigit⟩, hquote⟩, happostrophe⟩, hname⟩ := hc
    refine .token hop hcomment hspacing fun p => ⟨p.after op.toList, ?_⟩
    have hskip : (Reader.mk (op.toList ++ rest) p).skip op.length = ⟨rest, p.after op.toList⟩ := by
      rw [Reader.skip, ← String.length_toList, List.drop_left, List.take_left]
    rw [hop] at hskip
    rw [List.cons_append] at hfirst hskip
    simp only [Reader.token, hdigit, hquote, happostrophe, or_self, hname, Bool.false_eq_true,
      if_false, Reader.operator, hfirst, hskip, hop]

/-- Brackets and other marks with which no longer operator begins. -/
def marks : List String := ["(", ")", "[", "]", "\x7b", "\x7d", ",", ";", "."]

theorem spells_mark {op : String} (h : op ∈ marks) (rest : List Char) :
    Spells op [.op op] rest := by
  simp only [marks, List.mem_cons, List.not_mem_nil, or_false] at h
  rcases h with rfl | rfl | rfl | rfl | rfl | rfl | rfl | rfl | rfl
  all_goals exact spells_first (uncommented_of_ne (by decide)) rfl

/-- An operator that is followed by a blank. -/
theorem spells_operator {op : String} (h : op ∈ operators) (rest : List Char) :
    Spells op [.op op] (' ' :: rest) := by
  simp only [operators, List.mem_cons, List.not_mem_nil, or_false] at h
  rcases h with rfl | rfl | rfl | rfl | rfl | rfl | rfl | rfl | rfl | rfl | rfl | rfl | rfl | rfl |
    rfl | rfl | rfl | rfl | rfl | rfl | rfl | rfl | rfl | rfl | rfl | rfl | rfl | rfl | rfl | rfl |
    rfl | rfl
  all_goals exact spells_first (fun _ => ⟨by simp, by simp⟩) rfl

/-- A sign in front of an operand. -/
theorem spells_sign {op : String} (h : op = "!" ∨ op = "-") {c : Char} (hc : c ≠ '=')
    (rest : List Char) : Spells op [.op op] (c :: rest) := by
  have hequals : ('=' == c) = false := beq_false_of_ne hc.symm
  rcases h with rfl | rfl
  · refine spells_first (uncommented_of_ne (by decide)) ?_
    simp [operators, List.find?, List.isPrefixOf, hequals]
  · refine spells_first (uncommented_of_ne (by decide)) ?_
    simp [operators, List.find?, List.isPrefixOf, hequals]

/-- An integer, with a sign if it is negative. -/
theorem spells_int {n : Int64} (hn : n ≠ Int64.minValue) {rest : List Char} (hrest : Breaks rest) :
    Spells (toString n) (if n < 0 then [.op "-", .int (-n)] else [.int n]) rest := by
  have hhigh := n.toInt_lt
  have hlow := n.le_toInt
  have hmin : n.toInt ≠ -9223372036854775808 := fun h => hn (Int64.toInt_inj.1 h)
  have htext : toString n = n.toInt.repr := rfl
  rw [htext]
  cases hm : n.toInt with
  | ofNat m =>
    rw [hm] at hhigh
    have hlt : m < 2 ^ 63 := by simpa using hhigh
    have hn : n = Int64.ofNat m := Int64.toInt_inj.1 (by rw [hm, Int64.toInt_ofNat_of_lt hlt]; rfl)
    have hnonneg : ¬n < 0 := by
      rw [Int64.lt_iff_toInt_lt, hm]
      simp
    rw [if_neg hnonneg, hn]
    exact spells_digits (by omega) hrest
  | negSucc m =>
    rw [hm] at hlow hmin
    have hle : m + 1 < 2 ^ 63 := by omega
    have hn : n = -Int64.ofNat (m + 1) := by
      refine Int64.toInt_inj.1 ?_
      rw [hm, Int64.toInt_neg_ofNat_of_le (Nat.le_of_lt hle)]
      rfl
    have hneg : n < 0 := by
      rw [Int64.lt_iff_toInt_lt, hm]
      simp
    rw [if_pos hneg, hn, Int64.neg_neg]
    obtain ⟨c, cs, hcs, hc⟩ := exists_digit (m + 1)
    have hequals : c ≠ '=' := by
      rintro rfl
      cases hc
    refine .append (k := [.op "-"]) (l := [.int (Int64.ofNat (m + 1))]) ?_
      (spells_digits (by omega) hrest)
    rw [hcs]
    exact spells_sign (.inr rfl) hequals _

/-! ### Blanks and comments -/

theorem spells_blank (rest : List Char) : Spells " " [] rest :=
  .passed fun p => ⟨_, scan_spacing (by decide) rest p⟩

theorem spells_newline (rest : List Char) : Spells "\n" [] rest :=
  .passed fun p => ⟨_, scan_spacing (by decide) rest p⟩

/-- A comment up to the end of its line. -/
theorem spells_comment {text : String} (h : '\n' ∉ text.toList) (rest : List Char) :
    Spells ("//" ++ text) [] ('\n' :: rest) := by
  refine .passed fun p => ?_
  obtain ⟨p', hscan⟩ := scan_comment (text.toList ++ '\n' :: rest) p
  refine ⟨p', ?_⟩
  have hline : ∀ c ∈ text.toList, (c != '\n') = true := by
    rintro c hc
    rw [bne_iff_ne]
    rintro rfl
    exact h hc
  rw [List.dropWhile_append_of_pos hline, List.dropWhile_cons_of_neg (by decide)] at hscan
  rwa [String.toList_append]

/-! ### Texts in a row -/

theorem isName_iff (x : String) :
    IsName x ↔ x.toList.head?.any isNameStart = true ∧ x.toList.tail.all isNamePart = true := by
  unfold IsName
  cases x.toList with
  | nil => simp
  | cons c cs => simp

instance (x : String) : Decidable (IsName x) := decidable_of_iff' _ (isName_iff x)

theorem Breaks.append {text text' : String} {rest : List Char}
    (h : Breaks (text.toList ++ (text'.toList ++ rest))) :
    Breaks ((text ++ text').toList ++ rest) := by
  rwa [String.toList_append, List.append_assoc]

/-- No name and no integer goes on with a mark other than a period. -/
theorem breaks_mark {op : String} (h : op ∈ [" ", " (", ", ", "(", ")", "[", "]", ";"])
    (rest : List Char) : Breaks (op.toList ++ rest) := by
  simp only [List.mem_cons, List.not_mem_nil, or_false] at h
  rcases h with rfl | rfl | rfl | rfl | rfl | rfl | rfl | rfl
  all_goals exact breaks_cons (by decide) (by decide)

namespace Spells

variable {text x op : String} {ks : List TokenKind} {rest : List Char}

theorem mark (hop : op ∈ marks) (h : Spells text ks rest) :
    Spells (op ++ text) (.op op :: ks) rest :=
  .append (k := [.op op]) (spells_mark hop _) h

theorem name (hx : IsName x) (hbreaks : Breaks (text.toList ++ rest)) (h : Spells text ks rest) :
    Spells (x ++ text) (.name x :: ks) rest :=
  .append (k := [.name x]) (spells_name hx hbreaks) h

theorem blank (h : Spells text ks rest) : Spells (" " ++ text) ks rest :=
  .append (k := []) (spells_blank _) h

theorem comma (h : Spells text ks rest) : Spells (", " ++ text) (.op "," :: ks) rest := by
  have hcomma : (", " : String) = "," ++ " " := rfl
  rw [hcomma, String.append_assoc]
  exact .mark (by decide) h.blank

/-- A word and the blank behind it. -/
theorem word (hx : IsName x) (h : Spells text ks rest) :
    Spells (x ++ (" " ++ text)) (.name x :: ks) rest :=
  .name hx (breaks_mark (by decide) _).append h.blank

/-- An operator with blanks around it. -/
theorem operator (hop : op ∈ operators) (h : Spells text ks rest) :
    Spells (" " ++ (op ++ (" " ++ text))) (.op op :: ks) rest := by
  refine .blank (.append (k := [.op op]) ?_ h.blank)
  rw [String.toList_append]
  exact spells_operator hop _

end Spells

end Labyrinth.Braced
