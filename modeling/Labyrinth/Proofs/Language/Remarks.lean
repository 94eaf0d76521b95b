import Labyrinth.Proofs.Language.Concatenation
import Labyrinth.Proofs.Language.LogicalLines

/-!
# Blank lines and comments

A line that is blank, or that holds nothing but a comment, may be put between any two lines of an
accepted program of the indented dialect, whatever its indentation is. The program is still
accepted, and its statements are the same but for their comments. There is one exception. A comment
in front of an `elif` or an `else` ends the statement before it, unless a block ends there; a blank
line does not do so, and neither does a comment at the end of an indented block.

## Main results

* `exists_leadsTo`: lines have the same tokens whatever other lines follow.
* `exists_annotated`: the tokens with a line put in.
* `Program.read_insert`: the program with a line put in.
-/

namespace Labyrinth

namespace Indented

open Labyrinth.Parser Labyrinth.KindRel

variable {indents : List Nat} {depth : Nat} {pending : Bool} {next : Option (List TokenKind)}
  {xs ys ks : List TokenKind}

/-! ### Ends of lines -/

/-- A line feed behind the last line is nothing but its end. -/
theorem lineKinds_feed {us : List Char} (h : lineRest depth (us ++ ['\n']) = ['\n'])
    (hks : lineKinds depth pending us = .ok ks) :
    lineKinds depth pending (us ++ ['\n']) = .ok ks := by
  fun_induction lineRest depth us generalizing pending ks with
  | case1 depth =>
    obtain rfl : depth = 0 := depth_eq_zero h
    rw [lineKinds_nil] at hks
    exact lineKinds_break.trans hks
  | case2 us => exact absurd rfl (ne_break h)
  | case3 depth us hdepth ih =>
    rw [List.cons_append, lineRest_within hdepth] at h
    rw [lineKinds_within hdepth] at hks
    rw [List.cons_append, lineKinds_within hdepth]
    exact ih h hks
  | case4 depth us ih =>
    rw [List.cons_append, lineRest_comment, (atLineEnd_feed _).dropWhile] at h
    rw [lineKinds_comment] at hks
    rw [List.cons_append, lineKinds_comment, (atLineEnd_feed _).dropWhile]
    exact ih h hks
  | case5 depth us ih =>
    rw [List.cons_append, List.cons_append, lineRest_joined] at h
    rw [lineKinds_joined] at hks
    rw [List.cons_append, List.cons_append, lineKinds_joined]
    exact ih h hks
  | case6 depth c us hbreak hcomment hjoined hspacing ih =>
    rw [List.cons_append, lineRest_spacing hspacing] at h
    rw [lineKinds_spacing hspacing] at hks
    rw [List.cons_append, lineKinds_spacing hspacing]
    exact ih h hks
  | case7 depth c us hbreak hcomment hjoined hspacing cause hnext ih =>
    rw [lineKinds_token hbreak hcomment hjoined hspacing, hnext] at hks
    cases hks
  | case8 depth c us hbreak hcomment hjoined hspacing kind us' hnext ih =>
    have hfeed := atLineEnd_feed []
    rw [lineRest_token_append hfeed hjoined hnext hbreak hcomment hspacing] at h
    rw [lineKinds_token hbreak hcomment hjoined hspacing, hnext] at hks
    rw [lineKinds_token_append hfeed hjoined hnext hbreak hcomment hspacing]
    obtain ⟨ks', hks', rfl⟩ := map_eq_ok_iff.1 hks
    exact map_eq_ok_iff.2 ⟨ks', ih h hks', rfl⟩

/-- The tokens of a line belong to no layout, except for the one that ends it. -/
theorem annotated_lineKinds {us : List Char}
    (h : lineRest depth us = [] ∨ lineRest depth us = ['\n'])
    (hsettled : Place.Settled (.inLine depth pending)) (hks : lineKinds depth pending us = .ok ks)
    {blocks : Nat} (hxy : Annotated next .between blocks xs ys) :
    Annotated next (.ofLine (Place.inLine depth pending).line) blocks (ks ++ xs) (ks ++ ys) := by
  have hend (depth : Nat) (pending : Bool) (hsettled : Place.Settled (.inLine depth pending)) :
      Annotated next (.ofLine (Place.inLine depth pending).line) blocks
        (lineEndKinds pending ++ xs) (lineEndKinds pending ++ ys) := by
    cases pending with
    | false => exact hxy
    | true =>
      cases depth with
      | zero => exact .newline hxy
      | succ depth => exact .unclosed
  fun_induction lineRest depth us generalizing pending ks with
  | case1 depth =>
    cases lineKinds_nil.symm.trans hks
    exact hend depth pending hsettled
  | case2 us =>
    obtain rfl : us = [] := by simpa using h
    cases lineKinds_break.symm.trans hks
    exact hend 0 pending hsettled
  | case3 depth us hdepth ih =>
    rw [lineKinds_within hdepth] at hks
    exact ih h hsettled hks
  | case4 depth us ih =>
    rw [lineKinds_comment] at hks
    exact ih h hsettled hks
  | case5 depth us ih =>
    rw [lineKinds_joined] at hks
    exact ih h hsettled hks
  | case6 depth c us hbreak hcomment hjoined hspacing ih =>
    rw [lineKinds_spacing hspacing] at hks
    exact ih h hsettled hks
  | case7 depth c us hbreak hcomment hjoined hspacing cause hnext ih =>
    rw [lineKinds_token hbreak hcomment hjoined hspacing, hnext] at hks
    cases hks
  | case8 depth c us hbreak hcomment hjoined hspacing kind us' hnext ih =>
    rw [lineKinds_token hbreak hcomment hjoined hspacing, hnext] at hks
    obtain ⟨ks', hks', rfl⟩ := map_eq_ok_iff.1 hks
    have hkind := isLayout_nextToken hnext
    have hsettled' : Place.Settled (.inLine (depthAfter kind depth) true) :=
      fun h => absurd h (by decide)
    have hline := ih h hsettled' hks'
    cases pending with
    | false =>
      obtain rfl : depth = 0 := hsettled rfl
      exact .settle (.first hkind hline)
    | true => exact .token hkind hline

/-! ### Lines -/

/-- Comments behind certain tokens are comments of the whole stream. `blocks` is the number of open
blocks in front of the tokens, and `blocks'` that of those behind them. -/
def Carries (blocks : Nat) (ks : List TokenKind) (blocks' : Nat) : Prop :=
  ∀ next xs ys, Annotated next .between blocks' xs ys →
    Annotated next .between blocks (ks ++ xs) (ks ++ ys)

theorem Carries.append {l m n : Nat} {ks ks' : List TokenKind} (h : Carries l ks m)
    (h' : Carries m ks' n) : Carries l (ks ++ ks') n := by
  intro next xs ys hxy
  rw [List.append_assoc, List.append_assoc]
  exact h next _ _ (h' next xs ys hxy)

theorem carries_alignKinds {w : Nat} {aligned : List TokenKind × List Nat}
    (h : alignKinds w indents = .ok aligned) :
    Carries indents.length aligned.1 aligned.2.length := by
  intro next xs ys hxy
  unfold alignKinds at h
  split at h
  · cases h
    exact .settle (.indent hxy)
  · dsimp only at h
    split at h
    · cases h
      have hle := (List.dropWhile_sublist (w < ·) (l := indents)).length_le
      have hdedents := hxy.dedents (indents.length - (indents.dropWhile (w < ·)).length)
      rwa [Nat.sub_add_cancel hle] at hdedents
    · cases h

/-- A line has the same tokens whatever follows, and the same blocks are open behind it. -/
theorem exists_of_layLine {line ending ending' : List Char}
    {behind : List Nat → Except SyntaxCause (List TokenKind)}
    (hending : ending' = [] ∨ ending' = ['\n']) (hrest : lineRest 0 (line ++ ending') = ending')
    (hsame : ∀ ks, lineKinds 0 false (line.dropWhile isSpacing ++ ending) = .ok ks →
      lineKinds 0 false (line.dropWhile isSpacing ++ ending') = .ok ks)
    (h : layLine indents line ending behind = .ok ks) :
    ∃ ks₀ indents' ks₁, ks = ks₀ ++ ks₁ ∧ behind indents' = .ok ks₁ ∧
      Carries indents.length ks₀ indents'.length ∧
      ∀ behind', layLine indents line ending' behind' = (behind' indents').map (ks₀ ++ ·) := by
  cases hbody : line.dropWhile isSpacing with
  | nil =>
    rw [layLine_blank hbody] at h
    refine ⟨[], indents, ks, rfl, h, fun _ _ _ => id, fun behind' => ?_⟩
    rw [layLine_blank hbody]
    cases behind' indents <;> rfl
  | cons c body =>
    by_cases hc : c = '#'
    · subst hc
      rw [layLine_comment hbody] at h
      obtain ⟨ks₁, hks₁, rfl⟩ := map_eq_ok_iff.1 h
      exact ⟨[.comment (lineText body)], indents, ks₁, rfl, hks₁,
        fun _ _ _ hxy => .settle (.comment _ hxy), fun behind' => layLine_comment hbody⟩
    · rw [layLine_code hbody hc] at h
      obtain ⟨aligned, haligned, h⟩ := bind_eq_ok_iff.1 h
      obtain ⟨kinds, hkinds, h⟩ := bind_eq_ok_iff.1 h
      obtain ⟨ks₁, hks₁, rfl⟩ := map_eq_ok_iff.1 h
      rw [hbody] at hsame
      rw [← lineRest_dropWhile, hbody] at hrest
      have hkinds' := hsame kinds hkinds
      have hcarries : Carries aligned.2.length kinds aligned.2.length := fun next xs ys =>
        annotated_lineKinds (hending.imp hrest.trans hrest.trans) (fun _ => rfl) hkinds'
      refine ⟨aligned.1 ++ kinds, aligned.2, ks₁, rfl, hks₁,
        (carries_alignKinds haligned).append hcarries, fun behind' => ?_⟩
      rw [layLine_code hbody hc, haligned, hkinds']
      rfl

/-- The tokens of lines in front of others, and the blocks that are open behind them. -/
structure LeadsTo (lines : List (List Char)) (indents : List Nat) (ks : List TokenKind)
    (indents' : List Nat) : Prop where
  layOut_eq : ∀ further, further ≠ [] →
    layOut indents (lines ++ further) = (layOut indents' further).map (ks ++ ·)
  carries : Carries indents.length ks indents'.length

/-- Lines have the same tokens whatever other lines follow. -/
theorem exists_leadsTo {lines further : List (List Char)} (hlines : ∀ line ∈ lines, Closed line)
    (h : layOut indents (lines ++ further) = .ok ks) :
    ∃ ks₀ indents' ks₁, LeadsTo lines indents ks₀ indents' ∧ ks = ks₀ ++ ks₁ ∧
      layOut indents' further = .ok ks₁ := by
  induction lines generalizing indents ks with
  | nil =>
    refine ⟨[], indents, ks, ⟨fun further _ => ?_, fun _ _ _ => id⟩, rfl, h⟩
    rw [List.nil_append]
    cases layOut indents further <;> rfl
  | cons line lines ih =>
    rw [List.forall_mem_cons] at hlines
    have hrest : lineRest 0 (line.dropWhile isSpacing ++ ['\n']) = ['\n'] :=
      (lineRest_dropWhile line ['\n']).trans hlines.1
    rw [List.cons_append, layOut] at h
    obtain ⟨ks₀, indents₁, ks₁, rfl, hks₁, hcarries, hlayLine⟩ := exists_of_layLine (.inr rfl)
      hlines.1 (fun ks hks => by
        split at hks
        · rw [List.append_nil] at hks
          exact lineKinds_feed hrest hks
        · exact hks) h
    obtain ⟨ks₁, indents', ks₂, hleads, rfl, hks₂⟩ := ih hlines.2 hks₁
    refine ⟨ks₀ ++ ks₁, indents', ks₂, ⟨fun further hfurther => ?_, hcarries.append hleads.carries⟩,
      (List.append_assoc ..).symm, hks₂⟩
    have hempty : (lines ++ further).isEmpty = false := by
      rw [List.isEmpty_eq_false_iff]
      exact List.append_ne_nil_of_right_ne_nil _ hfurther
    rw [List.cons_append, layOut, hempty]
    refine (hlayLine _).trans ?_
    rw [hleads.layOut_eq _ hfurther]
    cases layOut indents' further <;> simp [Except.map]

/-! ### One more line -/

/-- All tokens are the same, except for comments of the second source. -/
def AnnotatedKinds (blocks : Nat) (ks ks' : List TokenKind) : Prop :=
  ∃ xs ys, ks = xs ++ [.eof] ∧ ks' = ys ++ [.eof] ∧ Annotated (some []) .between blocks xs ys

theorem Carries.annotatedKinds {m n : Nat} {ks ks₁ ks₂ : List TokenKind} (h : Carries m ks n)
    (hks : AnnotatedKinds n ks₁ ks₂) : AnnotatedKinds m (ks ++ ks₁) (ks ++ ks₂) := by
  obtain ⟨xs, ys, rfl, rfl, hxy⟩ := hks
  exact ⟨ks ++ xs, ks ++ ys, (List.append_assoc ..).symm, (List.append_assoc ..).symm,
    h _ xs ys hxy⟩

theorem annotatedKinds_finish (indents : List Nat) :
    AnnotatedKinds indents.length (finishKinds indents false) (finishKinds indents false) := by
  have hxy : Annotated (some []) .between _ _ _ := Annotated.of_finish rfl indents.length
  rw [List.append_nil] at hxy
  exact ⟨_, _, rfl, rfl, hxy⟩

/-- Lines have the tokens that they have. -/
theorem annotatedKinds_self {lines : List (List Char)} (h : lines = [] ∨ AreLines lines)
    (hks : layOut indents lines = .ok ks) : AnnotatedKinds indents.length ks ks := by
  obtain rfl | h := h
  · cases hks
    exact annotatedKinds_finish indents
  induction h generalizing indents ks with
  | @last line h =>
    obtain ⟨ks₀, indents', ks₁, rfl, hks₁, hcarries, -⟩ := exists_of_layLine (.inl rfl)
      ((List.append_nil line).symm ▸ h) (fun _ => id) hks
    cases hks₁
    exact hcarries.annotatedKinds (annotatedKinds_finish indents')
  | @cons line lines h hlines ih =>
    have hempty : lines.isEmpty = false := List.isEmpty_eq_false_iff.2 hlines.ne_nil
    rw [layOut, hempty] at hks
    obtain ⟨ks₀, indents', ks₁, rfl, hks₁, hcarries, -⟩ := exists_of_layLine (.inr rfl) h
      (fun _ => id) hks
    exact hcarries.annotatedKinds (ih hks₁)

/-- Whether a comment stands in front of an `elif` or an `else`. -/
def parted : TokenKind → TokenKind → Bool
  | .comment _, k => k == .name "elif" || k == .name "else"
  | _, _ => false

/-- No comment stands in front of an `elif` or an `else`. -/
def Unparted (ks : List TokenKind) : Prop := ks.IsChain fun k k' => parted k k' = false

instance (ks : List TokenKind) : Decidable (Unparted ks) :=
  inferInstanceAs (Decidable (ks.IsChain fun k k' => parted k k' = false))

/-- A line without any tokens. -/
def Blank (line : List Char) : Prop := ∀ c ∈ line, isSpacing c = true

/-- A line that holds nothing but a comment. -/
def Remark (line : List Char) : Prop :=
  (line.dropWhile isSpacing).head? = some '#' ∧ '\n' ∉ line

section Insertion

variable {line tail : List Char} {before after : List (List Char)}

theorem Blank.dropWhile_eq (h : Blank line) : line.dropWhile isSpacing = [] :=
  List.dropWhile_eq_nil_iff.2 h

theorem Remark.exists_text (h : Remark line) :
    ∃ text, line.dropWhile isSpacing = '#' :: text ∧ '\n' ∉ text := by
  obtain ⟨text, htext⟩ := List.head?_eq_some_iff.1 h.1
  refine ⟨text, htext, fun hmem => h.2 ((List.dropWhile_sublist isSpacing).subset ?_)⟩
  exact htext ▸ List.mem_cons_of_mem _ hmem

/-- Such a line ends with the next line feed. -/
theorem lineRest_eq (hline : Blank line ∨ Remark line) (htail : AtLineEnd tail) :
    lineRest 0 (line ++ tail) = lineRest 0 tail := by
  rw [← lineRest_dropWhile]
  obtain h | h := hline
  · rw [h.dropWhile_eq, List.nil_append]
  · obtain ⟨text, htext, hmem⟩ := h.exists_text
    have hdrop : text.dropWhile (· != '\n') = [] :=
      List.dropWhile_eq_nil_iff.2 fun c hc => by
        rw [bne_iff_ne]
        rintro rfl
        exact hmem hc
    rw [htext, List.cons_append, lineRest_comment, htail.dropWhile, hdrop, List.nil_append]

theorem areLines_insert (hlines : AreLines (before ++ after)) (hbefore : ∀ l ∈ before, Closed l)
    (hline : Blank line ∨ Remark line) : AreLines (before ++ line :: after) := by
  have hclosed : Closed line := (lineRest_eq hline (atLineEnd_feed [])).trans (lineRest_break [])
  induction before with
  | nil => exact .cons hclosed hlines
  | cons l before ih =>
    rw [List.forall_mem_cons] at hbefore
    refine .cons hbefore.1 ?_
    obtain hnil | hlines := hlines.tail
    · obtain ⟨rfl, rfl⟩ := List.append_eq_nil_iff.1 hnil
      have hrest := lineRest_eq hline (.inl rfl)
      rw [List.append_nil] at hrest
      exact .last (hrest.trans lineRest_nil)
    · exact ih hlines hbefore.2

theorem AreLines.of_append (h : AreLines (before ++ after)) : after = [] ∨ AreLines after := by
  induction before with
  | nil => exact .inr h
  | cons l before ih =>
    obtain hnil | hlines := h.tail
    · exact .inl (List.append_eq_nil_iff.1 hnil).2
    · exact ih hlines

/-- A comment in front of other tokens. -/
theorem AnnotatedKinds.remark {blocks : Nat} {ks ks' : List TokenKind} {text : String}
    (h : AnnotatedKinds blocks ks ks) (hunparted : Unparted (ks' ++ .comment text :: ks)) :
    AnnotatedKinds blocks ks (.comment text :: ks) := by
  obtain ⟨xs, ys, hxs, hys, hxy⟩ := h
  refine ⟨xs, .comment text :: ys, hxs, congrArg _ hys, .remark text ?_ hxy⟩
  subst hxs
  cases xs with
  | nil => decide
  | cons k xs =>
    have hpair : parted (.comment text) k = false :=
      (List.isChain_cons_cons.1 (List.isChain_append.1 hunparted).2.1).1
    rintro (rfl | rfl)
    · cases hpair
    · cases hpair

/-- A line that is put in leaves all tokens as they are, except for its comment. -/
theorem exists_annotated {ks : List TokenKind} (hlines : AreLines (before ++ after))
    (hbefore : ∀ l ∈ before, Closed l) (hline : Blank line ∨ Remark line)
    (hks : layOut [] (before ++ after) = .ok ks) :
    ∃ ks', layOut [] (before ++ line :: after) = .ok ks' ∧
      ((Remark line → Unparted ks') → AnnotatedKinds 0 ks ks') := by
  obtain ⟨ks₀, indents, ks₁, hleads, rfl, hks₁⟩ := exists_leadsTo hbefore hks
  have hself := annotatedKinds_self hlines.of_append hks₁
  rw [hleads.layOut_eq _ (List.cons_ne_nil line after), layOut]
  obtain h | h := hline
  · rw [layLine_blank h.dropWhile_eq, hks₁]
    exact ⟨ks₀ ++ ks₁, rfl, fun _ => hleads.carries.annotatedKinds hself⟩
  · obtain ⟨text, htext, -⟩ := h.exists_text
    rw [layLine_comment htext, hks₁]
    exact ⟨ks₀ ++ .comment (lineText text) :: ks₁, rfl, fun hunparted =>
      hleads.carries.annotatedKinds (hself.remark (hunparted h))⟩

end Insertion

/-- An accepted program is accepted with more comments. -/
theorem parse_annotated {source source' : String} {ks ks' : List TokenKind} {body : List Stmt}
    (hks : outcome (tokens source) = .ok ks) (hks' : outcome (tokens source') = .ok ks')
    (hannotated : AnnotatedKinds 0 ks ks') (hread : parse source = .ok body) :
    ∃ body', parse source' = .ok body' ∧ Stmt.SameCode body body' := by
  obtain ⟨ts, as, s, hts, has, rfl, -⟩ :=
    exists_of_run defines_program (fun _ => lexical_tokens) hread
  obtain ⟨xs, ys, rfl, rfl, hxy⟩ := hannotated
  obtain ⟨us, hus, hys⟩ := outcome_eq_ok_iff.1 hks'
  rw [hts] at hks
  have hxs : ts.map Token.kind = xs ++ [.eof] := Except.ok.inj hks
  have hnext (rest : List TokenKind) (h : some [] = some rest) :
      rest.headD .eof ≠ .name "elif" ∧ rest.headD .eof ≠ .name "else" := by
    obtain rfl := Option.some.inj h
    exact ⟨nofun, nofun⟩
  obtain ⟨_, as', t, hend, hcode, ht, -, hreach⟩ :=
    program_continues hnext (.ofTokens hxs hys hxy) has (List.forall_mem_nil _)
  cases hend
  have hall := run_statements (hreach _ _ (collect_programRound_nil _ ht))
  rw [List.append_nil] at hall
  refine ⟨as'.flatten, ?_, hcode⟩
  rw [parse, hus]
  exact hall

end Indented

/-- **Blank lines and comments.** Put between two lines of an accepted program, where no brackets
are open and no backslash joins the lines, a blank line or a comment changes nothing but the
comments of the program, provided that the comment does not come right before an `elif` or an
`else`. -/
theorem Program.read_insert {source : String} {before after : List (List Char)} {line : List Char}
    {body : List Stmt} (hlines : Indented.logicalLines source.toList = before ++ after)
    (hbefore : ∀ l ∈ before, Indented.Closed l) (hline : Indented.Blank line ∨ Indented.Remark line)
    (hunparted : Indented.Remark line → ∀ ks,
      outcome (Indented.tokens (Indented.ofLines (before ++ line :: after))) = .ok ks →
        Indented.Unparted ks)
    (hread : Program.read ⟨.indented, source⟩ = .ok body) :
    ∃ body', Program.read ⟨.indented, Indented.ofLines (before ++ line :: after)⟩ = .ok body' ∧
      Stmt.allUncommented body' = Stmt.allUncommented body := by
  have hare := (Indented.areLines_logicalLines source.toList).1
  have hsource := Indented.ofLines_logicalLines source
  rw [hlines] at hare hsource
  obtain ⟨ts, as, s, hts, -⟩ := Parser.exists_of_run Indented.defines_program
    (fun _ => Indented.lexical_tokens) hread
  have htokens : outcome (Indented.tokens source) = .ok (ts.map Token.kind) :=
    outcome_eq_ok_iff.2 ⟨ts, hts, rfl⟩
  have hlayout := Indented.outcome_ofLines hare
  rw [hsource, htokens] at hlayout
  obtain ⟨ks', hks', hannotated⟩ := Indented.exists_annotated hare hbefore hline hlayout.symm
  have htokens' := (Indented.outcome_ofLines
    (Indented.areLines_insert hare hbefore hline)).trans hks'
  obtain ⟨body', hread', hcode⟩ := Indented.parse_annotated htokens htokens'
    (hannotated fun hremark => hunparted hremark ks' htokens') hread
  exact ⟨body', hread', hcode.symm⟩

/-- A comment in front of an `else`, at the end of an indented block. -/
theorem Program.read_insert_block :
    Indented.logicalLines "if 1:\n  pass\nelse: pass\n".toList =
        ["if 1:".toList, "  pass".toList] ++ ["else: pass".toList, []] ∧
      ∃ body', Program.read ⟨.indented, Indented.ofLines
          (["if 1:".toList, "  pass".toList] ++ "# c".toList :: ["else: pass".toList, []])⟩ =
            .ok body' ∧
        Stmt.allUncommented body' =
          Stmt.allUncommented [.cond (.arm (.literal (.int 1)) [] (.otherwise []))] := by
  have hlines : Indented.logicalLines "if 1:\n  pass\nelse: pass\n".toList =
      ["if 1:".toList, "  pass".toList] ++ ["else: pass".toList, []] := by cbv
  have hclosed : Indented.Closed "if 1:".toList ∧ Indented.Closed "  pass".toList :=
    ⟨show Indented.lineRest _ _ = _ by cbv, show Indented.lineRest _ _ = _ by cbv⟩
  have hsource : Indented.ofLines
      (["if 1:".toList, "  pass".toList] ++ "# c".toList :: ["else: pass".toList, []]) =
        "if 1:\n  pass\n# c\nelse: pass\n" := by
    rw [Indented.ofLines, ← String.toList_inj, String.toList_ofList]
    cbv
  have hkinds : outcome (Indented.tokens "if 1:\n  pass\n# c\nelse: pass\n") =
      .ok [.name "if", .int 1, .op ":", .newline, .indent, .name "pass", .newline, .comment " c",
        .dedent, .name "else", .op ":", .name "pass", .newline, .eof] := by cbv
  refine ⟨hlines, Program.read_insert hlines ?_ (.inr ⟨rfl, by decide⟩) ?_ (by cbv)⟩
  · exact List.forall_mem_cons.2 ⟨hclosed.1, List.forall_mem_singleton.2 hclosed.2⟩
  · intro _ ks hks
    rw [hsource, hkinds] at hks
    cases hks
    decide

/-- Behind a block on one line, the same comment is refused. -/
theorem Program.read_insert_line :
    Program.read ⟨.indented, "if 1: pass\nelse: pass\n"⟩ =
        .ok [.cond (.arm (.literal (.int 1)) [] (.otherwise []))] ∧
      Program.read ⟨.indented, "if 1: pass\n# c\nelse: pass\n"⟩ =
        .error ⟨⟨3, 1⟩, .unmatchedAlternative "else"⟩ :=
  ⟨by cbv, by cbv⟩

end Labyrinth
