import Labyrinth.Proofs.Language.LongerSources

/-!
# Longer sources of the indented dialect

When a source goes on behind its end, the tokens before the end stay the same, except for those
with which the end itself is marked. The last line is ended by a line feed as it would be by the
end, unless brackets are open there. Blocks that are open are closed later, since comments do not
close blocks, and they stay open if the source goes on with an indented line.

## Main results

* `exists_reaches`: how far a source is scanned when another one follows.
* `tokens_append`: the tokens of a source that consists of two others.
-/

namespace Labyrinth

namespace Indented

/-! ### Layout -/

/-- The tokens on the first stream come to their end, and those on the second one go on. `line` is
the number of brackets that are open on the line, if a token stands on it, and `blocks` the number
of open blocks. At the end of the first stream they are closed; on the second one, comments may come
before that. What the second stream goes on with is `next`, unless brackets are open where the first
one ends. -/
inductive ContinuedBy (next : Option (List TokenKind)) :
    Option Nat → Nat → List TokenKind → List TokenKind → Prop
  | token {line : Option Nat} {blocks : Nat} {k : TokenKind} {xs ys : List TokenKind}
    (hk : k.isLayout = false)
    (h : ContinuedBy next (some (depthAfter k (line.getD 0))) blocks xs ys) :
    ContinuedBy next line blocks (k :: xs) (k :: ys)
  | newline {blocks : Nat} {xs ys : List TokenKind} (h : ContinuedBy next none blocks xs ys) :
    ContinuedBy next (some 0) blocks (.newline :: xs) (.newline :: ys)
  | comment {blocks : Nat} {xs ys : List TokenKind} (text : String)
    (h : ContinuedBy next none blocks xs ys) :
    ContinuedBy next none blocks (.comment text :: xs) (.comment text :: ys)
  | indent {blocks : Nat} {xs ys : List TokenKind} (h : ContinuedBy next none (blocks + 1) xs ys) :
    ContinuedBy next none blocks (.indent :: xs) (.indent :: ys)
  | dedent {blocks : Nat} {xs ys : List TokenKind} (h : ContinuedBy next none blocks xs ys) :
    ContinuedBy next none (blocks + 1) (.dedent :: xs) (.dedent :: ys)
  | finish {blocks : Nat} {rest xs ys : List TokenKind} (texts : List String)
    (hnext : next = some rest) (hxs : xs = List.replicate blocks .dedent)
    (hys : ys = texts.map .comment ++ List.replicate blocks .dedent ++ rest) :
    ContinuedBy next none blocks xs ys
  | unclosed {depth blocks : Nat} {xs ys : List TokenKind} :
    ContinuedBy next (some (depth + 1)) blocks (.newline :: xs) ys

/-! ### Single steps -/

section Steps

variable {indents : List Nat} {r : Reader} {c : Char} {cs : List Char} {depth : Nat}
  {pending : Bool}

theorem scan_lineStart_nil (h : (lineBody r).rest = []) :
    scan .lineStart indents r = .ok (finish indents false (lineBody r).position) := by
  rw [scan]
  split <;> grind

theorem scan_lineStart_break (h : (lineBody r).rest = '\n' :: cs) :
    scan .lineStart indents r = scan .lineStart indents ((lineBody r).skip 1) := by
  rw [scan]
  split <;> grind

theorem scan_lineStart_comment (h : (lineBody r).rest = '#' :: cs) :
    scan .lineStart indents r = (do
      let rest ← scan .lineStart indents (((lineBody r).skip 1).line.2.skip 1)
      return ⟨.comment ((lineBody r).skip 1).line.1, (lineBody r).position⟩ :: rest) := by
  rw [scan]
  split <;> grind

theorem scan_lineStart_code (h : (lineBody r).rest = c :: cs) (hbreak : c ≠ '\n')
    (hcomment : c ≠ '#') :
    scan .lineStart indents r = (do
      let aligned ← align (width (r.rest.takeWhile isSpacing)) indents (lineBody r).position
      let rest ← scan (.inLine 0 false) aligned.2 (lineBody r)
      return aligned.1 ++ rest) := by
  rw [scan]
  split <;> grind

theorem scan_inLine_nil (h : r.rest = []) :
    scan (.inLine depth pending) indents r = .ok (finish indents pending r.position) := by
  rw [scan]
  split <;> grind

theorem scan_inLine_break (h : r.rest = '\n' :: cs) :
    scan (.inLine 0 pending) indents r = (do
      let rest ← scan .lineStart indents (r.skip 1)
      return lineEnd pending r.position ++ rest) := by
  conv_lhs => rw [scan, if_pos rfl]
  split <;> grind

theorem scan_inLine_within (h : r.rest = '\n' :: cs) (hdepth : depth ≠ 0) :
    scan (.inLine depth pending) indents r = scan (.inLine depth pending) indents (r.skip 1) := by
  conv_lhs => rw [scan]
  split <;> grind

theorem scan_inLine_comment (h : r.rest = '#' :: cs) :
    scan (.inLine depth pending) indents r = scan (.inLine depth pending) indents r.line.2 := by
  rw [scan]
  split <;> grind

theorem scan_inLine_joined (h : r.rest = '\\' :: '\n' :: cs) :
    scan (.inLine depth pending) indents r = scan (.inLine depth pending) indents (r.skip 2) := by
  rw [scan]
  split <;> grind

theorem scan_inLine_spacing (h : r.rest = c :: cs) (hc : isSpacing c = true) :
    scan (.inLine depth pending) indents r = scan (.inLine depth pending) indents (r.skip 1) := by
  rw [scan]
  split <;> grind [isSpacing]

theorem scan_inLine_token (h : r.rest = c :: cs) (hbreak : c ≠ '\n') (hcomment : c ≠ '#')
    (hjoined : ∀ further, c = '\\' → cs ≠ '\n' :: further) (hspacing : ¬isSpacing c = true) :
    scan (.inLine depth pending) indents r = (do
      let (kind, after) ← r.token operators
      let rest ← scan (.inLine (depthAfter kind depth) true) indents after
      return ⟨kind, r.position⟩ :: rest) := by
  rw [scan]
  split
  all_goals try grind
  · next heq =>
    cases h.symm.trans heq
    rw [if_neg hspacing]
    split
    · next htoken => rw [htoken]; rfl
    · next htoken => rw [htoken]; rfl

end Steps

/-! ### Sources that are scanned to their end -/

/-- The number of brackets that are open at a place, if a token stands on the line. -/
def Place.line : Place → Option Nat
  | .lineStart => none
  | .inLine depth pending => if pending then some depth else none

/-- No brackets are open on a line without a token. -/
def Place.Settled : Place → Prop
  | .lineStart => True
  | .inLine depth pending => pending = false → depth = 0

/-- From a place in a source, a scan comes to the end of the source, where `depth` brackets and the
blocks `open'` are open. There it goes on with whatever follows the source. -/
structure Reaches (tail : List Char) (place : Place) (indents : List Nat) (r : Reader)
    (us : List TokenKind) (depth : Nat) (pending : Bool) (indents' : List Nat) : Prop where
  settled : Place.Settled (.inLine depth pending)
  positive : ∀ w ∈ indents', 0 < w
  layout : ∀ next xs ys,
    ContinuedBy next (Place.inLine depth pending).line indents'.length xs ys →
      ContinuedBy next place.line indents.length (us ++ xs) (us ++ ys)
  scan : ∀ r', r.GoesOn tail r' → ∃ p vs, vs.map Token.kind = us ∧
    ∀ ts, scan (.inLine depth pending) indents' ⟨tail, p⟩ = .ok ts →
      scan place indents r' = .ok (vs ++ ts)

/-- The kind of the token that ends a line, where there is something to end. -/
def lineEndKinds (pending : Bool) : List TokenKind := if pending then [.newline] else []

theorem map_lineEnd (pending : Bool) (p : Position) :
    (lineEnd pending p).map Token.kind = lineEndKinds pending := by
  cases pending with
  | false => rfl
  | true => rfl

theorem map_finish (indents : List Nat) (pending : Bool) (p : Position) :
    (finish indents pending p).map Token.kind =
      lineEndKinds pending ++ List.replicate indents.length .dedent ++ [.eof] := by
  rw [finish, List.map_append, List.map_append, map_lineEnd, List.map_replicate]
  rfl

/-! ### Alignment -/

theorem ContinuedBy.dedents {next : Option (List TokenKind)} {blocks : Nat} {xs ys : List TokenKind}
    (h : ContinuedBy next none blocks xs ys) (n : Nat) :
    ContinuedBy next none (n + blocks) (List.replicate n .dedent ++ xs)
      (List.replicate n .dedent ++ ys) := by
  induction n with
  | zero => rwa [Nat.zero_add]
  | succ n ih =>
    rw [Nat.succ_add]
    exact .dedent ih

section Align

variable {w : Nat} {indents indents₁ : List Nat} {p : Position} {layout : List Token}

theorem align_of_ok (h : align w indents p = .ok (layout, indents₁)) (p' : Position) :
    ∃ layout', align w indents p' = .ok (layout', indents₁) ∧
      layout'.map Token.kind = layout.map Token.kind := by
  unfold align at h ⊢
  split at h
  · next hlt =>
    cases h
    exact ⟨_, if_pos hlt, rfl⟩
  · next hge =>
    dsimp only at h
    split at h
    · next hsame =>
      cases h
      refine ⟨_, (if_neg hge).trans (if_pos hsame), ?_⟩
      rw [List.map_replicate, List.map_replicate]
    · cases h

theorem align_layout (h : align w indents p = .ok (layout, indents₁))
    {next : Option (List TokenKind)} {xs ys : List TokenKind}
    (hxy : ContinuedBy next none indents₁.length xs ys) :
    ContinuedBy next none indents.length (layout.map Token.kind ++ xs)
      (layout.map Token.kind ++ ys) := by
  obtain ⟨-, rfl, rfl⟩ | ⟨closed, rfl, rfl, -⟩ := align_cases h
  · exact .indent hxy
  · rw [List.map_replicate, List.length_append]
    exact hxy.dedents closed.length

theorem align_positive (h : align w indents p = .ok (layout, indents₁))
    (hindents : ∀ w ∈ indents, 0 < w) : ∀ w ∈ indents₁, 0 < w := by
  obtain ⟨hlt, -, rfl⟩ | ⟨closed, rfl, -, -⟩ := align_cases h
  · exact List.forall_mem_cons.2 ⟨Nat.zero_lt_of_lt hlt, hindents⟩
  · exact (List.forall_mem_append.1 hindents).2

end Align

section Scan

variable {tail : List Char} {place place₁ : Place} {indents indents₁ indents' : List Nat}
  {r r₁ : Reader} {us : List TokenKind} {depth : Nat} {pending : Bool}

/-- Some tokens are read before the scan goes on from another place. -/
theorem Reaches.step (ks : List TokenKind)
    (h : Reaches tail place₁ indents₁ r₁ us depth pending indents')
    (hlayout : ∀ next xs ys, ContinuedBy next place₁.line indents₁.length xs ys →
      ContinuedBy next place.line indents.length (ks ++ xs) (ks ++ ys))
    (hscan : ∀ r', r.GoesOn tail r' → ∃ r₁' vs, r₁.GoesOn tail r₁' ∧ vs.map Token.kind = ks ∧
      ∀ ts, Indented.scan place₁ indents₁ r₁' = .ok ts →
        Indented.scan place indents r' = .ok (vs ++ ts)) :
    Reaches tail place indents r (ks ++ us) depth pending indents' := by
  refine ⟨h.settled, h.positive, fun next xs ys hxy => ?_, fun r' hr => ?_⟩
  · rw [List.append_assoc, List.append_assoc]
    exact hlayout next _ _ (h.layout next xs ys hxy)
  · obtain ⟨r₁', vs, hr₁, hvs, hts⟩ := hscan r' hr
    obtain ⟨p, ws, hws, hend⟩ := h.scan r₁' hr₁
    refine ⟨p, vs ++ ws, by rw [List.map_append, hvs, hws], fun ts h => ?_⟩
    rw [List.append_assoc]
    exact hts _ (hend ts h)

/-- No token is read before the scan goes on from another place. -/
theorem Reaches.skip (h : Reaches tail place₁ indents r₁ us depth pending indents')
    (hline : place₁.line = place.line)
    (hscan : ∀ r', r.GoesOn tail r' → ∃ r₁', r₁.GoesOn tail r₁' ∧
      Indented.scan place indents r' = Indented.scan place₁ indents r₁') :
    Reaches tail place indents r us depth pending indents' := by
  refine h.step [] (fun next xs ys hxy => hline ▸ hxy) fun r' hr => ?_
  obtain ⟨r₁', hr₁, heq⟩ := hscan r' hr
  exact ⟨r₁', [], hr₁, rfl, fun ts hts => heq.trans hts⟩

/-- At the start of a line, nothing is different from a line without tokens. -/
theorem scan_lineStart_of_inLine (htail : BeginsLine tail) {r' : Reader} {p : Position}
    {ts : List Token} (hbody : lineBody r' = ⟨tail, p⟩)
    (h : scan (.inLine 0 false) indents ⟨tail, p⟩ = .ok ts) :
    scan .lineStart indents r' = .ok ts := by
  obtain rfl | ⟨cs, rfl⟩ := htail.cases
  · rw [scan_lineStart_nil (congrArg Reader.rest hbody), hbody]
    rwa [scan_inLine_nil rfl] at h
  · rw [scan_inLine_break rfl] at h
    obtain ⟨us, hus, h⟩ := bind_eq_ok_iff.1 h
    cases h
    rw [scan_lineStart_break (congrArg Reader.rest hbody), hbody]
    exact hus

theorem scan_lineStart_skip (htail : BeginsLine tail) {p : Position} {ts : List Token}
    (h : scan (.inLine 0 false) indents ⟨tail, p⟩ = .ok ts) :
    scan .lineStart indents (Reader.skip ⟨tail, p⟩ 1) = .ok ts := by
  obtain rfl | ⟨cs, rfl⟩ := htail.cases
  · exact scan_lineStart_of_inLine htail rfl h
  · rw [scan_inLine_break rfl] at h
    obtain ⟨us, hus, h⟩ := bind_eq_ok_iff.1 h
    cases h
    exact hus

/-- A backslash that joins no lines begins no token. -/
theorem token_backslash {cs : List Char} {kind : TokenKind} {after : Reader}
    (hr : r.rest = '\\' :: cs) : r.token operators ≠ .ok (kind, after) := by
  intro h
  have hname : isNameStart '\\' = false := by decide
  simp only [Reader.token, hr] at h
  rw [if_neg (by decide), if_neg (by decide), if_neg (by rw [hname]; decide)] at h
  simp only [Reader.operator, hr] at h
  cases h

/-! ### How far a source is scanned -/

theorem goesOn_lineBody (htail : BeginsLine tail) {r' : Reader} (hr : r.GoesOn tail r') :
    (lineBody r).GoesOn tail (lineBody r') := (hr.takeWhile htail rfl).2

/-- The text of a comment, and what is left of its line. -/
theorem goesOn_comment (htail : BeginsLine tail) {r' : Reader} {cs : List Char}
    (hrest : (lineBody r).rest = '#' :: cs) (hr : r.GoesOn tail r') :
    ((lineBody r').skip 1).line.1 = ((lineBody r).skip 1).line.1 ∧
      ((lineBody r).skip 1).line.2.GoesOn tail ((lineBody r').skip 1).line.2 :=
  ((goesOn_lineBody htail hr).skip (by simp [hrest])).line htail

theorem scan_lineStart_of_comment {cs : List Char} {ts : List Token}
    (hrest : (lineBody r).rest = '#' :: cs)
    (h : scan .lineStart indents (((lineBody r).skip 1).line.2.skip 1) = .ok ts) :
    scan .lineStart indents r =
      .ok (⟨.comment ((lineBody r).skip 1).line.1, (lineBody r).position⟩ :: ts) := by
  rw [scan_lineStart_comment hrest, h]
  rfl

/-- A line with code, which may go on behind the end of the source. -/
theorem scan_lineStart_of_code (htail : BeginsLine tail) {r' : Reader} (hr : r.GoesOn tail r')
    (hnil : (lineBody r).rest ≠ []) (hbreak : ∀ cs, (lineBody r).rest ≠ '\n' :: cs)
    (hcomment : ∀ cs, (lineBody r).rest ≠ '#' :: cs) {layout ts : List Token}
    (halign : align (width (r.rest.takeWhile isSpacing)) indents (lineBody r').position =
      .ok (layout, indents₁))
    (h : scan (.inLine 0 false) indents₁ (lineBody r') = .ok ts) :
    scan .lineStart indents r' = .ok (layout ++ ts) := by
  obtain ⟨c, cs, hcs⟩ := List.exists_cons_of_ne_nil hnil
  have hrest := (goesOn_lineBody htail hr).rest_eq hcs
  have hwidth : r'.rest.takeWhile isSpacing = r.rest.takeWhile isSpacing :=
    (hr.takeWhile htail (p := isSpacing) rfl).1
  rw [scan_lineStart_code hrest (fun hc => hbreak cs (hc ▸ hcs)) fun hc => hcomment cs (hc ▸ hcs),
    hwidth, halign]
  simp only [bind, Except.bind, h]
  rfl

theorem reaches_end (hindents : ∀ w ∈ indents, 0 < w)
    (hsettled : Place.Settled (.inLine depth pending)) (hnil : r.rest = []) :
    Reaches tail (.inLine depth pending) indents r [] depth pending indents := by
  refine ⟨hsettled, hindents, fun _ _ _ => id, fun r' hr => ?_⟩
  refine ⟨r'.position, [], rfl, fun ts hts => ?_⟩
  rwa [show r' = ⟨tail, r'.position⟩ from congrArg (Reader.mk · r'.position) (hr.rest_eq hnil)]

/-- At the end of a source, its last line does not have to be ended. -/
theorem reaches_lineStart_end (htail : BeginsLine tail) (hindents : ∀ w ∈ indents, 0 < w)
    (hnil : (lineBody r).rest = []) : Reaches tail .lineStart indents r [] 0 false indents := by
  refine (reaches_end hindents (fun _ => rfl) hnil).step [] (fun _ _ _ => id) fun r' hr => ?_
  have hbody := goesOn_lineBody htail hr
  refine ⟨lineBody r', [], hbody, rfl, fun ts hts => ?_⟩
  have heq : lineBody r' = ⟨tail, (lineBody r').position⟩ :=
    congrArg (Reader.mk · (lineBody r').position) (hbody.rest_eq hnil)
  exact scan_lineStart_of_inLine htail heq (heq ▸ hts)

/-- A comment on the last line of a source: the line feed of the tail ends it. -/
theorem reaches_comment_end (htail : BeginsLine tail) (hindents : ∀ w ∈ indents, 0 < w)
    {cs : List Char} (hrest : (lineBody r).rest = '#' :: cs)
    (hnil : ((lineBody r).skip 1).line.2.rest = []) :
    Reaches tail .lineStart indents r [.comment ((lineBody r).skip 1).line.1] 0 false indents := by
  refine (reaches_end hindents (fun _ => rfl) hnil).step [.comment ((lineBody r).skip 1).line.1]
    (fun _ _ _ hxy => .comment _ hxy) fun r' hr => ?_
  obtain ⟨htext, hgoes⟩ := goesOn_comment htail hrest hr
  refine ⟨_, [_], hgoes, ?_, fun ts hts =>
    scan_lineStart_of_comment ((goesOn_lineBody htail hr).rest_eq hrest) ?_⟩
  · rw [List.map_singleton, htext]
  · have heq : ((lineBody r').skip 1).line.2 = ⟨tail, ((lineBody r').skip 1).line.2.position⟩ :=
      congrArg (Reader.mk · ((lineBody r').skip 1).line.2.position) (hgoes.rest_eq hnil)
    rw [heq] at hts ⊢
    exact scan_lineStart_skip htail hts

namespace Reaches

variable {c : Char} {cs : List Char} {d : Nat} {b : Bool}

theorem lineStart_break (htail : BeginsLine tail) (hrest : (lineBody r).rest = '\n' :: cs)
    (h : Reaches tail .lineStart indents ((lineBody r).skip 1) us depth pending indents') :
    Reaches tail .lineStart indents r us depth pending indents' :=
  h.skip rfl fun r' hr =>
    have hbody := goesOn_lineBody htail hr
    ⟨(lineBody r').skip 1, hbody.skip (by simp [hrest]),
      scan_lineStart_break (hbody.rest_eq hrest)⟩

theorem lineStart_comment (htail : BeginsLine tail) (hrest : (lineBody r).rest = '#' :: cs)
    (hne : ((lineBody r).skip 1).line.2.rest ≠ [])
    (h : Reaches tail .lineStart indents (((lineBody r).skip 1).line.2.skip 1) us depth pending
      indents') :
    Reaches tail .lineStart indents r ([.comment ((lineBody r).skip 1).line.1] ++ us) depth pending
      indents' := by
  refine h.step _ (fun _ _ _ hxy => .comment _ hxy) fun r' hr => ?_
  obtain ⟨htext, hgoes⟩ := goesOn_comment htail hrest hr
  refine ⟨_, [_], hgoes.skip (List.length_pos_iff.2 hne), by rw [List.map_singleton, htext],
    fun ts hts => scan_lineStart_of_comment ((goesOn_lineBody htail hr).rest_eq hrest) hts⟩

theorem lineStart_code (htail : BeginsLine tail) (hnil : (lineBody r).rest ≠ [])
    (hbreak : ∀ cs, (lineBody r).rest ≠ '\n' :: cs)
    (hcomment : ∀ cs, (lineBody r).rest ≠ '#' :: cs) {layout : List Token}
    (halign : align (width (r.rest.takeWhile isSpacing)) indents (lineBody r).position =
      .ok (layout, indents₁))
    (h : Reaches tail (.inLine 0 false) indents₁ (lineBody r) us depth pending indents') :
    Reaches tail .lineStart indents r (layout.map Token.kind ++ us) depth pending indents' := by
  refine h.step _ (fun _ _ _ => align_layout halign) fun r' hr => ?_
  obtain ⟨layout', halign', hlayout⟩ := align_of_ok halign (lineBody r').position
  exact ⟨lineBody r', layout', goesOn_lineBody htail hr, hlayout, fun ts hts =>
    scan_lineStart_of_code htail hr hnil hbreak hcomment halign' hts⟩

theorem inLine_break (hrest : r.rest = '\n' :: cs)
    (h : Reaches tail .lineStart indents (r.skip 1) us depth pending indents') :
    Reaches tail (.inLine 0 b) indents r (lineEndKinds b ++ us) depth pending indents' := by
  refine h.step _ (fun next xs ys hxy => ?_) fun r' hr =>
    ⟨r'.skip 1, lineEnd b r'.position, hr.skip (by simp [hrest]), map_lineEnd .., fun ts hts => ?_⟩
  · cases b with
    | false => exact hxy
    | true => exact .newline hxy
  · rw [scan_inLine_break (hr.rest_eq hrest), hts]
    rfl

theorem inLine_within (hrest : r.rest = '\n' :: cs) (hd : d ≠ 0)
    (h : Reaches tail (.inLine d b) indents (r.skip 1) us depth pending indents') :
    Reaches tail (.inLine d b) indents r us depth pending indents' :=
  h.skip rfl fun r' hr =>
    ⟨r'.skip 1, hr.skip (by simp [hrest]), scan_inLine_within (hr.rest_eq hrest) hd⟩

theorem inLine_comment (htail : BeginsLine tail) (hrest : r.rest = '#' :: cs)
    (h : Reaches tail (.inLine d b) indents r.line.2 us depth pending indents') :
    Reaches tail (.inLine d b) indents r us depth pending indents' :=
  h.skip rfl fun r' hr =>
    ⟨r'.line.2, (hr.takeWhile htail rfl).2, scan_inLine_comment (hr.rest_eq hrest)⟩

theorem inLine_joined (hrest : r.rest = '\\' :: '\n' :: cs)
    (h : Reaches tail (.inLine d b) indents (r.skip 2) us depth pending indents') :
    Reaches tail (.inLine d b) indents r us depth pending indents' :=
  h.skip rfl fun r' hr =>
    ⟨r'.skip 2, hr.skip (by simp [hrest]), scan_inLine_joined (hr.rest_eq hrest)⟩

theorem inLine_spacing (hrest : r.rest = c :: cs) (hc : isSpacing c = true)
    (h : Reaches tail (.inLine d b) indents (r.skip 1) us depth pending indents') :
    Reaches tail (.inLine d b) indents r us depth pending indents' :=
  h.skip rfl fun r' hr =>
    ⟨r'.skip 1, hr.skip (by simp [hrest]), scan_inLine_spacing (hr.rest_eq hrest) hc⟩

theorem inLine_token (htail : BeginsLine tail) (hsettled : Place.Settled (.inLine d b))
    (hrest : r.rest = c :: cs) (hbreak : c ≠ '\n') (hcomment : c ≠ '#')
    (hjoined : ∀ further, c = '\\' → cs ≠ '\n' :: further) (hspacing : ¬isSpacing c = true)
    {kind : TokenKind} {after : Reader} (htoken : r.token operators = .ok (kind, after))
    (h : Reaches tail (.inLine (depthAfter kind d) true) indents after us depth pending indents') :
    Reaches tail (.inLine d b) indents r ([kind] ++ us) depth pending indents' := by
  refine h.step [kind] (fun next xs ys hxy => .token (Reader.isLayout_token htoken) ?_)
    fun r' hr => ?_
  · cases b with
    | true => exact hxy
    | false =>
      rw [hsettled rfl] at hxy
      exact hxy
  · obtain ⟨after', htoken', hafter⟩ :=
      hr.token htail oneLine_operators (hrest ▸ List.cons_ne_nil c cs) htoken
    refine ⟨after', [⟨kind, r'.position⟩], hafter, rfl, fun ts hts => ?_⟩
    rw [scan_inLine_token (hr.rest_eq hrest) hbreak hcomment ?_ hspacing, htoken']
    · simp only [bind, Except.bind, hts]
      rfl
    -- A backslash at the end of the source might join its last line to the tail.
    · rintro further rfl heq
      cases cs with
      | nil => exact token_backslash hrest htoken
      | cons d cs =>
        cases heq
        exact hjoined cs rfl rfl

end Reaches

theorem exists_reaches (htail : BeginsLine tail) {ts : List Token}
    (h : scan place indents r = .ok ts) (hplace : place.Settled) (hindents : ∀ w ∈ indents, 0 < w) :
    ∃ us depth pending indents', Reaches tail place indents r us depth pending indents' ∧
      ts.map Token.kind =
        us ++ (lineEndKinds pending ++ List.replicate indents'.length .dedent ++ [.eof]) := by
  fun_induction scan place indents r generalizing ts with
  | case1 indents r hnil =>
    cases h
    exact ⟨_, _, _, _, reaches_lineStart_end htail hindents hnil, map_finish ..⟩
  | case2 indents r cs hrest ih =>
    obtain ⟨us, depth, pending, indents', hreaches, hkinds⟩ := ih h trivial hindents
    exact ⟨us, depth, pending, indents', hreaches.lineStart_break htail hrest, hkinds⟩
  | case3 indents r cs hrest ih =>
    obtain ⟨ts, hts, h⟩ := bind_eq_ok_iff.1 h
    cases h
    by_cases hend : ((lineBody r).skip 1).line.2.rest = []
    · have hnil : (lineBody (((lineBody r).skip 1).line.2.skip 1)).rest = [] :=
        show (((lineBody r).skip 1).line.2.rest.drop 1).dropWhile isSpacing = [] by rw [hend]; rfl
      have hfinish := Except.ok.inj ((scan_lineStart_nil hnil).symm.trans hts)
      refine ⟨_, _, _, _, reaches_comment_end htail hindents hrest hend, ?_⟩
      rw [List.map_cons, ← hfinish, map_finish]
      rfl
    · obtain ⟨us, depth, pending, indents', hreaches, hkinds⟩ := ih hts trivial hindents
      refine ⟨_, _, _, _, hreaches.lineStart_comment htail hrest hend, ?_⟩
      rw [List.map_cons, hkinds]
      rfl
  | case4 indents r hnil hbreak hcomment ih =>
    obtain ⟨⟨layout, indents₁⟩, halign, h⟩ := bind_eq_ok_iff.1 h
    obtain ⟨ts, hts, h⟩ := bind_eq_ok_iff.1 h
    cases h
    obtain ⟨us, depth, pending, indents', hreaches, hkinds⟩ :=
      ih (layout, indents₁) hts (fun _ => rfl) (align_positive halign hindents)
    refine ⟨_, _, _, _, hreaches.lineStart_code htail hnil hbreak hcomment halign, ?_⟩
    rw [List.map_append, hkinds, ← List.append_assoc]
  | case5 indents r depth pending hnil =>
    cases h
    exact ⟨_, _, _, _, reaches_end hindents hplace hnil, map_finish ..⟩
  | case6 indents r pending cs hrest ih =>
    obtain ⟨ts, hts, h⟩ := bind_eq_ok_iff.1 h
    cases h
    obtain ⟨us, depth, pending', indents', hreaches, hkinds⟩ := ih hts trivial hindents
    refine ⟨_, _, _, _, hreaches.inLine_break hrest, ?_⟩
    rw [List.map_append, hkinds, map_lineEnd, ← List.append_assoc]
  | case7 indents r depth pending cs hrest hdepth ih =>
    obtain ⟨us, depth', pending', indents', hreaches, hkinds⟩ := ih h hplace hindents
    exact ⟨us, depth', pending', indents', hreaches.inLine_within hrest hdepth, hkinds⟩
  | case8 indents r depth pending cs hrest ih =>
    obtain ⟨us, depth', pending', indents', hreaches, hkinds⟩ := ih h hplace hindents
    exact ⟨us, depth', pending', indents', hreaches.inLine_comment htail hrest, hkinds⟩
  | case9 indents r depth pending cs hrest ih =>
    obtain ⟨us, depth', pending', indents', hreaches, hkinds⟩ := ih h hplace hindents
    exact ⟨us, depth', pending', indents', hreaches.inLine_joined hrest, hkinds⟩
  | case10 indents r depth pending c cs hbreak hcomment hjoined hrest hspacing ih =>
    obtain ⟨us, depth', pending', indents', hreaches, hkinds⟩ := ih h hplace hindents
    exact ⟨us, depth', pending', indents', hreaches.inLine_spacing hrest hspacing, hkinds⟩
  | case11 => cases h
  | case12 indents r depth pending c cs hbreak hcomment hjoined hrest hspacing kind after htoken
      ih =>
    obtain ⟨ts, hts, h⟩ := bind_eq_ok_iff.1 h
    cases h
    have hsettled : Place.Settled (.inLine (depthAfter kind depth) true) := by simp [Place.Settled]
    obtain ⟨us, depth', pending', indents', hreaches, hkinds⟩ := ih hts hsettled hindents
    refine ⟨_, _, _, _, hreaches.inLine_token htail hplace hrest hbreak hcomment hjoined hspacing
      htoken, ?_⟩
    rw [List.map_cons, hkinds]
    rfl

/-- Scanning does not depend on positions. -/
theorem scan_of_rest_eq {ts : List Token} (h : scan place indents r = .ok ts)
    (hplace : place.Settled) (hindents : ∀ w ∈ indents, 0 < w) {r' : Reader}
    (hr : r.GoesOn [] r') :
    ∃ ts', scan place indents r' = .ok ts' ∧ ts'.map Token.kind = ts.map Token.kind := by
  obtain ⟨us, depth, pending, indents', hreaches, hkinds⟩ := exists_reaches .nil h hplace hindents
  obtain ⟨p, vs, hvs, hend⟩ := hreaches.scan r' hr
  refine ⟨_, hend _ (scan_inLine_nil rfl), ?_⟩
  rw [List.map_append, hvs, map_finish, hkinds]

/-- At the end of a source, its last line is ended and its blocks are closed, unless brackets are
open there. -/
theorem Reaches.ended (h : Reaches tail place indents r us depth pending indents')
    {next : Option (List TokenKind)} {ys : List TokenKind}
    (hys : depth = 0 →
      ContinuedBy next none indents'.length (List.replicate indents'.length .dedent) ys) :
    ContinuedBy next place.line indents.length
      (us ++ (lineEndKinds pending ++ List.replicate indents'.length .dedent))
      (us ++ (lineEndKinds pending ++ ys)) := by
  refine h.layout next _ _ ?_
  by_cases hdepth : depth = 0
  · have hend := hys hdepth
    subst hdepth
    cases pending with
    | false => exact hend
    | true => exact .newline hend
  · cases pending with
    | false => exact absurd (h.settled rfl) hdepth
    | true =>
      obtain ⟨d, rfl⟩ := Nat.exists_eq_succ_of_ne_zero hdepth
      exact .unclosed

theorem align_zero (hindents : ∀ w ∈ indents, 0 < w) (p : Position) :
    align 0 indents p = .ok (List.replicate indents.length ⟨.dedent, p⟩, []) := by
  have hnone : indents.dropWhile (0 < ·) = [] :=
    List.dropWhile_eq_nil_iff.2 fun w hw => decide_eq_true (hindents w hw)
  unfold align
  rw [if_neg (Nat.not_lt_zero _)]
  simp only [hnone]
  exact if_pos rfl

/-- A line that is indented opens a block. -/
theorem align_of_pos {w : Nat} (hw : 0 < w) (p : Position) :
    align w [] p = .ok ([⟨.indent, p⟩], [w]) := if_pos hw

/-- What follows when a source is scanned behind others whose blocks are still open: they are closed
behind the comments with which the source begins, unless it goes on with an indented line. -/
theorem scan_lineStart_blocks {ts : List Token} (h : scan place indents r = .ok ts)
    (hplace : place = .lineStart) (hindents : indents = []) :
    ∃ (texts : List String) (rest : List TokenKind),
      ts.map Token.kind = texts.map TokenKind.comment ++ rest ++ [.eof] ∧
      (rest.head? = some .indent ∨ ∀ indents' r', (∀ w ∈ indents', 0 < w) → r.GoesOn [] r' →
        ∃ ts', scan .lineStart indents' r' = .ok ts' ∧ ts'.map Token.kind =
          texts.map TokenKind.comment ++ List.replicate indents'.length .dedent ++ rest ++
            [.eof]) := by
  have hlayout {ts : List Token} {place : Place} {indents : List Nat} {r : Reader}
      (hts : scan place indents r = .ok ts) (hplace : place.Settled)
      (hindents : ∀ w ∈ indents, 0 < w) : ∃ rest, ts.map Token.kind = rest ++ [.eof] := by
    obtain ⟨us, _, _, _, -, hkinds⟩ := exists_reaches .nil hts hplace hindents
    exact ⟨_, hkinds.trans (List.append_assoc ..).symm⟩
  fun_induction scan place indents r generalizing ts with
  | case1 indents r hnil =>
    cases h
    subst hindents
    refine ⟨[], [], rfl, .inr fun indents' r' _ hr => ?_⟩
    refine ⟨_, scan_lineStart_nil ((goesOn_lineBody .nil hr).rest_eq hnil), ?_⟩
    rw [map_finish, List.append_nil]
    rfl
  | case2 indents r cs hrest ih =>
    obtain ⟨texts, rest, hkinds, hblocks⟩ := ih h hplace hindents
    refine ⟨texts, rest, hkinds, hblocks.imp_right fun hscan indents' r' hindents' hr => ?_⟩
    have hbody := goesOn_lineBody .nil hr
    obtain ⟨ts', hts', hkinds'⟩ := hscan indents' _ hindents' (hbody.skip (by simp [hrest]))
    exact ⟨ts', (scan_lineStart_break (hbody.rest_eq hrest)).trans hts', hkinds'⟩
  | case3 indents r cs hrest ih =>
    obtain ⟨ts, hts, h⟩ := bind_eq_ok_iff.1 h
    cases h
    obtain ⟨texts, rest, hkinds, hblocks⟩ := ih hts hplace hindents
    refine ⟨((lineBody r).skip 1).line.1 :: texts, rest, ?_,
      hblocks.imp_right fun hscan indents' r' hindents' hr => ?_⟩
    · rw [List.map_cons, hkinds]
      rfl
    · obtain ⟨htext, hgoes⟩ := goesOn_comment .nil hrest hr
      obtain ⟨ts', hts', hkinds'⟩ := hscan indents' _ hindents' (hgoes.skip_nil 1)
      refine ⟨_, scan_lineStart_of_comment ((goesOn_lineBody .nil hr).rest_eq hrest) hts', ?_⟩
      rw [List.map_cons, hkinds', htext]
      rfl
  | case4 indents r hnil hbreak hcomment ih =>
    obtain ⟨⟨layout, indents₁⟩, halign, h⟩ := bind_eq_ok_iff.1 h
    obtain ⟨ts, hts, h⟩ := bind_eq_ok_iff.1 h
    cases h
    subst hindents
    have hpositive : ∀ w ∈ indents₁, 0 < w := align_positive halign (List.forall_mem_nil _)
    obtain ⟨rest, hkinds⟩ := hlayout hts (fun _ => rfl) hpositive
    rcases Nat.eq_zero_or_pos (width (r.rest.takeWhile isSpacing)) with hwidth | hwidth
    · rw [hwidth] at halign
      cases halign.symm.trans (align_zero (List.forall_mem_nil _) _)
      refine ⟨[], rest, hkinds, .inr fun indents' r' hindents' hr => ?_⟩
      obtain ⟨ts', hts', hkinds'⟩ :=
        scan_of_rest_eq hts (fun _ => rfl) hpositive (goesOn_lineBody .nil hr)
      have halign' := hwidth.symm ▸ align_zero hindents' (lineBody r').position
      refine ⟨_, scan_lineStart_of_code .nil hr hnil hbreak hcomment halign' hts', ?_⟩
      rw [List.map_append, hkinds', hkinds, List.map_replicate]
      simp
    · cases halign.symm.trans (align_of_pos hwidth _)
      exact ⟨[], .indent :: rest, congrArg (TokenKind.indent :: ·) hkinds, .inl rfl⟩
  | case5 => cases hplace
  | case6 => cases hplace
  | case7 => cases hplace
  | case8 => cases hplace
  | case9 => cases hplace
  | case10 => cases hplace
  | case11 => cases hplace
  | case12 => cases hplace

end Scan

/-- The tokens of a source behind another one. Brackets may be open at the end of the first source,
and the second one may begin with an indented line. -/
theorem tokens_append {first second : String} {ts us : List Token}
    (hts : tokens first = .ok ts) (hus : tokens second = .ok us) :
    ∃ (xs : List TokenKind) (texts : List String) (rest : List TokenKind),
      ts.map Token.kind = xs ++ [.eof] ∧
      us.map Token.kind = texts.map TokenKind.comment ++ rest ++ [.eof] ∧
      ContinuedBy (some []) none 0 (texts.map TokenKind.comment ++ rest)
        (texts.map TokenKind.comment ++ rest) ∧
      (ContinuedBy none none 0 xs xs ∨ rest.head? = some .indent ∨
        ∃ vs ys, tokens (first ++ "\n" ++ second) = .ok vs ∧ vs.map Token.kind = ys ++ [.eof] ∧
          ContinuedBy (some rest) none 0 xs ys) := by
  obtain ⟨texts, rest, hkinds, hblocks⟩ := scan_lineStart_blocks hus rfl rfl
  obtain ⟨zs, depth', pending', indents', hend, hzs⟩ :=
    exists_reaches .nil hus trivial (List.forall_mem_nil _)
  obtain ⟨xs, depth, pending, indents, hreaches, hxs⟩ :=
    exists_reaches (.cons second.toList) hts trivial (List.forall_mem_nil _)
  have hself : ContinuedBy (some []) none 0 (texts.map TokenKind.comment ++ rest)
      (texts.map TokenKind.comment ++ rest) := by
    have hclosed : ContinuedBy (some []) none 0 _ _ :=
      hend.ended fun _ => .finish [] rfl rfl rfl
    rw [List.map_nil, List.nil_append, List.append_nil] at hclosed
    rw [← List.append_assoc] at hzs
    rwa [List.append_cancel_right (hkinds.symm.trans hzs)]
  refine ⟨_, texts, rest, hxs.trans (List.append_assoc ..).symm, hkinds, hself, ?_⟩
  by_cases hdepth : depth = 0
  · refine .inr (hblocks.imp_right fun hscan => ?_)
    subst hdepth
    have hsource : (first ++ "\n" ++ second).toList = first.toList ++ '\n' :: second.toList := by
      simp
    obtain ⟨p, vs, hvs, hscan'⟩ := hreaches.scan (Reader.ofString (first ++ "\n" ++ second)) hsource
    obtain ⟨us', hus', hkinds'⟩ := hscan indents (Reader.skip ⟨'\n' :: second.toList, p⟩ 1)
      hreaches.positive (List.append_nil _).symm
    have hbreak : scan (.inLine 0 pending) indents ⟨'\n' :: second.toList, p⟩ =
        .ok (lineEnd pending p ++ us') := by
      rw [scan_inLine_break rfl, hus']
      rfl
    refine ⟨_, _, hscan' _ hbreak, ?_, hreaches.ended fun _ => .finish texts rfl rfl rfl⟩
    rw [List.map_append, List.map_append, hvs, map_lineEnd, hkinds']
    simp
  · exact .inl (hreaches.ended fun h => absurd h hdepth)

end Indented

end Labyrinth
