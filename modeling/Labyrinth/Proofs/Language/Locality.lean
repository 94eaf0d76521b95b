import Labyrinth.Language.Indented.Tokens
import Labyrinth.Proofs.Language.Leading

/-!
# Parsers that look no further than they read

A parser is **local** if its result depends on nothing but the tokens that it has read and on the
next one: on any other stream that begins with those tokens, and goes on with a token of the same
kind, it does the same. Where the next token is the **pivot**, a keyword that can begin an operator
of two words, the one behind it counts, too.

The tokens that a local parser has read stand on one line. It is also told how many brackets they
close that have been opened before.

## Main results

* `LocalAt.bind`, `Local.bind`: local parsers in sequence.
* `local_collect`, `local_fold`, `local_chain`: loops and chains of operators.
* `LocalAt.position`: positions matter to errors only.
-/

namespace Labyrinth

/-- A stream with tokens of these kinds before its end. -/
abbrev TokenStream.Reads (s : TokenStream) (ks : List TokenKind) : Prop := s.Shows ⟨ks, []⟩

theorem TokenStream.Shows.headD_eq {s : TokenStream} {xs : List TokenKind} (h : s.Reads xs) :
    xs.headD .eof = s.current.kind := h.current_kind.symm

/-- Fewer tokens are left exactly if some have been read. -/
theorem TokenStream.Shows.left_lt_iff {s s' : TokenStream} {us xs : List TokenKind}
    (h' : s'.Reads xs) (h : s.Reads (us ++ xs)) : s'.left < s.left ↔ us ≠ [] := by
  have hleft : s.left = (us ++ xs).length := h.left_eq
  have hleft' : s'.left = xs.length := h'.left_eq
  rw [hleft, hleft', List.length_append, ← List.length_pos_iff]
  omega

theorem TokenStream.defined_advance (s : TokenStream) : s.advance.defined = s.defined := by
  unfold advance
  split <;> rfl

theorem TokenStream.current_advance (s : TokenStream) : s.advance.current = s.second := by
  unfold advance
  split
  · rename_i hrest
    simp only [second, hrest, List.headD_nil]
  · rename_i hrest
    simp only [second, hrest, List.headD_cons]

theorem TokenStream.left_advance_le (s : TokenStream) : s.advance.left ≤ s.left := by
  unfold advance
  split
  · exact Nat.le_refl _
  · exact Nat.sub_le _ _

/-- Whether a token belongs to the layout of a source. -/
def TokenKind.isLayout : TokenKind → Bool
  | comment _ => true
  | newline => true
  | indent => true
  | dedent => true
  | eof => true
  | _ => false

/-- How many brackets are open behind several tokens. -/
def depthThrough (ks : List TokenKind) (depth : Nat) : Nat :=
  ks.foldl (fun depth k => Indented.depthAfter k depth) depth

@[simp]
theorem depthThrough_nil (depth : Nat) : depthThrough [] depth = depth := rfl

@[simp]
theorem depthThrough_cons (k : TokenKind) (ks : List TokenKind) (depth : Nat) :
    depthThrough (k :: ks) depth = depthThrough ks (Indented.depthAfter k depth) := rfl

@[simp]
theorem depthThrough_append (xs ys : List TokenKind) (depth : Nat) :
    depthThrough (xs ++ ys) depth = depthThrough ys (depthThrough xs depth) := List.foldl_append

/-- Tokens of one line that close `n` brackets which have been opened before. -/
structure Closes (n : Nat) (ks : List TokenKind) : Prop where
  inLine : ∀ k ∈ ks, k.isLayout = false
  depth : ∀ depth, depthThrough ks (depth + n) = depth

namespace Closes

theorem nil : Closes 0 [] := ⟨fun _ h => absurd h List.not_mem_nil, fun _ => rfl⟩

theorem append {m n : Nat} {xs ys : List TokenKind} (h : Closes m xs) (h' : Closes n ys) :
    Closes (n + m) (xs ++ ys) :=
  ⟨List.forall_mem_append.2 ⟨h.inLine, h'.inLine⟩, fun depth => by
    rw [depthThrough_append, ← Nat.add_assoc, h.depth, h'.depth]⟩

theorem cons {k : TokenKind} {m n : Nat} {ks : List TokenKind} (hk : k.isLayout = false)
    (hdepth : ∀ depth, Indented.depthAfter k (depth + n) = depth + m) (h : Closes m ks) :
    Closes n (k :: ks) :=
  ⟨List.forall_mem_cons.2 ⟨hk, h.inLine⟩, fun depth => by rw [depthThrough_cons, hdepth, h.depth]⟩

end Closes

/-- Two sources go on in the same way, so far as parsers look ahead. -/
structure Alike (pivot : Option TokenKind) (xs ys : List TokenKind) : Prop where
  head : xs.headD .eof = ys.headD .eof
  second : pivot = some (xs.headD .eof) → xs.tail.headD .eof = ys.tail.headD .eof

namespace Alike

variable {pivot : Option TokenKind} {xs ys : List TokenKind}

theorem cons (h : Alike pivot xs ys) (k : TokenKind) : Alike pivot (k :: xs) (k :: ys) :=
  ⟨rfl, fun _ => h.head⟩

theorem append (h : Alike pivot xs ys) (us : List TokenKind) :
    Alike pivot (us ++ xs) (us ++ ys) := by
  induction us with
  | nil => exact h
  | cons k us ih => exact ih.cons k

end Alike

namespace Parser

variable {α β : Type} {pivot : Option TokenKind} {k : TokenKind} {m n : Nat} {p : Parser α}
  {f : α → Parser β}

/-- A parser succeeds as another one does if this holds after a common beginning. -/
theorem bind_ok_of_ok {f g : α → Parser β} {s : TokenStream} {r : β × TokenStream}
    (h : ∀ a s', f a s' = .ok r → g a s' = .ok r) (heq : (p >>= f) s = .ok r) :
    (p >>= g) s = .ok r := by
  obtain ⟨a, s', ha, hr⟩ := stateBind_eq_ok_iff.1 heq
  exact (stateBind_of_ok ha).trans (h a s' hr)

theorem lift_ok_of_ok {x y : Except SyntaxError α} {s : TokenStream} {r : β × TokenStream}
    (h : ∀ a, x = .ok a → y = .ok a) (heq : ((liftM x : Parser α) >>= f) s = .ok r) :
    ((liftM y : Parser α) >>= f) s = .ok r := by
  cases x with
  | error e => cases heq
  | ok a =>
    rw [h a rfl]
    exact heq

theorem peek_of_eq {f : TokenKind → Parser β} {s : TokenStream} (h : s.current.kind = k) :
    (peek >>= f) s = f k s := h ▸ rfl

theorem eat_of_eq {f : Bool → Parser β} {s : TokenStream} (h : s.current.kind = k) :
    (eat k >>= f) s = f true s.advance := by
  suffices heat : eat k s = .ok (true, s.advance) from stateBind_of_ok heat
  unfold eat
  rw [stateBind_of_ok (show check k s = .ok (true, s) by rw [check, beq_iff_eq.2 h])]
  rfl

theorem eat_of_ne {f : Bool → Parser β} {s : TokenStream} (h : s.current.kind ≠ k) :
    (eat k >>= f) s = f false s := by
  suffices heat : eat k s = .ok (false, s) from stateBind_of_ok heat
  unfold eat
  rw [stateBind_of_ok (show check k s = .ok (false, s) by rw [check, beq_false_of_ne h])]
  rfl

/-! ### Locality -/

/-- What a local parser has read, and what it does on every other stream that begins with that. -/
structure Reading (pivot : Option TokenKind) (n : Nat) (p : Parser α) (s : TokenStream)
    (us xs : List TokenKind) (a : α) (s' : TokenStream) : Prop where
  closes : Closes n us
  reads : s'.Reads xs
  defined : s'.defined = s.defined
  same : ∀ t ys, t.Reads (us ++ ys) → Alike pivot xs ys →
    ∃ t', p t = .ok (a, t') ∧ t'.Reads ys ∧ t'.defined = t.defined

/-- The parser is local where a token of a certain kind comes next. -/
def LocalAt (pivot : Option TokenKind) (k : TokenKind) (n : Nat) (p : Parser α) : Prop :=
  ∀ s xs a s', s.Reads xs → xs.headD .eof = k → p s = .ok (a, s') →
    ∃ us xs', xs = us ++ xs' ∧ Reading pivot n p s us xs' a s'

/-- The parser is local, and closes `n` brackets. -/
def Local (pivot : Option TokenKind) (n : Nat) (p : Parser α) : Prop := ∀ k, LocalAt pivot k n p

namespace LocalAt

/-- A parser that never succeeds. -/
theorem of_error (h : ∀ s a s', p s ≠ .ok (a, s')) : LocalAt pivot k n p :=
  fun s _ a s' _ _ heq => absurd heq (h s a s')

/-- Nothing is read, but the kind of the next token may count. -/
theorem of_peek {a : α} (h : ∀ s, s.current.kind = k → p s = .ok (a, s)) :
    LocalAt pivot k 0 p := by
  intro s xs b s' hs hk heq
  have hcurrent : s.current.kind = k := hs.current_kind.trans hk
  cases (h s hcurrent).symm.trans heq
  refine ⟨[], xs, rfl, .nil, hs, rfl, fun t ys ht halike => ?_⟩
  exact ⟨t, h t (ht.current_kind.trans (halike.head.symm.trans hk)), ht, rfl⟩

theorem bind (hp : LocalAt pivot k m p) (hf : ∀ a, Local pivot n (f a)) :
    LocalAt pivot k (n + m) (p >>= f) := by
  intro s xs b s'' hs hk heq
  obtain ⟨a, s', ha, hb⟩ := stateBind_eq_ok_iff.1 heq
  obtain ⟨us, xs', rfl, hread⟩ := hp s xs a s' hs hk ha
  obtain ⟨vs, xs'', rfl, hread'⟩ := hf a _ s' xs' b s'' hread.reads rfl hb
  refine ⟨us ++ vs, xs'', (List.append_assoc ..).symm, hread.closes.append hread'.closes,
    hread'.reads, hread'.defined.trans hread.defined, fun t ys ht halike => ?_⟩
  rw [List.append_assoc] at ht
  obtain ⟨t', hat, ht', hdefined⟩ := hread.same t (vs ++ ys) ht (halike.append vs)
  obtain ⟨t'', hbt, ht'', hdefined'⟩ := hread'.same t' ys ht' halike
  exact ⟨t'', (stateBind_of_ok hat).trans hbt, ht'', hdefined'.trans hdefined⟩

/-- A parser that does the same as a local one where this token comes next. -/
theorem congr {q : Parser α} (hp : LocalAt pivot k n p)
    (h : ∀ s, s.current.kind = k → q s = p s) : LocalAt pivot k n q := by
  intro s xs a s' hs hk heq
  rw [h s (hs.current_kind.trans hk)] at heq
  obtain ⟨us, xs', rfl, hread⟩ := hp s xs a s' hs hk heq
  refine ⟨us, xs', rfl, hread.closes, hread.reads, hread.defined, fun t ys ht halike => ?_⟩
  have hnext : (us ++ ys).headD .eof = k := by
    rw [← hk]
    cases us with
    | nil => exact halike.head.symm
    | cons => rfl
  rw [h t (ht.current_kind.trans hnext)]
  exact hread.same t ys ht halike

/-- The kind of the next token is known already. -/
theorem peek {f : TokenKind → Parser β} (h : LocalAt pivot k n (f k)) :
    LocalAt pivot k n (peek >>= f) := h.congr fun _ => peek_of_eq

/-- The next token is passed over. -/
theorem advance {f : Unit → Parser β} (hk : k.isLayout = false)
    (hdepth : ∀ depth, Indented.depthAfter k (depth + n) = depth + m)
    (h : Local pivot m (f ())) : LocalAt pivot k n (advance >>= f) := by
  intro s xs b s' hs hkind heq
  cases xs with
  | nil =>
    obtain rfl : k = .eof := hkind.symm
    cases hk
  | cons k' xs =>
    obtain rfl : k' = k := hkind
    obtain ⟨us, xs', rfl, hread⟩ := h _ s.advance xs b s' hs.advance rfl heq
    refine ⟨k' :: us, xs', rfl, hread.closes.cons hk hdepth, hread.reads,
      hread.defined.trans s.defined_advance, fun t ys ht halike => ?_⟩
    obtain ⟨t', hbt, ht', hdefined⟩ := hread.same t.advance ys ht.advance halike
    exact ⟨t', hbt, ht', hdefined.trans t.defined_advance⟩

/-- A certain token is passed over if it comes next. -/
theorem eat {kind : TokenKind} {f : Bool → Parser β}
    (htrue : k = kind → LocalAt pivot k n (Parser.advance >>= fun _ => f true))
    (hfalse : k ≠ kind → LocalAt pivot k n (f false)) :
    LocalAt pivot k n (eat kind >>= f) := by
  by_cases hk : k = kind
  · exact (htrue hk).congr fun s hs => eat_of_eq (hs.trans hk)
  · exact (hfalse hk).congr fun s hs => eat_of_ne (hs.symm ▸ hk)

/-- One level down, the same token comes next. -/
theorem descend {room : Nat} {f : Unit → Parser β} (h : LocalAt pivot k n (f ())) :
    LocalAt pivot k n (descend room >>= f) := by
  cases room with
  | zero => exact .of_error fun _ _ _ h => nomatch h
  | succ room => exact h

/-- Positions matter to errors only. -/
theorem position {f : Position → Parser α} (h : ∀ q, LocalAt pivot k n (f q))
    (hsame : ∀ q q' s r, f q s = .ok r → f q' s = .ok r) :
    LocalAt pivot k n (position >>= f) := by
  intro s xs a s' hs hk heq
  obtain ⟨us, xs', rfl, hread⟩ := h _ s xs a s' hs hk heq
  refine ⟨us, xs', rfl, hread.closes, hread.reads, hread.defined, fun t ys ht halike => ?_⟩
  obtain ⟨t', hat, ht'⟩ := hread.same t ys ht halike
  exact ⟨t', hsame _ t.current.position t _ hat, ht'⟩

end LocalAt

namespace Local

theorem pure (a : α) : Local pivot 0 (Pure.pure a : Parser α) := fun _ => .of_peek fun _ _ => rfl

theorem bind (hp : Local pivot m p) (hf : ∀ a, Local pivot n (f a)) :
    Local pivot (n + m) (p >>= f) := fun k => (hp k).bind hf

/-- A parser whose result is put into a larger one. -/
theorem map (hp : Local pivot n p) (g : α → β) :
    Local pivot n (p >>= fun a => Pure.pure (g a)) := by
  have hbind := hp.bind fun a => Local.pure (g a)
  rwa [Nat.zero_add] at hbind

theorem ite {c : Prop} [Decidable c] {q : Parser α} (hp : Local pivot n p)
    (hq : Local pivot n q) : Local pivot n (if c then p else q) := by
  split
  · exact hp
  · exact hq

theorem lift (x : Except SyntaxError α) : Local pivot 0 (liftM x : Parser α) := by
  cases x with
  | error e => exact fun _ => .of_error fun _ _ _ h => nomatch h
  | ok a => exact .pure a

/-- The kind of the next token decides how a parser goes on. -/
theorem peek {f : TokenKind → Parser β} (h : ∀ k, LocalAt pivot k n (f k)) :
    Local pivot n (peek >>= f) := fun k => (h k).peek

/-- A certain token is passed over if it comes next. -/
theorem eat {kind : TokenKind} {f : Bool → Parser β} (hkind : kind.isLayout = false)
    (hdepth : ∀ depth, Indented.depthAfter kind (depth + n) = depth + m)
    (htrue : Local pivot m (f true)) (hfalse : Local pivot n (f false)) :
    Local pivot n (eat kind >>= f) :=
  fun _ => .eat (fun hk => .advance (hk ▸ hkind) (hk ▸ hdepth) htrue) fun _ => hfalse _

/-- An operator or a bracket that has to come next. -/
theorem expectOp {op : String} {f : Unit → Parser β}
    (hdepth : ∀ depth, Indented.depthAfter (.op op) (depth + n) = depth + m)
    (h : Local pivot m (f ())) : Local pivot n (expectOp op >>= f) := by
  unfold Parser.expectOp
  rw [bind_assoc]
  exact .eat rfl hdepth h fun _ => .of_error fun _ _ _ h => nomatch h

end Local

/-! ### Single tokens -/

theorem local_fail (cause : SyntaxCause) : Local pivot n (fail cause : Parser α) :=
  fun _ => .of_error fun _ _ _ h => nomatch h

theorem local_failAt (q : Position) (cause : SyntaxCause) :
    Local pivot n (failAt q cause : Parser α) := fun _ => .of_error fun _ _ _ h => nomatch h

theorem local_failFound (cause : TokenKind → SyntaxCause) :
    Local pivot n (failFound cause : Parser α) := fun _ => .of_error fun _ _ _ h => nomatch h

theorem local_check (kind : TokenKind) : Local pivot 0 (check kind) := fun _ =>
  .of_peek fun s hs => by
    rw [check, hs]

theorem local_descend (room : Nat) : Local pivot 0 (descend room) :=
  .ite (local_fail _) (.pure ())

theorem local_expectOp {op : String}
    (hdepth : ∀ depth, Indented.depthAfter (.op op) (depth + n) = depth) :
    Local pivot n (expectOp op) :=
  .eat (m := 0) rfl hdepth (.pure ()) (local_failFound _)

theorem local_expectWord (word : String) : Local pivot 0 (expectWord word) :=
  .eat (m := 0) rfl (fun _ => rfl) (.pure ()) (local_failFound _)

theorem local_identifier (keywords : List String) : Local pivot 0 (identifier keywords) := by
  refine .peek fun k => ?_
  split
  · split
    · exact local_failFound _ _
    · exact .advance (m := 0) rfl (fun _ => rfl) (.pure _)
  · exact local_failFound _ _

/-- Brackets are no operators. -/
theorem local_oneOf {operators : List (String × β)}
    (h : ∀ op ∈ operators.map Prod.fst, ∀ depth, Indented.depthAfter (.op op) depth = depth) :
    Local pivot 0 (oneOf operators) := by
  refine .peek fun k => ?_
  split
  · rename_i spelling
    split
    · rename_i b hb
      obtain ⟨before, after, hops, -⟩ := List.lookup_eq_some_iff.1 hb
      have hmem : spelling ∈ operators.map Prod.fst := by simp [hops]
      exact .advance (m := 0) rfl (h spelling hmem) (.pure _)
    · exact Local.pure _ _
  · exact Local.pure _ _

theorem local_wordOperator (word : String) (b : β) : Local pivot 0 (wordOperator word b) :=
  .eat (m := 0) rfl (fun _ => rfl) (.pure _) (.pure _)

/-! ### Loops -/

theorem local_fold {step : β → Parser (Next β)} (h : ∀ b, Local pivot 0 (step b)) (b : β) :
    Local pivot 0 (fold step b) := by
  intro k s xs b' s' hs hk heq
  clear hk
  unfold fold at heq
  fun_induction foldFrom step b s generalizing xs with
  | case1 => cases heq
  | case2 b s s₁ hstep =>
    cases heq
    obtain ⟨us, xs', rfl, hread⟩ := h _ _ s xs _ _ hs rfl hstep
    refine ⟨us, xs', rfl, hread.closes, hread.reads, hread.defined, fun t ys ht halike => ?_⟩
    obtain ⟨t', hstep', ht'⟩ := hread.same t ys ht halike
    exact ⟨t', by rw [fold, foldFrom, hstep'], ht'⟩
  | case3 b s c s₁ hstep =>
    cases heq
    obtain ⟨us, xs', rfl, hread⟩ := h _ _ s xs _ _ hs rfl hstep
    refine ⟨us, xs', rfl, hread.closes, hread.reads, hread.defined, fun t ys ht halike => ?_⟩
    obtain ⟨t', hstep', ht'⟩ := hread.same t ys ht halike
    exact ⟨t', by rw [fold, foldFrom, hstep'], ht'⟩
  | case4 b s c s₁ hstep hlt ih =>
    obtain ⟨us, xs', rfl, hread⟩ := h _ _ s xs _ _ hs rfl hstep
    obtain ⟨vs, xs'', rfl, hread'⟩ := ih xs' hread.reads heq
    refine ⟨us ++ vs, xs'', (List.append_assoc ..).symm, hread.closes.append hread'.closes,
      hread'.reads, hread'.defined.trans hread.defined, fun t ys ht halike => ?_⟩
    rw [List.append_assoc] at ht
    obtain ⟨t', hstep', ht', hdefined⟩ := hread.same t (vs ++ ys) ht (halike.append vs)
    obtain ⟨t'', hrest, ht'', hdefined'⟩ := hread'.same t' ys ht' halike
    have hlt' := (ht'.left_lt_iff ht).2 ((hread.reads.left_lt_iff hs).1 hlt)
    refine ⟨t'', ?_, ht'', hdefined'.trans hdefined⟩
    rw [fold, foldFrom, hstep']
    exact (if_pos hlt').trans hrest
  | case5 b s c s₁ hstep hge =>
    cases heq
    obtain ⟨us, xs', rfl, hread⟩ := h _ _ s xs _ _ hs rfl hstep
    refine ⟨us, xs', rfl, hread.closes, hread.reads, hread.defined, fun t ys ht halike => ?_⟩
    obtain ⟨t', hstep', ht', hdefined⟩ := hread.same t ys ht halike
    have hge' := mt (ht'.left_lt_iff ht).1 (mt (hread.reads.left_lt_iff hs).2 hge)
    refine ⟨t', ?_, ht', hdefined⟩
    rw [fold, foldFrom, hstep']
    exact if_neg hge'

/-- A round that collects its result behind the former ones. -/
def collecting (item : Parser (Next α)) (as : List α) : Parser (Next (List α)) := do
  match ← item with
  | .stop => return .stop
  | .last a => return .last (as ++ [a])
  | .more a => return .more (as ++ [a])

/-- Collecting results is a fold that puts them into a list. -/
theorem fold_collecting (item : Parser (Next α)) (as : List α) (s : TokenStream) :
    fold (collecting item) as s = (do let (bs, s') ← collect item s; return (as ++ bs, s')) := by
  unfold collect fold
  fun_induction collectFrom item s generalizing as with
  | case1 s e hitem =>
    rw [foldFrom, collecting, stateBind_of_error hitem]
    rfl
  | case2 s s₁ hitem =>
    rw [foldFrom, collecting, stateBind_of_ok hitem]
    exact congrArg (fun bs => Except.ok (bs, s₁)) (List.append_nil as).symm
  | case3 s a s₁ hitem =>
    rw [foldFrom, collecting, stateBind_of_ok hitem]
    rfl
  | case4 s a s₁ hitem hlt ih =>
    rw [foldFrom, collecting, stateBind_of_ok hitem]
    refine (if_pos hlt).trans ((ih (as ++ [a])).trans ?_)
    cases collectFrom item s₁ with
    | error e => rfl
    | ok r => exact congrArg (fun bs => Except.ok (bs, r.2)) (List.append_assoc as [a] r.1)
  | case5 s a s₁ hitem hge =>
    rw [foldFrom, collecting, stateBind_of_ok hitem]
    exact if_neg hge

theorem local_collect {item : Parser (Next α)} (h : Local pivot 0 item) :
    Local pivot 0 (collect item) := by
  have hfold : Local pivot 0 (fold (collecting item) []) := by
    refine local_fold (fun as => h.bind (n := 0) fun r => ?_) []
    cases r with
    | stop => exact .pure _
    | last a => exact .pure _
    | more a => exact .pure _
  refine fun k => (hfold k).congr fun s _ => ?_
  rw [fold_collecting]
  cases collect item s with
  | error e => rfl
  | ok r => rfl

/-- Items between commas, up to a bracket that closes them. -/
theorem local_separated {close : String} {item : Parser α}
    (hclose : ∀ depth, Indented.depthAfter (.op close) (depth + 1) = depth)
    (h : Local pivot 0 item) : Local pivot 1 (separated close item) := by
  have hround : Local pivot 0 (do
      if ← check (.op close) then
        return Next.stop
      else
        let a ← item
        return if ← eat (.op ",") then Next.more a else Next.last a) := by
    refine .bind (n := 0) (local_check _) fun b => .ite (.pure _) ?_
    exact .bind (n := 0) h fun a => .eat (m := 0) rfl (fun _ => rfl) (.pure _) (.pure _)
  exact .bind (local_collect hround) fun as => (local_expectOp hclose).map fun _ => as

/-! ### Chains -/

section Chains

variable {operator : Parser (Option β)} {operand : Nat → Parser α} {combine : β → α → α → α}
  (hoperator : Local pivot 0 operator) (hoperand : ∀ room, Local pivot 0 (operand room))
include hoperator hoperand

theorem local_chainRest (room : Nat) (lhs : α) :
    Local pivot 0 (chainRest operator operand combine room lhs) := by
  induction room generalizing lhs with
  | zero =>
    unfold chainRest
    refine .bind (n := 0) hoperator fun op => ?_
    cases op with
    | none => exact .pure _
    | some op => exact local_fail _
  | succ room ih =>
    unfold chainRest
    refine .bind (n := 0) hoperator fun op => ?_
    cases op with
    | none => exact .pure _
    | some op => exact .bind (n := 0) (hoperand room) fun rhs => ih _

theorem local_chain (room : Nat) : Local pivot 0 (chain operator operand combine room) :=
  .bind (n := 0) (hoperand room) fun lhs => local_chainRest hoperator hoperand room lhs

end Chains

/-! ### Function headers -/

theorem local_parameters (keywords : List String) : Local pivot 0 (parameters keywords) := by
  refine .expectOp (m := 1) (fun _ => rfl) ?_
  refine .bind (n := 1) (local_fold (fun params => ?_) []) fun params =>
    (local_expectOp fun _ => rfl).map fun _ => params
  refine .bind (n := 0) (local_check _) fun b => .ite (.pure _) ?_
  refine .bind (n := 0) (local_identifier _) fun param => .ite (local_fail _) ?_
  exact .eat (m := 0) rfl (fun _ => rfl) (.pure _) (.pure _)

end Parser

end Labyrinth
