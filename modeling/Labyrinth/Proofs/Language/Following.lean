import Labyrinth.Proofs.Language.Locality

/-!
# Parsers that follow each other

Two streams are **in step** if the tokens that are left on them are related in a certain way, and
the second one knows some more functions. A parser **follows** another one if it succeeds wherever
that does, and leaves streams behind that are in step again, where the relation between the tokens
may depend on the two results. It need not do so if the other parser defines one of the functions
that only the second stream knows.

## Main results

* `Follows.bind`, `Follows.of_local`: parsers in sequence, and parsers that look no further than
  they read.
* `Follows.peek`, `Follows.advance`, `Follows.eat`, `Follows.require`: single tokens.
* `collect_reaches`: how far a loop follows the same loop on another stream, where it may pass over
  extra elements.
-/

namespace Labyrinth

/-- How the tokens that are left on two streams are related. -/
abbrev KindRel := List TokenKind → List TokenKind → Prop

namespace KindRel

/-- Fewer than `m` tokens are left on the first stream, and fewer than `n` on the second one. -/
def below (T : KindRel) (m n : Nat) : KindRel := fun xs ys =>
  T xs ys ∧ xs.length < m ∧ ys.length < n

/-- A certain token comes next on the first stream. -/
def starting (T : KindRel) (k : TokenKind) : KindRel := fun xs ys => T xs ys ∧ xs.headD .eof = k

/-- The two results are the same. -/
def same {α : Type} (T : KindRel) : α → α → KindRel := fun a b xs ys => a = b ∧ T xs ys

/-- Where a token comes next on the first stream, it does so on the second one, and behind it the
tokens are related, too. -/
def Passes (k : TokenKind) (T T' : KindRel) : Prop :=
  ∀ xs ys, T (k :: xs) ys → ∃ ys', ys = k :: ys' ∧ T' xs ys'

/-- Behind a token that has been passed over, fewer tokens are left on both streams. -/
theorem Passes.below {k : TokenKind} {T T' : KindRel} {m n : Nat} (h : Passes k T T') :
    Passes k (T.below (m + 1) (n + 1)) (T'.below m n) := by
  rintro xs ys ⟨hxy, hm, hn⟩
  obtain ⟨ys', rfl, hxy'⟩ := h xs ys hxy
  exact ⟨ys', rfl, hxy', Nat.lt_of_succ_lt_succ hm, Nat.lt_of_succ_lt_succ hn⟩

/-- The bounds need not be made use of. -/
theorem Passes.within {k : TokenKind} {T T' : KindRel} {m n : Nat} (h : Passes k T T') :
    Passes k (T.below m n) (T'.below m n) := by
  rintro xs ys ⟨hxy, hm, hn⟩
  obtain ⟨ys', rfl, hxy'⟩ := h xs ys hxy
  exact ⟨ys', rfl, hxy', Nat.lt_of_succ_lt hm, Nat.lt_of_succ_lt hn⟩

theorem Passes.weaken {k : TokenKind} {S T T' : KindRel} (h : Passes k T T')
    (hT : ∀ xs ys, S xs ys → T xs ys) : Passes k S T' := fun xs ys hxy => h xs ys (hT _ _ hxy)

theorem below_succ {T : KindRel} {m n : Nat} (xs ys : List TokenKind) (h : T.below m n xs ys) :
    T.below (m + 1) (n + 1) xs ys :=
  ⟨h.1, Nat.lt_succ_of_lt h.2.1, Nat.lt_succ_of_lt h.2.2⟩

end KindRel

/-- Two streams whose tokens are related, where the functions `E` are defined on the second one,
too. -/
structure TokenStream.InStep (E : List String) (T : KindRel) (s t : TokenStream) : Prop where
  kinds : ∃ xs ys, s.Reads xs ∧ t.Reads ys ∧ T xs ys
  defined : t.defined = s.defined ++ E

theorem TokenStream.InStep.mono {E : List String} {T T' : KindRel} {s t : TokenStream}
    (hst : s.InStep E T t) (h : ∀ xs ys, s.Reads xs → T xs ys → T' xs ys) : s.InStep E T' t := by
  obtain ⟨⟨xs, ys, hs, ht, hxy⟩, hdefined⟩ := hst
  exact ⟨⟨xs, ys, hs, ht, h xs ys hs hxy⟩, hdefined⟩

/-- A token that is passed over on both streams. -/
theorem TokenStream.InStep.advance {E : List String} {T T' : KindRel} {k : TokenKind}
    {s t : TokenStream} (hst : s.InStep E T t) (hk : k ≠ .eof) (hT : KindRel.Passes k T T')
    (hhead : s.current.kind = k) : t.current.kind = k ∧ s.advance.InStep E T' t.advance := by
  obtain ⟨⟨xs, ys, hs, ht, hxy⟩, hdefined⟩ := hst
  have hxs : xs.headD .eof = k := hs.current_kind.symm.trans hhead
  cases xs with
  | nil => exact absurd hxs.symm hk
  | cons k' xs =>
    obtain rfl : k' = k := hxs
    obtain ⟨ys, rfl, hxy'⟩ := hT xs ys hxy
    refine ⟨ht.current_kind, ⟨xs, ys, hs.advance, ht.advance, hxy'⟩, ?_⟩
    rw [t.defined_advance, s.defined_advance, hdefined]

/-- Which functions are defined does not matter to what is read. -/
theorem TokenStream.Shows.define {s : TokenStream} {xs : List TokenKind} (h : s.Reads xs)
    (names : List String) : { s with defined := names }.Reads xs :=
  ⟨h.kinds, fun _ hmem => absurd hmem List.not_mem_nil, .nil⟩

/-- What may have become of a stream: it has an end, no tokens have come back, and functions have
stayed defined. -/
structure TokenStream.Becomes (s s' : TokenStream) : Prop where
  reads : ∃ xs, s'.Reads xs
  left_le : s'.left ≤ s.left
  defined : s.defined ⊆ s'.defined

namespace TokenStream.Becomes

theorem refl {s : TokenStream} {xs : List TokenKind} (h : s.Reads xs) : s.Becomes s :=
  ⟨⟨xs, h⟩, Nat.le_refl _, List.Subset.refl _⟩

theorem trans {s s' s'' : TokenStream} (h : s.Becomes s') (h' : s'.Becomes s'') : s.Becomes s'' :=
  ⟨h'.reads, Nat.le_trans h'.left_le h.left_le, List.Subset.trans h.defined h'.defined⟩

end TokenStream.Becomes

/-- The end of a stream is never passed over. -/
theorem TokenStream.Shows.reads_advance {s : TokenStream} {xs : List TokenKind} (h : s.Reads xs) :
    ∃ xs', s.advance.Reads xs' := by
  cases xs with
  | nil =>
    have hrest : s.rest = [] := List.map_eq_nil_iff.1 (List.cons.inj h.kinds).2
    refine ⟨[], ?_⟩
    unfold TokenStream.advance
    split
    · exact h
    · rename_i hcons
      cases hrest.symm.trans hcons
  | cons k xs => exact ⟨xs, h.advance⟩

namespace Parser

open KindRel

variable {α β : Type} {E : List String} {T T' : KindRel} {k : TokenKind}

theorem identifier_eq_ok_iff {keywords : List String} {s s' : TokenStream} {x : String} :
    identifier keywords s = .ok (x, s') ↔
      s.current.kind = .name x ∧ x ∉ keywords ∧ s' = s.advance := by
  constructor
  · intro heq
    obtain ⟨k, s₀, hk, heq⟩ := stateBind_eq_ok_iff.1 heq
    obtain ⟨hkind, rfl⟩ := Prod.mk.inj (Except.ok.inj hk)
    split at heq
    · split at heq
      · cases heq
      · rename_i hnew
        cases heq
        exact ⟨hkind, fun hmem => hnew (List.contains_iff_mem.2 hmem), rfl⟩
    · cases heq
  · rintro ⟨hname, hnew, rfl⟩
    refine (peek_of_eq hname).trans ?_
    have hcontains : ¬keywords.contains x = true := fun hmem =>
      hnew (List.contains_iff_mem.1 hmem)
    dsimp only
    rw [if_neg hcontains]
    rfl

theorem functionName_eq_ok_iff {keywords : List String} {s s' : TokenStream} {x : String} :
    functionName keywords s = .ok (x, s') ↔ s.current.kind = .name x ∧ x ∉ keywords ∧
      x ∉ s.defined ∧ s' = { s.advance with defined := x :: s.defined } := by
  have hdefined := s.defined_advance
  constructor
  · intro heq
    obtain ⟨p, s₀, hp, heq⟩ := stateBind_eq_ok_iff.1 heq
    cases hp
    obtain ⟨y, s₁, hy, heq⟩ := stateBind_eq_ok_iff.1 heq
    obtain ⟨hname, hkeywords, rfl⟩ := identifier_eq_ok_iff.1 hy
    obtain ⟨t, s₂, ht, heq⟩ := stateBind_eq_ok_iff.1 heq
    cases ht
    split at heq
    · cases heq
    · rename_i hnew
      cases heq
      rw [hdefined] at hnew ⊢
      exact ⟨hname, hkeywords, fun hmem => hnew (List.contains_iff_mem.2 hmem), rfl⟩
  · rintro ⟨hname, hkeywords, hnew, rfl⟩
    have hcontains : ¬s.advance.defined.contains x = true := fun hmem =>
      hnew (hdefined ▸ List.contains_iff_mem.1 hmem)
    refine (stateBind_of_ok rfl).trans
      ((stateBind_of_ok (identifier_eq_ok_iff.2 ⟨hname, hkeywords, rfl⟩)).trans ?_)
    refine (stateBind_of_ok rfl).trans ?_
    rw [if_neg hcontains, hdefined]
    rfl

/-- Whatever the parser does, the stream has an end, no tokens come back, and functions stay
defined. -/
def Grows (p : Parser α) : Prop :=
  ∀ s xs a s', s.Reads xs → p s = .ok (a, s') → s.Becomes s'

namespace Grows

variable {p : Parser α} {f : α → Parser β}

theorem bind (hp : Grows p) (hf : ∀ a, Grows (f a)) : Grows (p >>= f) := by
  intro s xs b s'' hs heq
  obtain ⟨a, s', ha, hb⟩ := stateBind_eq_ok_iff.1 heq
  have h := hp s xs a s' hs ha
  obtain ⟨xs', hs'⟩ := h.reads
  exact h.trans (hf a s' xs' b s'' hs' hb)

theorem pure (a : α) : Grows (Pure.pure a : Parser α) := by
  intro s xs b s' hs heq
  cases heq
  exact .refl hs

theorem of_local {pivot : Option TokenKind} {n : Nat} (hp : Local pivot n p) : Grows p := by
  intro s xs a s' hs heq
  obtain ⟨us, xs', rfl, hread⟩ := hp _ s xs a s' hs rfl heq
  refine ⟨⟨xs', hread.reads⟩, ?_, hread.defined ▸ List.Subset.refl _⟩
  rw [hread.reads.left_eq, hs.left_eq, List.length_append]
  exact Nat.le_add_left ..

theorem collect {item : Parser (Next α)} (h : Grows item) : Grows (collect item) := by
  intro s xs as s' hs heq
  unfold Parser.collect at heq
  fun_induction collectFrom item s generalizing xs as with
  | case1 => cases heq
  | case2 s s₁ hitem =>
    cases heq
    exact h s xs _ s' hs hitem
  | case3 s a s₁ hitem =>
    cases heq
    exact h s xs _ s' hs hitem
  | case4 s a s₁ hitem hlt ih =>
    obtain ⟨⟨as', s₂⟩, hrest, heq⟩ := bind_eq_ok_iff.1 heq
    cases heq
    have hround := h s xs _ s₁ hs hitem
    obtain ⟨xs₁, hs₁⟩ := hround.reads
    exact hround.trans (ih xs₁ as' hs₁ hrest)
  | case5 s a s₁ hitem hge =>
    cases heq
    exact h s xs _ s' hs hitem

/-- The functions that a round has defined stay defined. -/
theorem of_round {item : Parser (Next α)} (h : Grows item) {s s₁ s' : TokenStream}
    {xs : List TokenKind} {r : Next α} {as : List α} (hs : s.Reads xs)
    (hround : item s = .ok (r, s₁)) (heq : Parser.collect item s = .ok (as, s')) :
    s₁.defined ⊆ s'.defined := by
  obtain ⟨xs₁, hs₁⟩ := (h s xs r s₁ hs hround).reads
  rw [Parser.collect, collectFrom, hround] at heq
  cases r with
  | stop =>
    cases heq
    exact List.Subset.refl _
  | last a =>
    cases heq
    exact List.Subset.refl _
  | more a =>
    by_cases hlt : s₁.left < s.left
    · obtain ⟨⟨bs, s₂⟩, hrest, heq⟩ := bind_eq_ok_iff.1 ((if_pos hlt).symm.trans heq)
      cases heq
      exact (h.collect s₁ xs₁ bs s' hs₁ hrest).defined
    · cases (if_neg hlt).symm.trans heq
      exact List.Subset.refl _

end Grows

/-- Where a certain token comes next, the parser fails. -/
def Refuses (k : TokenKind) (p : Parser α) : Prop := ∀ s r, s.current.kind = k → p s ≠ .ok r

namespace Refuses

variable {p : Parser α} {f : α → Parser β}

theorem of_error (h : ∀ s r, p s ≠ .ok r) : Refuses k p := fun s r _ => h s r

theorem bind (h : Refuses k p) : Refuses k (p >>= f) := by
  intro s r hk heq
  obtain ⟨a, s', ha, -⟩ := stateBind_eq_ok_iff.1 heq
  exact h s (a, s') hk ha

theorem peek {f : TokenKind → Parser β} (h : Refuses k (f k)) : Refuses k (peek >>= f) := by
  intro s r hk heq
  rw [peek_of_eq hk] at heq
  exact h s r hk heq

theorem eat {kind : TokenKind} {f : Bool → Parser β} (hne : k ≠ kind) (h : Refuses k (f false)) :
    Refuses k (eat kind >>= f) := by
  intro s r hk heq
  rw [eat_of_ne (hk ▸ hne)] at heq
  exact h s r hk heq

theorem expectOp {op : String} (hne : k ≠ .op op) : Refuses k (expectOp op) :=
  .eat hne (.of_error nofun)

theorem expectWord {word : String} (hne : k ≠ .name word) : Refuses k (expectWord word) :=
  .eat hne (.of_error nofun)

theorem position {f : Position → Parser β} (h : ∀ q, Refuses k (f q)) :
    Refuses k (position >>= f) := fun s r hk heq => h s.current.position s r hk heq

theorem descend {room : Nat} {f : Unit → Parser β} (h : Refuses k (f ())) :
    Refuses k (descend room >>= f) := by
  cases room with
  | zero => exact .of_error fun _ _ heq => nomatch heq
  | succ room => exact h

theorem chain {operator : Parser (Option β)} {operand : Nat → Parser α} {combine : β → α → α → α}
    {room : Nat} (h : Refuses k (operand room)) : Refuses k (chain operator operand combine room) :=
  .bind h

end Refuses

/-- The second parser succeeds where the first one does, and leaves streams in step behind. -/
structure Follows (E : List String) (T : KindRel) (Q : α → α → KindRel) (p q : Parser α) :
    Prop where
  grows : Grows p
  follows : ∀ s t a s', s.InStep E T t → p s = .ok (a, s') → (∀ x ∈ E, x ∉ s'.defined) →
    ∃ b t', q t = .ok (b, t') ∧ s'.InStep E (Q a b) t'

namespace Follows

variable {p q : Parser α} {f g : α → Parser β} {Q Q' : α → α → KindRel} {R : β → β → KindRel}

theorem mono (h : Follows E T Q p q) (hT : ∀ xs ys, T' xs ys → T xs ys)
    (hQ : ∀ a b xs ys, Q a b xs ys → Q' a b xs ys) : Follows E T' Q' p q := by
  refine ⟨h.grows, fun s t a s' hst heq hE => ?_⟩
  obtain ⟨b, t', hb, hst'⟩ := h.follows s t a s' (hst.mono fun xs ys _ => hT xs ys) heq hE
  exact ⟨b, t', hb, hst'.mono fun xs ys _ => hQ a b xs ys⟩

theorem weaken (h : Follows E T Q p q) (hT : ∀ xs ys, T' xs ys → T xs ys) : Follows E T' Q p q :=
  h.mono hT fun _ _ _ _ => id

/-- A condition on the two streams that does not depend on the tokens. -/
theorem of_prop {P : Prop} (hp : Grows p) (h : P → Follows E T Q p q) :
    Follows E (fun xs ys => P ∧ T xs ys) Q p q := by
  refine ⟨hp, fun s t a s' hst => ?_⟩
  obtain ⟨xs, ys, -, -, hP, -⟩ := hst.kinds
  exact (h hP).follows s t a s' (hst.mono fun _ _ _ => And.right)

theorem of_error (h : ∀ s r, p s ≠ .ok r) : Follows E T Q p q :=
  ⟨fun _ _ _ _ _ heq => absurd heq (h _ _), fun _ _ _ _ _ heq => absurd heq (h _ _)⟩

/-- A condition that no streams satisfy. -/
theorem of_empty (hp : Grows p) (h : ∀ xs ys, ¬T xs ys) : Follows E T Q p q := by
  refine ⟨hp, fun s t a s' hst => ?_⟩
  obtain ⟨xs, ys, -, -, hxy⟩ := hst.kinds
  exact absurd hxy (h xs ys)

theorem pure {a b : α} (h : ∀ xs ys, T xs ys → Q a b xs ys) :
    Follows E T Q (Pure.pure a) (Pure.pure b) := by
  refine ⟨.pure a, fun s t c s' hst heq _ => ?_⟩
  cases heq
  exact ⟨b, t, rfl, hst.mono fun xs ys _ => h xs ys⟩

theorem bind (hp : Follows E T Q p q) (hf : ∀ a b, Follows E (Q a b) R (f a) (g b)) :
    Follows E T R (p >>= f) (q >>= g) := by
  refine ⟨hp.grows.bind fun a => (hf a a).grows, fun s t c s'' hst heq hE => ?_⟩
  obtain ⟨a, s', ha, hc⟩ := stateBind_eq_ok_iff.1 heq
  obtain ⟨xs, ys, hs, -⟩ := hst.kinds
  obtain ⟨xs', hs'⟩ := (hp.grows s xs a s' hs ha).reads
  have hsub := ((hf a a).grows s' xs' c s'' hs' hc).defined
  obtain ⟨b, t', hb, hst'⟩ := hp.follows s t a s' hst ha fun x hx hmem => hE x hx (hsub hmem)
  obtain ⟨d, t'', hd, hst''⟩ := (hf a b).follows s' t' c s'' hst' hc hE
  exact ⟨d, t'', (stateBind_of_ok hb).trans hd, hst''⟩

/-- The first of two parsers has the same result on both streams. -/
theorem bind_same (hp : Follows E T (same T') p q) (hf : ∀ a, Follows E T' R (f a) (g a)) :
    Follows E T R (p >>= f) (q >>= g) :=
  .bind hp fun a _ => .of_prop (hf a).grows fun h => h ▸ hf a

/-- A parser whose result is put into a larger one. -/
theorem map {F : α → β} (hp : Follows E T Q p q)
    (h : ∀ a b xs ys, Q a b xs ys → R (F a) (F b) xs ys) :
    Follows E T R (p >>= fun a => Pure.pure (F a)) (q >>= fun a => Pure.pure (F a)) :=
  .bind hp fun a b => .pure (h a b)

/-- A local parser, where all that it looks at is the same on both streams. -/
theorem of_local {pivot : Option TokenKind} (hp : Local pivot 0 p)
    (hT : ∀ us xs ys, Closes 0 us → T (us ++ xs) ys →
      ∃ ys', ys = us ++ ys' ∧ Alike pivot xs ys' ∧ T' xs ys') : Follows E T (same T') p p := by
  refine ⟨.of_local hp, fun s t a s' hst heq _ => ?_⟩
  obtain ⟨⟨xs, ys, hs, ht, hxy⟩, hdefined⟩ := hst
  obtain ⟨us, xs', rfl, hread⟩ := hp _ s xs a s' hs rfl heq
  obtain ⟨ys', rfl, halike, hxy'⟩ := hT us xs' ys hread.closes hxy
  obtain ⟨t', hat, ht', hsame⟩ := hread.same t ys' ht halike
  refine ⟨a, t', hat, ⟨xs', ys', hread.reads, ht', rfl, hxy'⟩, ?_⟩
  rw [hsame, hread.defined, hdefined]

/-- A token at which the parser fails. -/
theorem of_refuses (hrefuses : Refuses k p)
    (h : Follows E (fun xs ys => T xs ys ∧ xs.headD .eof ≠ k) Q p q) : Follows E T Q p q := by
  refine ⟨h.grows, fun s t a s' hst heq hE => ?_⟩
  have hne : s.current.kind ≠ k := fun hk => hrefuses s (a, s') hk heq
  exact h.follows s t a s' (hst.mono fun xs ys hs hxy => ⟨hxy, hs.headD_eq ▸ hne⟩) heq hE

/-- A local parser before one that fails at the end of the first stream. Behind that, the second one
may go on. -/
theorem bind_local {pivot : Option TokenKind} (hp : Local pivot 0 p)
    (hrefuses : ∀ a, Refuses .eof (f a))
    (hT : ∀ us xs ys, T (us ++ xs) ys → ∃ ys', ys = us ++ ys' ∧ T' xs ys' ∧
      (xs.headD .eof ≠ .eof → Alike pivot xs ys'))
    (hf : ∀ a, Follows E T' R (f a) (g a)) : Follows E T R (p >>= f) (p >>= g) := by
  have hgrows : Grows p := .of_local hp
  refine ⟨hgrows.bind fun a => (hf a).grows, fun s t c s'' hst heq hE => ?_⟩
  obtain ⟨a, s', ha, hc⟩ := stateBind_eq_ok_iff.1 heq
  obtain ⟨⟨xs, ys, hs, ht, hxy⟩, hdefined⟩ := hst
  obtain ⟨us, xs', rfl, hread⟩ := hp _ s xs a s' hs rfl ha
  obtain ⟨ys', rfl, hxy', halike⟩ := hT us xs' ys hxy
  have hne : xs'.headD .eof ≠ .eof := fun hend =>
    hrefuses a s' (c, s'') (hread.reads.headD_eq.symm.trans hend) hc
  obtain ⟨t', hat, ht', hsame⟩ := hread.same t ys' ht (halike hne)
  have hst' : s'.InStep E T' t' :=
    ⟨⟨xs', ys', hread.reads, ht', hxy'⟩, by rw [hsame, hread.defined, hdefined]⟩
  obtain ⟨d, t'', hd, hst''⟩ := (hf a).follows s' t' c s'' hst' hc hE
  exact ⟨d, t'', (stateBind_of_ok hat).trans hd, hst''⟩

/-! ### Single tokens -/

/-- The kind of the next token decides how a parser goes on. -/
theorem peek {f g : TokenKind → Parser β} (hT : ∀ xs ys, T xs ys → xs.headD .eof = ys.headD .eof)
    (h : ∀ k, Follows E (T.starting k) R (f k) (g k)) :
    Follows E T R (peek >>= f) (peek >>= g) := by
  refine ⟨fun s xs => (h s.current.kind).grows s xs, fun s t b s' hst heq hE => ?_⟩
  obtain ⟨xs, ys, hs, ht, hxy⟩ := hst.kinds
  have hsame : t.current.kind = s.current.kind :=
    ht.current_kind.trans ((hT xs ys hxy).symm.trans hs.current_kind.symm)
  obtain ⟨c, t', hc, hst'⟩ := (h s.current.kind).follows s t b s'
    (hst.mono fun _ _ hs hxy => ⟨hxy, hs.current_kind.symm⟩) heq hE
  refine ⟨c, t', ?_, hst'⟩
  rw [← hsame] at hc
  exact hc

/-- Whether a certain token comes next. -/
theorem check {f g : Bool → Parser β}
    (hT : ∀ xs ys, T xs ys → xs.headD .eof = ys.headD .eof)
    (htrue : Follows E (T.starting k) R (f true) (g true))
    (hfalse : Follows E (fun xs ys => T xs ys ∧ xs.headD .eof ≠ k) R (f false) (g false)) :
    Follows E T R (check k >>= f) (check k >>= g) := by
  suffices h : Follows E T R (Parser.peek >>= fun kind => f (kind == k))
      (Parser.peek >>= fun kind => g (kind == k)) from h
  refine .peek hT fun kind => ?_
  by_cases hk : kind = k
  · rw [beq_iff_eq.2 hk]
    exact htrue.weaken fun xs ys hxy => ⟨hxy.1, hxy.2.trans hk⟩
  · rw [beq_false_of_ne hk]
    exact hfalse.weaken fun xs ys hxy => ⟨hxy.1, fun h => hk (hxy.2.symm.trans h)⟩

theorem grows_advance {f : Unit → Parser β} (h : Grows (f ())) : Grows (Parser.advance >>= f) := by
  intro s xs b s' hs heq
  obtain ⟨xs', hs'⟩ := hs.reads_advance
  refine .trans ⟨⟨xs', hs'⟩, s.left_advance_le, ?_⟩ (h s.advance xs' b s' hs' heq)
  rw [s.defined_advance]
  exact List.Subset.refl _

/-- The next token is passed over. -/
theorem advance {f g : Unit → Parser β} (hk : k ≠ .eof) (hT : Passes k T T')
    (h : Follows E T' R (f ()) (g ())) :
    Follows E (T.starting k) R (Parser.advance >>= f) (Parser.advance >>= g) := by
  refine ⟨grows_advance h.grows, fun s t b s' hst heq hE => ?_⟩
  obtain ⟨xs, ys, hs, -, -, hhead⟩ := hst.kinds
  obtain ⟨-, hst'⟩ :=
    (hst.mono fun _ _ _ => And.left).advance hk hT (hs.current_kind.trans hhead)
  exact h.follows s.advance t.advance b s' hst' heq hE

theorem grows_eat {f : Bool → Parser β} (htrue : Grows (f true)) (hfalse : Grows (f false)) :
    Grows (Parser.eat k >>= f) := by
  intro s xs b s' hs heq
  by_cases hk : s.current.kind = k
  · rw [eat_of_eq hk] at heq
    exact grows_advance (f := fun _ => f true) htrue s xs b s' hs heq
  · rw [eat_of_ne hk] at heq
    exact hfalse s xs b s' hs heq

/-- A certain token is passed over if it comes next. -/
theorem eat {f g : Bool → Parser β} (hk : k ≠ .eof) (hT : Passes k T T')
    (hne : ∀ xs ys, T xs ys → ys.headD .eof = k → xs.headD .eof = k)
    (htrue : Follows E T' R (f true) (g true))
    (hfalse : Follows E (fun xs ys => T xs ys ∧ xs.headD .eof ≠ k) R (f false) (g false)) :
    Follows E T R (eat k >>= f) (eat k >>= g) := by
  refine ⟨grows_eat htrue.grows hfalse.grows, fun s t b s' hst heq hE => ?_⟩
  by_cases hhead : s.current.kind = k
  · obtain ⟨hhead', hst'⟩ := hst.advance hk hT hhead
    rw [eat_of_eq hhead] at heq
    rw [eat_of_eq hhead']
    exact htrue.follows s.advance t.advance b s' hst' heq hE
  · obtain ⟨xs, ys, hs, ht, hxy⟩ := hst.kinds
    have hhead' : t.current.kind ≠ k := fun h =>
      hhead (hs.current_kind.trans (hne xs ys hxy (ht.current_kind.symm.trans h)))
    rw [eat_of_ne hhead] at heq
    rw [eat_of_ne hhead']
    exact hfalse.follows s t b s' (hst.mono fun _ _ hs hxy => ⟨hxy, hs.headD_eq ▸ hhead⟩) heq hE

/-- A token that has to come next. -/
theorem require {f g : Bool → Parser β} (hk : k ≠ .eof) (hT : Passes k T T')
    (htrue : Follows E T' R (f true) (g true)) (hfalse : ∀ s r, f false s ≠ .ok r) :
    Follows E T R (Parser.eat k >>= f) (Parser.eat k >>= g) := by
  have hgrows : Grows (f false) := fun s _ _ _ _ heq => absurd heq (hfalse s _)
  refine ⟨grows_eat htrue.grows hgrows, fun s t b s' hst heq hE => ?_⟩
  by_cases hhead : s.current.kind = k
  · obtain ⟨hhead', hst'⟩ := hst.advance hk hT hhead
    rw [eat_of_eq hhead] at heq
    rw [eat_of_eq hhead']
    exact htrue.follows s.advance t.advance b s' hst' heq hE
  · rw [eat_of_ne hhead] at heq
    exact absurd heq (hfalse s _)

/-- An operator or a bracket that has to come next. -/
theorem expectOp {op : String} {f g : Unit → Parser β} (hT : Passes (.op op) T T')
    (h : Follows E T' R (f ()) (g ())) :
    Follows E T R (Parser.expectOp op >>= f) (Parser.expectOp op >>= g) := by
  unfold Parser.expectOp
  rw [bind_assoc, bind_assoc]
  exact .require nofun hT h fun _ _ heq => nomatch heq

/-- A level of nesting. -/
theorem descend {room : Nat} {f g : Unit → Parser β} (h : Follows E T R (f ()) (g ())) :
    Follows E T R (Parser.descend room >>= f) (Parser.descend room >>= g) := by
  cases room with
  | zero => exact .of_error fun _ _ heq => nomatch heq
  | succ room => exact h

/-- The name of a function, which must not be one of those that only the second stream knows. -/
theorem functionName {keywords : List String} (hT : ∀ x, Passes (.name x) T T') :
    Follows E T (same T') (functionName keywords) (functionName keywords) := by
  refine ⟨fun s xs x s' hs heq => ?_, fun s t x s' hst heq hE => ?_⟩
  · obtain ⟨hx, -, -, rfl⟩ := functionName_eq_ok_iff.1 heq
    obtain ⟨xs', hs'⟩ := hs.reads_advance
    exact ⟨⟨xs', hs'.define _⟩, s.left_advance_le, List.subset_cons_self _ _⟩
  · obtain ⟨hx, hname, hnew, rfl⟩ := functionName_eq_ok_iff.1 heq
    obtain ⟨hx', hst'⟩ := hst.advance (k := .name x) nofun (hT x) hx
    obtain ⟨xs', ys', hs', ht', hxy'⟩ := hst'.kinds
    have hnew' : x ∉ t.defined := by
      rw [hst.defined, List.mem_append, not_or]
      exact ⟨hnew, fun hmem => hE x hmem List.mem_cons_self⟩
    refine ⟨x, _, functionName_eq_ok_iff.2 ⟨hx', hname, hnew', rfl⟩, ?_, ?_⟩
    · exact ⟨xs', ys', hs'.define _, ht'.define _, rfl, hxy'⟩
    · exact congrArg (x :: ·) hst.defined

end Follows

/-! ### Loops -/

/-- The second list has elements that are related to those of the first one, and extra ones between
them. -/
inductive Interspersed (R : α → α → Prop) (extra : α → Prop) : List α → List α → Prop
  | nil : Interspersed R extra [] []
  | cons {a b : α} {as bs : List α} (hab : R a b) (h : Interspersed R extra as bs) :
    Interspersed R extra (a :: as) (b :: bs)
  | extra {b : α} {as bs : List α} (hb : extra b) (h : Interspersed R extra as bs) :
    Interspersed R extra as (b :: bs)

theorem Interspersed.prepend {R : α → α → Prop} {extra : α → Prop} {as bs : List α}
    (h : Interspersed R extra as bs) {extras : List α} (hextras : ∀ b ∈ extras, extra b) :
    Interspersed R extra as (extras ++ bs) := by
  induction extras with
  | nil => exact h
  | cons b extras ih =>
    rw [List.forall_mem_cons] at hextras
    exact .extra hextras.1 (ih hextras.2)

theorem Interspersed.forall₂ {R : α → α → Prop} {as bs : List α}
    (h : Interspersed R (fun _ => False) as bs) : List.Forall₂ R as bs := by
  induction h with
  | nil => exact .nil
  | cons hab _ ih => exact .cons hab ih
  | extra hb => exact hb.elim

/-- On the second stream a loop passes over some extra elements. Behind them, the streams are more
closely in step. -/
def Skips (E : List String) (item : Parser (Next α)) (extra : α → Prop) (T T' : KindRel) : Prop :=
  ∀ s t : TokenStream, s.InStep E T t → ∃ extras t₁, (∀ b ∈ extras, extra b) ∧ s.InStep E T' t₁ ∧
    t₁.left ≤ t.left ∧ ∀ cs t'', collect item t₁ = .ok (cs, t'') →
      collect item t = .ok (extras ++ cs, t'')

theorem Skips.refl (item : Parser (Next α)) (extra : α → Prop) : Skips E item extra T T :=
  fun _ t hst => ⟨[], t, List.forall_mem_nil _, hst, Nat.le_refl _, fun _ _ => id⟩

/-- The bounds that hold of two streams. -/
theorem below_left {s t : TokenStream} (hst : s.InStep E T t) :
    s.InStep E (T.below (s.left + 1) (t.left + 1)) t := by
  obtain ⟨⟨xs, ys, hs, ht, hxy⟩, hdefined⟩ := hst
  have hm : xs.length < s.left + 1 := Nat.lt_succ_of_le (Nat.le_of_eq hs.left_eq.symm)
  have hn : ys.length < t.left + 1 := Nat.lt_succ_of_le (Nat.le_of_eq ht.left_eq.symm)
  exact ⟨⟨xs, ys, hs, ht, hxy, hm, hn⟩, hdefined⟩

section Loops

variable {item : Parser (Next α)} (stops : TokenKind → Prop) {R : α → α → Prop} {extra : α → Prop}
  (hskip : Skips E item extra T T')
  (hstop : ∀ s : TokenStream, stops s.current.kind → item s = .ok (.stop, s))
  (hround : ∀ m n, Follows E
    (fun xs ys => T'.below (m + 1) (n + 1) xs ys ∧ ¬stops (xs.headD .eof))
    (fun a b xs ys => (∃ x y, a = .more x ∧ b = .more y ∧ R x y) ∧ T.below m n xs ys) item item)
include hstop hround

/-- A round on both streams: the loop stops on the first one, or both read an element. -/
theorem round_cases {s t s₁ : TokenStream} {a : Next α} (hst : s.InStep E T' t)
    (hitem : item s = .ok (a, s₁)) (hE : ∀ x ∈ E, x ∉ s₁.defined) :
    (stops s.current.kind ∧ a = .stop ∧ s₁ = s) ∨
      ∃ x y t₁, a = .more x ∧ item t = .ok (.more y, t₁) ∧ R x y ∧ s₁.InStep E T t₁ ∧
        s₁.left < s.left ∧ t₁.left < t.left := by
  by_cases hgo : stops s.current.kind
  · cases hitem.symm.trans (hstop s hgo)
    exact .inl ⟨hgo, rfl, rfl⟩
  obtain ⟨b, t₁, hb, hst₁⟩ := (hround s.left t.left).follows s t a s₁
    ((below_left hst).mono fun xs ys hs hxy => ⟨hxy, hs.headD_eq ▸ hgo⟩) hitem hE
  obtain ⟨xs₁, ys₁, hs₁, ht₁, ⟨x, y, rfl, rfl, hR⟩, hxy₁, hm, hn⟩ := hst₁.kinds
  refine .inr ⟨x, y, t₁, rfl, hb, hR, hst₁.mono fun _ _ _ h => h.2.1, ?_, ?_⟩
  · rw [hs₁.left_eq]
    exact hm
  · rw [ht₁.left_eq]
    exact hn

include hskip

/-- How far a loop follows the same loop on another stream, where it passes over extra elements. On
the first stream the rounds stop at certain tokens; the loop on the second one has got just as far
then, but it may go on. -/
theorem collect_reaches {s t s' : TokenStream} {as : List α} (hst : s.InStep E T t)
    (heq : collect item s = .ok (as, s')) (hE : ∀ x ∈ E, x ∉ s'.defined) :
    ∃ bs t', Interspersed R extra as bs ∧
      s'.InStep E (fun xs ys => T'.below (s.left + 1) (t.left + 1) xs ys ∧
        stops (xs.headD .eof)) t' ∧
      ∀ cs t'', collect item t' = .ok (cs, t'') → collect item t = .ok (bs ++ cs, t'') := by
  unfold collect at heq
  fun_induction collectFrom item s generalizing t as with
  | case1 => cases heq
  | case2 s s₁ hitem =>
    cases heq
    obtain ⟨extras, t₁, hextras, hst₁, hle, hreach⟩ := hskip s t hst
    obtain ⟨hhead, -, rfl⟩ | ⟨_, _, _, hmore, -⟩ := round_cases stops hstop hround hst₁ hitem hE
    · refine ⟨extras, t₁, ?_, (below_left hst₁).mono fun xs ys hs hxy => ?_, hreach⟩
      · exact (List.append_nil extras) ▸ Interspersed.nil.prepend hextras
      · have hn := Nat.lt_of_lt_of_le hxy.2.2 (Nat.succ_le_succ hle)
        exact ⟨⟨hxy.1, hxy.2.1, hn⟩, hs.headD_eq ▸ hhead⟩
    · cases hmore
  | case3 s a s₁ hitem =>
    cases heq
    obtain ⟨extras, t₁, -, hst₁, -⟩ := hskip s t hst
    obtain ⟨-, hlast, -⟩ | ⟨_, _, _, hlast, -⟩ := round_cases stops hstop hround hst₁ hitem hE
    · cases hlast
    · cases hlast
  | case4 s a s₁ hitem hlt ih =>
    have hcollect : collect item s = .ok (as, s') := by
      rw [collect, collectFrom, hitem]
      exact (if_pos hlt).trans heq
    obtain ⟨⟨as', s₂⟩, hrest, heq⟩ := bind_eq_ok_iff.1 heq
    cases heq
    obtain ⟨extras, t₁, hextras, hst₁, hle, hreach⟩ := hskip s t hst
    obtain ⟨xs, ys, hs, -⟩ := hst.kinds
    have hsub := (hround 0 0).grows.of_round hs hitem hcollect
    obtain ⟨-, hmore, -⟩ | ⟨x, y, t₂, hmore, hy, hR, hst₂, -, hlt'⟩ :=
      round_cases stops hstop hround hst₁ hitem fun x hx hmem => hE x hx (hsub hmem)
    · cases hmore
    cases hmore
    obtain ⟨bs, t', hbs, hst', hreach'⟩ := ih hst₂ hrest
    refine ⟨extras ++ y :: bs, t', (Interspersed.cons hR hbs).prepend hextras,
      hst'.mono fun xs ys _ hxy => ?_, fun cs t'' hcs => ?_⟩
    · obtain ⟨⟨hxy, hm, hn⟩, hhead⟩ := hxy
      exact ⟨⟨hxy, by omega, by omega⟩, hhead⟩
    · have hrest' : collectFrom item t₂ = .ok (bs ++ cs, t'') := hreach' cs t'' hcs
      have hcollect' : collect item t₁ = .ok (y :: (bs ++ cs), t'') := by
        rw [collect, collectFrom, hy]
        refine (if_pos hlt').trans ?_
        rw [hrest']
        rfl
      rw [List.append_assoc]
      exact hreach _ _ hcollect'
  | case5 s a s₁ hitem hge =>
    cases heq
    obtain ⟨extras, t₁, -, hst₁, -⟩ := hskip s t hst
    obtain ⟨-, hlast, -⟩ | ⟨_, _, _, -, -, -, -, hlt, -⟩ :=
      round_cases stops hstop hround hst₁ hitem hE
    · cases hlast
    · exact absurd hlt hge

/-- A loop that stops on both streams at the same time. -/
theorem Follows.collect_skipping
    (hheads : ∀ xs ys, T' xs ys → stops (xs.headD .eof) → stops (ys.headD .eof)) (m n : Nat) :
    Follows E (T.below m n)
      (fun as bs xs ys => Interspersed R extra as bs ∧ T'.below m n xs ys ∧
        stops (xs.headD .eof))
      (collect item) (collect item) := by
  refine ⟨(hround 0 0).grows.collect, fun s t as s' hst heq hE => ?_⟩
  obtain ⟨xs, ys, hs, ht, -, hm, hn⟩ := hst.kinds
  obtain ⟨bs, t', hbs, hst', hreach⟩ :=
    collect_reaches stops hskip hstop hround (hst.mono fun _ _ _ => And.left) heq hE
  have hdone : Parser.collect item t' = .ok ([], t') := by
    obtain ⟨xs', ys', -, ht', ⟨hxy', -⟩, hhead⟩ := hst'.kinds
    have hitem := hstop t' (ht'.headD_eq ▸ hheads xs' ys' hxy' hhead)
    rw [Parser.collect, collectFrom, hitem]
  have hcollect := hreach [] t' hdone
  rw [List.append_nil] at hcollect
  refine ⟨bs, t', hcollect, hst'.mono fun xs' ys' _ hxy => ?_⟩
  obtain ⟨⟨hxy', hm', hn'⟩, hhead⟩ := hxy
  have hleft : s.left = xs.length := hs.left_eq
  have hleft' : t.left = ys.length := ht.left_eq
  exact ⟨hbs, ⟨hxy', by omega, by omega⟩, hhead⟩

end Loops

/-- A loop without extra elements. -/
theorem Follows.collect {item : Parser (Next α)} {stops : TokenKind → Prop} {R : α → α → Prop}
    (hstop : ∀ s : TokenStream, stops s.current.kind → item s = .ok (.stop, s))
    (hround : ∀ m n, Follows E
      (fun xs ys => T.below (m + 1) (n + 1) xs ys ∧ ¬stops (xs.headD .eof))
      (fun a b xs ys => (∃ x y, a = .more x ∧ b = .more y ∧ R x y) ∧ T.below m n xs ys) item item)
    (hheads : ∀ xs ys, T xs ys → stops (xs.headD .eof) → stops (ys.headD .eof)) (m n : Nat) :
    Follows E (T.below m n)
      (fun as bs xs ys => List.Forall₂ R as bs ∧ T.below m n xs ys ∧ stops (xs.headD .eof))
      (collect item) (collect item) :=
  (Follows.collect_skipping stops (.refl item fun _ => False) hstop hround hheads m n).mono
    (fun _ _ => id) fun _ _ _ _ h => ⟨h.1.forall₂, h.2⟩

/-! ### Programs -/

/-- A round of the loop that reads a program. -/
def programRound (stmt : Parser (List Stmt)) : Parser (Next (List Stmt)) := do
  if ← check .eof then return .stop
  else return .more (← stmt)

theorem programRound_of_eof (stmt : Parser (List Stmt)) {s : TokenStream}
    (h : s.current.kind = .eof) : programRound stmt s = .ok (.stop, s) :=
  (stateBind_of_ok rfl).trans (by rw [h]; rfl)

theorem programRound_of_ne (stmt : Parser (List Stmt)) {s : TokenStream}
    (h : s.current.kind ≠ .eof) : programRound stmt s = (do return Next.more (← stmt)) s :=
  (stateBind_of_ok rfl).trans (by rw [beq_false_of_ne h]; rfl)

/-- How far a program on the second stream is read as the one on the first stream is. -/
theorem program_reaches {R : List Stmt → List Stmt → Prop} {extra : List Stmt → Prop}
    {stmt : Parser (List Stmt)} (hskip : Skips E (programRound stmt) extra T T')
    (hstmt : ∀ m n, Follows E
      (fun xs ys => T'.below (m + 1) (n + 1) xs ys ∧ xs.headD .eof ≠ .eof)
      (fun a b xs ys => R a b ∧ T.below m n xs ys) stmt stmt)
    (hheads : ∀ xs ys, T' xs ys → xs.headD .eof ≠ .eof → ys.headD .eof ≠ .eof)
    {s t s' : TokenStream} {as : List (List Stmt)} (hst : s.InStep E T t)
    (heq : collect (programRound stmt) s = .ok (as, s')) (hE : ∀ x ∈ E, x ∉ s'.defined) :
    ∃ bs t', Interspersed R extra as bs ∧ s'.InStep E (T'.starting .eof) t' ∧
      ∀ cs t'', collect (programRound stmt) t' = .ok (cs, t'') →
        collect (programRound stmt) t = .ok (bs ++ cs, t'') := by
  have hround (m n : Nat) : Follows E
      (fun xs ys => T'.below (m + 1) (n + 1) xs ys ∧ xs.headD .eof ≠ .eof)
      (fun a b xs ys => (∃ x y, a = .more x ∧ b = .more y ∧ R x y) ∧ T.below m n xs ys)
      (programRound stmt) (programRound stmt) := by
    have hmore : Follows E (fun xs ys => T'.below (m + 1) (n + 1) xs ys ∧ xs.headD .eof ≠ .eof)
        (fun a b xs ys => (∃ x y, a = .more x ∧ b = .more y ∧ R x y) ∧ T.below m n xs ys)
        (do return Next.more (← stmt)) (do return Next.more (← stmt)) :=
      .map (hstmt m n) fun x y _ _ hxy => ⟨⟨x, y, rfl, rfl, hxy.1⟩, hxy.2⟩
    refine ⟨fun s xs r s' hs heq => ?_, fun s t r s' hst heq hE => ?_⟩
    · by_cases hhead : s.current.kind = .eof
      · cases (programRound_of_eof stmt hhead).symm.trans heq
        exact .refl hs
      · rw [programRound_of_ne stmt hhead] at heq
        exact hmore.grows s xs r s' hs heq
    · obtain ⟨xs, ys, hs, ht, hxy, hhead⟩ := hst.kinds
      have hhead' : ys.headD .eof ≠ .eof := hheads xs ys hxy.1 hhead
      rw [hs.headD_eq] at hhead
      rw [ht.headD_eq] at hhead'
      rw [programRound_of_ne stmt hhead] at heq
      rw [programRound_of_ne stmt hhead']
      exact hmore.follows s t r s' hst heq hE
  obtain ⟨bs, t', hbs, hst', hreach⟩ := collect_reaches (· = .eof) hskip
    (fun _ => programRound_of_eof stmt) hround hst heq hE
  exact ⟨bs, t', hbs, hst'.mono fun _ _ _ hxy => ⟨hxy.1.1, hxy.2⟩, hreach⟩

end Parser

end Labyrinth
