import Labyrinth.Proofs.Language.Levels

/-!
# Printed expressions are read again

From the tokens of a printable expression the grammar reads the expression itself. There is a lemma
for every kind of expression, given that its parts are reread.

## Main results

* `Expr.reread`: every printable expression is read from its tokens.
-/

namespace Labyrinth

open Labyrinth.Parser Labyrinth.Braced

variable {e lhs rhs : Expr} {args : List Expr} {f : String}

/-! ### Without operators -/

theorem yields_word {nested : Nat → Parser Expr} {x : String} (hx : IsFree x) (room : Nat)
    (rest : List TokenKind) (ahead : List String) :
    Yields (word nested x room) ⟨.name x :: rest, ahead⟩ ⟨rest, ahead⟩ (.name x) := by
  obtain ⟨hkeyword, hmath, hconsole⟩ := hx
  unfold word
  split
  · exact absurd (by decide) hkeyword
  · exact absurd (by decide) hkeyword
  · exact absurd (by decide) hkeyword
  · exact absurd (by decide) hkeyword
  · exact absurd (by decide) hkeyword
  · exact absurd rfl hmath
  · exact absurd rfl hconsole
  · rw [if_neg (by simpa using hkeyword)]
    exact .bind yields_advance .pure

theorem begins_name {x : String} (hx : IsFree x) (n : Nat) : (TokenKind.name x).Begins n := by
  refine ⟨fun hmem => hx.1 (leaders_subset hmem), ?_⟩
  rintro rfl
  exact absurd (by decide) hx.1

/-- A word that stands for a constant or for an object. -/
theorem begins_word {x : String} (hx : x ∉ leaders) (hawait : x ≠ "await") (n : Nat) :
    (TokenKind.name x).Begins n := ⟨hx, fun h => absurd h hawait⟩

theorem Expr.reread_name {x : String} (hx : IsFree x) : (Expr.name x).Reread where
  begins := ⟨.name x, [], rfl, begins_name hx 8⟩
  readAt := readAt_of_atom fun _ room rest ahead =>
    .bind yields_peek (yields_word hx room rest ahead)

theorem Expr.readAt_int (n : Int64) : (Expr.literal (.int n)).ReadAt 8 [.int n] :=
  readAt_of_atom fun _ _ _ _ => .bind yields_peek (.bind yields_advance .pure)

theorem negate_neg {n : Int64} (h : n ≠ Int64.minValue) :
    negate (.literal (.int (-n))) = .literal (.int n) := by
  have hneg : -n ≠ Int64.minValue := fun heq => h (by rw [← Int64.neg_neg (a := n), heq]; rfl)
  simp only [negate, if_neg hneg, Int64.neg_neg]

/-- A minus and its operand. -/
theorem leads_minus {ks rest : List TokenKind} {ahead : List String} (h : e.ReadAt 7 ks)
    (hnext : grip (View.mk rest ahead).next ≤ 7) (depth room : Nat) :
    Leads (level (exprAt depth) 7 room) ⟨.op "-" :: (ks ++ rest), ahead⟩ ⟨rest, ahead⟩ fun q =>
      ∃ r, q = goOn (exprAt depth) 7 r (negate e) := by
  cases room with
  | zero => exact .bind (yields_eat_of_ne (by simp [View.next])) (.bind yields_eat leads_fail)
  | succ room =>
    refine .bind (yields_eat_of_ne (by simp [View.next])) (.bind yields_eat ?_)
    exact .bind (h.yields_prefixed depth room hnext) (.here ⟨0, rfl⟩)

theorem Expr.reread_literal {value : Literal} (h : value ≠ .int Int64.minValue) :
    (Expr.literal value).Reread := by
  cases value with
  | null =>
    exact ⟨⟨.name "null", [], rfl, begins_word (by decide) (by decide) _⟩,
      readAt_of_atom fun _ _ _ _ => .bind yields_peek (.bind yields_advance .pure)⟩
  | bool b =>
    refine ⟨⟨.name (if b then "true" else "false"), [], rfl, ?_⟩, ?_⟩
    · cases b
      · exact begins_word (by decide) (by decide) _
      · exact begins_word (by decide) (by decide) _
    · refine readAt_of_atom fun _ _ _ _ => .bind yields_peek ?_
      cases b
      · exact .bind yields_advance .pure
      · exact .bind yields_advance .pure
  | str s =>
    exact ⟨⟨.str s, [], rfl, trivial⟩,
      readAt_of_atom fun _ _ _ _ => .bind yields_peek (.bind yields_advance .pure)⟩
  | int n =>
    have hn : n ≠ Int64.minValue := fun heq => h (congrArg Literal.int heq)
    by_cases hneg : n < 0
    · have htight : tightness (.literal (.int n)) = 7 := if_pos hneg
      have hkinds : Expr.kinds (.literal (.int n)) = [.op "-", .int (-n)] := if_pos hneg
      refine ⟨?_, ?_⟩
      · rw [htight, hkinds]
        exact ⟨.op "-", _, rfl, .inr (by decide)⟩
      · rw [htight, hkinds, ← negate_neg hn]
        intro depth room rest ahead hnext
        exact leads_minus ((readAt_int (-n)).prefixed ⟨_, _, rfl, trivial⟩) hnext depth room
    · have htight : tightness (.literal (.int n)) = 8 := if_neg hneg
      have hkinds : Expr.kinds (.literal (.int n)) = [.int n] := if_neg hneg
      refine ⟨?_, ?_⟩
      · rw [htight, hkinds]
        exact ⟨_, _, rfl, trivial⟩
      · rw [htight, hkinds]
        exact readAt_int n

theorem Expr.reread_list {items : List Expr} (h : Expr.AllReread items) :
    (Expr.list items).Reread where
  begins := ⟨.op "[", _, rfl, .inl (by decide)⟩
  readAt := by
    refine readAt_of_atom fun depth room rest ahead => ?_
    simp only [Expr.kinds, List.cons_append, List.append_assoc, List.nil_append]
    exact .bind yields_peek
      (.bind yields_advance (.map (h.yields_separated (.inr rfl) depth room rest ahead)))

/-- The creation of an empty collection. -/
theorem readAt_creation {className : String} (hname : className ∉ keywords)
    (he : collection className none = pure e) :
    e.ReadAt 8 (.name "new" :: .name className :: parenthesized []) := by
  refine Expr.readAt_of_atom fun depth room rest ahead => ?_
  refine .bind yields_peek (.bind yields_advance (.bind (yields_identifier hname) ?_))
  refine .bind yields_expectOp (.bind (yields_check_of_eq rfl) (.bind .pure ?_))
  refine .bind yields_expectOp ?_
  rw [he]
  exact .pure

/-- The creation of a collection from a source. -/
theorem readAt_creation_of {className : String} {source : Expr} (hname : className ∉ keywords)
    (he : collection className (some source) = pure e) (h : source.Reread) :
    e.ReadAt 8 (.name "new" :: .name className :: parenthesized source.kinds) := by
  refine Expr.readAt_of_atom fun depth room rest ahead => ?_
  simp only [parenthesized, List.cons_append, List.append_assoc, List.nil_append]
  refine .bind yields_peek (.bind yields_advance (.bind (yields_identifier hname) ?_))
  have hnext : (View.mk (source.kinds ++ .op ")" :: rest) ahead).next ≠ .op ")" := by
    obtain ⟨k, ks, hks, hk⟩ := h.begins
    rw [hks]
    rintro rfl
    simp [TokenKind.Begins] at hk
  refine .bind yields_expectOp (.bind (yields_check_of_ne hnext) ?_)
  simp only [Bool.false_eq_true, if_false, map_eq_pure_bind, bind_assoc, pure_bind]
  refine .bind (h.yields depth room rfl) (.bind yields_expectOp ?_)
  rw [he]
  exact .pure

theorem begins_new : (TokenKind.name "new").Begins 8 := begins_word (by decide) (by decide) 8

theorem Expr.reread_emptySet : Expr.emptySet.Reread :=
  ⟨⟨.name "new", _, rfl, begins_new⟩, readAt_creation (by decide) rfl⟩

theorem Expr.reread_emptyMap : Expr.emptyMap.Reread :=
  ⟨⟨.name "new", _, rfl, begins_new⟩, readAt_creation (by decide) rfl⟩

theorem Expr.reread_setOf {source : Expr} (h : source.Reread) : (Expr.setOf source).Reread :=
  ⟨⟨.name "new", _, rfl, begins_new⟩, readAt_creation_of (by decide) rfl h⟩

theorem Expr.reread_mapOf {source : Expr} (h : source.Reread) : (Expr.mapOf source).Reread :=
  ⟨⟨.name "new", _, rfl, begins_new⟩, readAt_creation_of (by decide) rfl h⟩

/-! ### Operators -/

theorem Expr.reread_not (h : e.Reread) : (Expr.unary .not e).Reread where
  begins := ⟨.op "!", _, rfl, .inr ⟨Nat.lt_succ_self 7, by decide⟩⟩
  readAt := by
    intro depth room rest ahead hnext
    cases room with
    | zero => exact .bind yields_eat leads_fail
    | succ room =>
      have hoperand := (h.enclosed (by decide) (by decide)).yields_prefixed depth room hnext
      exact .bind yields_eat (.bind hoperand (.here ⟨0, rfl⟩))

theorem Expr.reread_negate (h : e.Reread) (hint : ¬e.IsInteger) :
    (Expr.unary .negate e).Reread where
  begins := ⟨.op "-", _, rfl, .inr ⟨Nat.lt_succ_self 7, by decide⟩⟩
  readAt := by
    have hnegate : negate e = .unary .negate e := by
      unfold negate
      split
      · exact absurd trivial hint
      · rfl
    intro depth room rest ahead hnext
    have hminus := leads_minus (h.enclosed (by decide) (by decide)) hnext depth room
    rwa [hnegate] at hminus

/-- An operator and its operands, on the level of the operator. -/
theorem readAt_operator {β : Type} {n : Nat} {op : String} {b : β} {operators : List (String × β)}
    {combine : β → Expr → Expr → Expr} (h1 : 1 ≤ n) (h6 : n ≤ 6) (hop : grip (.op op) = n)
    (hlookup : operators.lookup op = some b)
    (hgoOn : ∀ nested room x, goOn nested n room x =
      chainRest (oneOf operators) (level nested (n + 1)) combine room x)
    (hl : lhs.Reread) (hr : rhs.Reread) :
    (combine b lhs rhs).ReadAt n
      (enclosed n lhs lhs.kinds ++ .op op :: enclosed (n + 1) rhs rhs.kinds) := by
  intro depth room rest ahead hnext
  have hlhs := hl.enclosed h1 (Nat.le_trans h6 (by decide))
  have hrhs := hr.enclosed (n := n + 1) (by omega) (by omega)
  simp only [List.append_assoc, List.cons_append]
  refine (hlhs depth room _ ahead ?_).trans ?_
  · exact Nat.le_of_eq hop
  · rintro q ⟨r, rfl⟩
    simp only [hgoOn]
    refine leads_chainRest (yields_oneOf hlookup) (fun room => ?_) r
    exact hrhs.yields (by omega) (by omega) depth room (Nat.lt_succ_of_le hnext)

/-- The left operand, with whatever follows it. -/
theorem begins_operator {n : Nat} (hl : lhs.Reread) (ks : List TokenKind) :
    BeginsAt n (enclosed n lhs lhs.kinds ++ ks) := (hl.beginsAt_enclosed n).append ks

theorem Expr.reread_binary (op : BinaryOp) (hl : lhs.Reread) (hr : rhs.Reread) :
    (Expr.binary op lhs rhs).Reread where
  begins := begins_operator hl _
  readAt := by
    cases op with
    | eq | ne =>
      exact readAt_operator (n := 3) (by decide) (by decide) rfl rfl (fun _ _ _ => rfl) hl hr
    | lt | le | gt | ge =>
      exact readAt_operator (n := 4) (by decide) (by decide) rfl rfl (fun _ _ _ => rfl) hl hr
    | add | sub =>
      exact readAt_operator (n := 5) (by decide) (by decide) rfl rfl (fun _ _ _ => rfl) hl hr
    | mul | div | rem =>
      exact readAt_operator (n := 6) (by decide) (by decide) rfl rfl (fun _ _ _ => rfl) hl hr

theorem Expr.reread_logical (op : LogicalOp) (hl : lhs.Reread) (hr : rhs.Reread) :
    (Expr.logical op lhs rhs).Reread := by
  cases op with
  | and =>
    exact ⟨begins_operator hl _,
      readAt_operator (n := 2) (by decide) (by decide) rfl rfl (fun _ _ _ => rfl) hl hr⟩
  | or =>
    exact ⟨begins_operator hl _,
      readAt_operator (n := 1) (by decide) (by decide) rfl rfl (fun _ _ _ => rfl) hl hr⟩

/-! ### Calls -/

/-- A call of a name. -/
theorem readAt_named (hf : IsFree f) (hargs : Expr.AllReread args)
    (hcall : ∀ p, call (.name f) args p = .ok e) :
    e.ReadAt 8 (.name f :: parenthesized (commas (Expr.eachKinds args))) := by
  intro depth room rest ahead _
  refine .bind (.bind yields_peek (yields_word hf room _ ahead)) ?_
  exact leads_call hargs hcall depth room rest ahead

/-- A call of a member of a built-in object. -/
theorem readAt_member {object member : String} {function : Builtin} (hargs : Expr.AllReread args)
    (hobject : object = "Math" ∨ object = "console")
    (hmember : memberFunction? object member = some function) :
    (Expr.builtin function args).ReadAt 8
      (.name object :: .op "." :: .name member ::
        parenthesized (commas (Expr.eachKinds args))) := by
  refine Expr.readAt_of_atom fun depth room rest ahead => .bind yields_peek ?_
  have hread : Yields (memberCall (exprAt depth) object room)
      ⟨.name object :: .op "." :: .name member ::
        (parenthesized (commas (Expr.eachKinds args)) ++ rest), ahead⟩ ⟨rest, ahead⟩
      (.builtin function args) := by
    refine .bind yields_advance (.bind yields_expectOp (leads_position fun p => ?_))
    refine .bind (yields_identifier List.not_mem_nil) ?_
    rw [hmember]
    exact Yields.map (hargs.yields_arguments depth room rest ahead)
  rcases hobject with rfl | rfl
  · exact hread
  · exact hread

theorem Expr.reread_call (hf : IsFreeFunction f) (hrange : f ≠ "range")
    (hargs : Expr.AllReread args) :
    (Expr.call f args).Reread where
  begins := ⟨.name f, _, rfl, begins_name hf.1 8⟩
  readAt := by
    refine readAt_named hf.1 hargs fun p => ?_
    simp only [Braced.call, hf.2.2]
    split
    · exact absurd rfl hf.2.1
    · exact absurd rfl hrange
    · rfl

theorem isFree_bracedName (c : Capability) : IsFree c.bracedName := by
  obtain d | _ | _ | _ := c
  · cases d <;> exact ⟨by decide, by decide, by decide⟩
  all_goals exact ⟨by decide, by decide, by decide⟩

theorem call_capability {c : Capability} (harity : args.length = c.arity) (p : Position) :
    call (.name c.bracedName) args p = .ok (.capability c args) := by
  simp only [call, Capability.ofBraced?_bracedName, checkArity, if_pos harity]
  rfl

theorem Expr.reread_capability {c : Capability} (harity : args.length = c.arity)
    (hargs : Expr.AllReread args) : (Expr.capability c args).Reread := by
  have hcall := readAt_named (isFree_bracedName c) hargs (call_capability harity)
  have hbegins := begins_name (isFree_bracedName c)
  cases c with
  | move d =>
    refine ⟨⟨.name "await", _, rfl, by decide, fun _ => Nat.lt_succ_self 7⟩, ?_⟩
    intro depth room rest ahead hnext
    have hnot : (View.mk (Expr.kinds (.capability (.move d) args) ++ rest) ahead).next ≠ .op "!" :=
      nofun
    have hminus :
        (View.mk (Expr.kinds (.capability (.move d) args) ++ rest) ahead).next ≠ .op "-" :=
      nofun
    have hmove := hcall.prefixed ⟨_, _, rfl, hbegins 8⟩
    cases room with
    | zero =>
      refine .bind (yields_eat_of_ne hnot) (.bind (yields_eat_of_ne hminus) ?_)
      exact .bind yields_eat leads_fail
    | succ room =>
      refine .bind (yields_eat_of_ne hnot) (.bind (yields_eat_of_ne hminus) (.bind yields_eat ?_))
      exact (hmove.yields_prefixed depth room hnext).trans fun q hq => .here ⟨0, hq⟩
  | getPosition | isWall | isExit => exact ⟨⟨_, _, rfl, hbegins 8⟩, hcall⟩

/-- What follows an expression without operators, or one in parentheses. -/
theorem readAt_suffixed {object : Expr} {k : TokenKind} {ks : List TokenKind}
    (h : object.Reread) (hk : grip k = 8)
    (hsuffix : ∀ depth room rest ahead, grip (View.mk rest ahead).next ≤ 8 →
      Leads (suffixes (exprAt depth) room object) ⟨k :: (ks ++ rest), ahead⟩ ⟨rest, ahead⟩ fun q =>
        ∃ r, q = suffixes (exprAt depth) r e) :
    e.ReadAt 8 (enclosed 8 object object.kinds ++ k :: ks) := by
  intro depth room rest ahead hnext
  rw [List.append_assoc, List.cons_append]
  refine (h.enclosed (by decide) (Nat.le_refl 8) depth room _ ahead ?_).trans ?_
  · exact Nat.le_of_eq hk
  · rintro q ⟨r, rfl⟩
    exact hsuffix depth r rest ahead hnext

theorem Expr.reread_method {receiver : Expr} {m : Method} (hm : m.Printable args.length)
    (hreceiver : receiver.Reread) (hargs : Expr.AllReread args) :
    (Expr.method receiver m args).Reread where
  begins := begins_operator hreceiver _
  readAt := by
    have hmethod : methodFor m.bracedName args.length = m := by
      cases m with
      | copy => rw [show args.length = 0 from hm]; rfl
      | other name => exact hm
      | _ => rfl
    refine readAt_suffixed hreceiver rfl fun depth room rest ahead _ => ?_
    refine (leads_member (.inr rfl) receiver depth room).trans ?_
    rintro q ⟨r, rfl⟩
    refine leads_call hargs (fun p => ?_) depth r rest ahead
    rw [Braced.call, hmethod]

theorem Expr.reread_index {object i : Expr} (hobject : object.Reread) (hi : i.Reread) :
    (Expr.index object i).Reread where
  begins := begins_operator hobject _
  readAt := by
    refine readAt_suffixed hobject rfl fun depth room rest ahead _ => ?_
    rw [List.append_assoc, List.cons_append, List.nil_append]
    refine leads_suffixes ?_ (fun r => ?_) room
    · exact Nat.le_refl 8
    · refine .bind yields_peek (leads_descend fun _ _ => .bind yields_advance ?_)
      exact .bind (hi.yields depth _ rfl) (.bind yields_expectOp (.here rfl))

theorem Expr.reread_attribute {object : Expr} {key : String} (hkey : key ≠ "length")
    (hobject : object.Reread) : (Expr.attribute object key).Reread where
  begins := begins_operator hobject _
  readAt := readAt_suffixed hobject rfl fun depth room _ _ _ =>
    leads_member (.inl hkey) object depth room

/-- The length of a value is written like an attribute. -/
theorem Expr.reread_length {target : Expr} (h : target.Reread) :
    (Expr.builtin .len [target]).Reread where
  begins := begins_operator h _
  readAt := by
    refine readAt_suffixed h rfl fun depth room rest ahead hnext => ?_
    refine leads_suffixes ?_ (fun r => ?_) room
    · exact Nat.le_refl 8
    · refine .bind yields_peek (leads_descend fun _ _ => .bind yields_advance ?_)
      refine .bind (yields_identifier List.not_mem_nil) (.bind (yields_check_of_ne ?_) (.here rfl))
      intro hopen
      have hopens : grip (.op "(") ≤ 8 := by
        rw [← hopen]
        exact hnext
      exact absurd hopens (by decide)

theorem Expr.reread_builtin {function : Builtin} (hlen : function = .len → args.length = 1)
    (hargs : Expr.AllReread args) : (Expr.builtin function args).Reread := by
  cases function with
  | len =>
    obtain ⟨target, rfl⟩ := List.length_eq_one_iff.1 (hlen rfl)
    exact reread_length (hargs target List.mem_cons_self)
  | str =>
    exact ⟨⟨.name "String", _, rfl, begins_word (by decide) (by decide) 8⟩,
      readAt_named ⟨by decide, by decide, by decide⟩ hargs fun _ => rfl⟩
  | range =>
    exact ⟨⟨.name "range", _, rfl, begins_word (by decide) (by decide) 8⟩,
      readAt_named ⟨by decide, by decide, by decide⟩ hargs fun _ => rfl⟩
  | abs =>
    exact ⟨⟨.name "Math", _, rfl, begins_word (by decide) (by decide) 8⟩,
      readAt_member hargs (.inl rfl) rfl⟩
  | min =>
    exact ⟨⟨.name "Math", _, rfl, begins_word (by decide) (by decide) 8⟩,
      readAt_member hargs (.inl rfl) rfl⟩
  | max =>
    exact ⟨⟨.name "Math", _, rfl, begins_word (by decide) (by decide) 8⟩,
      readAt_member hargs (.inl rfl) rfl⟩
  | print =>
    exact ⟨⟨.name "console", _, rfl, begins_word (by decide) (by decide) 8⟩,
      readAt_member hargs (.inr rfl) rfl⟩

/-! ### All expressions -/

mutual

/-- Every printable expression is read from its tokens. -/
theorem Expr.reread : (e : Expr) → e.WellFormed → e.Printable → e.Reread
  | .literal _, hwf, _ => Expr.reread_literal hwf
  | .name _, _, hp => Expr.reread_name hp
  | .list items, hwf, hp => Expr.reread_list (Expr.allReread items hwf hp)
  | .emptySet, _, _ => Expr.reread_emptySet
  | .setOf source, hwf, hp => Expr.reread_setOf (Expr.reread source hwf hp)
  | .emptyMap, _, _ => Expr.reread_emptyMap
  | .mapOf source, hwf, hp => Expr.reread_mapOf (Expr.reread source hwf hp)
  | .unary .not operand, hwf, hp => Expr.reread_not (Expr.reread operand hwf hp)
  | .unary .negate operand, hwf, hp => Expr.reread_negate (Expr.reread operand hwf.2 hp) hwf.1
  | .binary op lhs rhs, hwf, hp =>
    Expr.reread_binary op (Expr.reread lhs hwf.1 hp.1) (Expr.reread rhs hwf.2 hp.2)
  | .logical op lhs rhs, hwf, hp =>
    Expr.reread_logical op (Expr.reread lhs hwf.1 hp.1) (Expr.reread rhs hwf.2 hp.2)
  | .call _ args, hwf, hp => Expr.reread_call hp.1 hwf.2.1 (Expr.allReread args hwf.2.2 hp.2)
  | .builtin _ args, hwf, hp => Expr.reread_builtin hp.1 (Expr.allReread args hwf hp.2)
  | .capability _ args, hwf, hp => Expr.reread_capability hwf.1 (Expr.allReread args hwf.2 hp)
  | .method receiver _ args, hwf, hp =>
    Expr.reread_method hp.1 (Expr.reread receiver hwf.2.1 hp.2.1)
      (Expr.allReread args hwf.2.2 hp.2.2)
  | .index object i, hwf, hp =>
    Expr.reread_index (Expr.reread object hwf.1 hp.1) (Expr.reread i hwf.2 hp.2)
  | .attribute object _, hwf, hp => Expr.reread_attribute hp.1 (Expr.reread object hwf.2 hp.2)

theorem Expr.allReread : (es : List Expr) → Expr.AllWellFormed es → Expr.AllPrintable es →
    Expr.AllReread es
  | [], _, _ => fun _ he => nomatch he
  | e :: es, hwf, hp =>
    List.forall_mem_cons.2 ⟨Expr.reread e hwf.1 hp.1, Expr.allReread es hwf.2 hp.2⟩

end

end Labyrinth
