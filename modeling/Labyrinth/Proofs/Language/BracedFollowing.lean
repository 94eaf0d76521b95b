import Labyrinth.Proofs.Language.BracedLocality
import Labyrinth.Proofs.Language.Following

/-!
# Longer programs of the braced dialect

A program of the braced dialect that is accepted ends with a semicolon or a brace, and no statement
reads further. When other tokens follow, all of its statements are read as before, except that an
`else` would belong to the last one.

## Main results

* `follows_statementAt`: statements are read as before when tokens follow behind the program.
* `follows_furtherArms`: conditions behind `else`, arm by arm.
-/

namespace Labyrinth.Braced

open Labyrinth.Parser Labyrinth.KindRel

/-- The tokens that are left on the second stream go on where those on the first one end. -/
def ContinuedBy (zs : List TokenKind) : KindRel := fun xs ys => ys = xs ++ zs ∧ .eof ∉ xs

variable {E : List String} {zs : List TokenKind} {k : TokenKind} {m n : Nat}

namespace ContinuedBy

theorem passes (k : TokenKind) : Passes k (ContinuedBy zs) (ContinuedBy zs) := by
  rintro xs ys ⟨rfl, hxs⟩
  exact ⟨xs ++ zs, rfl, rfl, fun hmem => hxs (List.mem_cons_of_mem k hmem)⟩

theorem headD_eq {xs ys : List TokenKind} (h : ContinuedBy zs xs ys) (hne : xs.headD .eof ≠ .eof) :
    xs.headD .eof = ys.headD .eof := by
  obtain ⟨rfl, -⟩ := h
  cases xs with
  | nil => exact absurd rfl hne
  | cons k xs => rfl

theorem ne_eof {xs ys : List TokenKind} (h : ContinuedBy zs xs ys) (hne : xs.headD .eof ≠ .eof) :
    ys.headD .eof ≠ .eof := h.headD_eq hne ▸ hne

/-- At the end of the first stream there is nothing left on it. -/
theorem eq_of_eof {xs ys : List TokenKind} (h : ContinuedBy zs xs ys)
    (hend : xs.headD .eof = .eof) : xs = [] ∧ ys = zs := by
  obtain ⟨rfl, hxs⟩ := h
  cases xs with
  | nil => exact ⟨rfl, rfl⟩
  | cons k xs => exact absurd (hend ▸ List.mem_cons_self) hxs

/-- What a local parser has read. -/
theorem local_below {us xs ys : List TokenKind} (h : (ContinuedBy zs).below m n (us ++ xs) ys) :
    ∃ ys', ys = us ++ ys' ∧ (ContinuedBy zs).below m n xs ys' ∧
      (xs.headD .eof ≠ .eof → Alike pivot xs ys') := by
  obtain ⟨⟨rfl, hxs⟩, hm, hn⟩ := h
  have hrest : ContinuedBy zs xs (xs ++ zs) :=
    ⟨rfl, fun hmem => hxs (List.mem_append_right us hmem)⟩
  rw [List.append_assoc, List.length_append] at hn
  rw [List.length_append] at hm
  refine ⟨xs ++ zs, List.append_assoc .., ⟨hrest, by omega, by omega⟩, fun hne => ?_⟩
  exact ⟨hrest.headD_eq hne, nofun⟩

end ContinuedBy

/-! ### The end of the first stream -/

theorem refuses_expr (room : Nat) : Refuses .eof (expr room) := by
  have hpostfixed (nested : Nat → Parser Expr) (room : Nat) :
      Refuses .eof (postfixed nested room) := .bind (.peek (.of_error nofun))
  have hprefixed (nested : Nat → Parser Expr) (room : Nat) :
      Refuses .eof (prefixed nested room) := by
    cases room with
    | zero => exact .eat nofun (.eat nofun (.eat nofun (hpostfixed nested 0)))
    | succ room => exact .eat nofun (.eat nofun (.eat nofun (hpostfixed nested _)))
  exact .descend (.chain (.chain (.chain (.chain (.chain (.chain (hprefixed _ _)))))))

theorem refuses_assignment (room : Nat) : Refuses .eof (assignment room) :=
  .position fun _ => .bind (refuses_expr room)

theorem refuses_statement (room : Nat) (inner : Surroundings → Parser (List Stmt))
    (around : Surroundings) : Refuses .eof (statement room inner around) :=
  .peek (.bind (refuses_assignment room))

theorem refuses_statementAt (room : Nat) (around : Surroundings) :
    Refuses .eof (statementAt room around) := by
  cases room with
  | zero => exact refuses_statement _ _ _
  | succ room => exact refuses_statement _ _ _

/-! ### Parts of statements -/

section Parts

variable {α β : Type} {p : Parser α} {f g : α → Parser β} {R : β → β → KindRel}

/-- A local parser before one that fails at the end. -/
theorem follows_local (hp : Local pivot 0 p) (hrefuses : ∀ a, Refuses .eof (f a))
    (hf : ∀ a, Follows E ((ContinuedBy zs).below m n) R (f a) (g a)) :
    Follows E ((ContinuedBy zs).below m n) R (p >>= f) (p >>= g) :=
  .bind_local hp hrefuses (fun _ _ _ => ContinuedBy.local_below) hf

/-- A local parser before a semicolon. -/
theorem follows_endStatement (hp : Local pivot 0 p) (g : α → β) :
    Follows E ((ContinuedBy zs).below (m + 1) (n + 1)) (same ((ContinuedBy zs).below m n))
      (do let a ← p; endStatement; return g a) (do let a ← p; endStatement; return g a) :=
  follows_local hp (fun _ => .bind (.expectOp nofun)) fun _ =>
    .expectOp (ContinuedBy.passes _).below (.pure fun _ _ h => ⟨rfl, h⟩)

end Parts

/-! ### Statements with bodies -/

/-- A round of the loop that reads the statements between braces. -/
def bracedRound (inner : Surroundings → Parser (List Stmt)) (around : Surroundings) :
    Parser (Next (List Stmt)) := do
  match ← peek with
  | .op "\x7d" => return .stop
  | .eof => failFound (.expected "\x7d")
  | _ => return .more (← inner around)

section Blocks

variable (room : Nat) {inner : Surroundings → Parser (List Stmt)}
  (hinner : ∀ around m n, Follows E
    (fun xs ys => (ContinuedBy zs).below (m + 1) (n + 1) xs ys ∧ xs.headD .eof ≠ .eof)
    (same ((ContinuedBy zs).below m n)) (inner around) (inner around))
include hinner

theorem follows_bracedRound (around : Surroundings) (m n : Nat) : Follows E
    (fun xs ys => (ContinuedBy zs).below (m + 1) (n + 1) xs ys ∧ xs.headD .eof ≠ .op "\x7d")
    (fun a b xs ys => (∃ x y, a = .more x ∧ b = .more y ∧ x = y) ∧ (ContinuedBy zs).below m n xs ys)
    (bracedRound inner around) (bracedRound inner around) := by
  refine .of_refuses (k := .eof) (.peek (.of_error nofun)) ?_
  refine .peek (fun xs ys hxy => hxy.1.1.1.headD_eq hxy.2) fun k => ?_
  split
  · exact .pure fun xs ys hxy => absurd hxy.2 hxy.1.1.2
  · exact .of_error nofun
  · refine .weaken (.map (hinner around m n) fun a b xs ys hxy => ?_) fun xs ys hxy => ?_
    · exact ⟨⟨a, b, rfl, rfl, hxy.1⟩, hxy.2⟩
    · exact ⟨hxy.1.1.1, hxy.1.2⟩

theorem follows_braced (around : Surroundings) (m n : Nat) :
    Follows E ((ContinuedBy zs).below (m + 1) (n + 1)) (same ((ContinuedBy zs).below m n))
      (braced room inner around) (braced room inner around) := by
  have hheads (xs ys : List TokenKind) (hxy : ContinuedBy zs xs ys)
      (hhead : xs.headD .eof = .op "\x7d") : ys.headD .eof = .op "\x7d" := by
    rw [← hxy.headD_eq (hhead ▸ nofun), hhead]
  have hcollect := @Follows.collect _ E (ContinuedBy zs) (bracedRound inner around)
    (· = .op "\x7d") _ (fun s hs => peek_of_eq hs) (follows_bracedRound hinner around) hheads m n
  have hstmts : Follows E ((ContinuedBy zs).below m n) (same ((ContinuedBy zs).below m n))
      (collect (bracedRound inner around)) (collect (bracedRound inner around)) :=
    hcollect.mono (fun _ _ => id) fun as bs _ _ h => ⟨List.forall₂_eq_eq_eq ▸ h.1, h.2.1⟩
  refine .expectOp (ContinuedBy.passes _).below (.descend (.bind_same hstmts fun stmts => ?_))
  exact .expectOp (ContinuedBy.passes _).within (.pure fun _ _ h => ⟨rfl, h⟩)

variable (hrefuses : ∀ around, Refuses .eof (inner around))
include hrefuses

omit hinner in
theorem refuses_body (around : Surroundings) : Refuses .eof (body room inner around) :=
  .peek (f := fun k => if (k == .op "\x7b") = true then braced room inner around else do
    descend room
    inner around) (.descend (hrefuses around))

theorem follows_body (around : Surroundings) (m n : Nat) :
    Follows E ((ContinuedBy zs).below m n) (same ((ContinuedBy zs).below m n))
      (body room inner around) (body room inner around) := by
  refine .of_refuses (refuses_body room hrefuses around) ?_
  refine .check (fun xs ys hxy => hxy.1.1.headD_eq hxy.2) ?_ ?_
  · exact (follows_braced room hinner around m n).weaken fun xs ys h => below_succ xs ys h.1.1
  · refine .descend ((hinner around m n).weaken fun xs ys h => ?_)
    exact ⟨below_succ xs ys h.1.1, h.1.2⟩

omit hrefuses in
theorem follows_function (m n : Nat) :
    Follows E (((ContinuedBy zs).below (m + 1) (n + 1)).starting (.name "function"))
      (same ((ContinuedBy zs).below m n)) (function room inner) (function room inner) := by
  refine .advance nofun (ContinuedBy.passes _).below ?_
  refine .bind_same (.functionName fun x => (ContinuedBy.passes _).within) fun name => ?_
  have hbody := (follows_braced room hinner .function m n).weaken below_succ
  refine follows_local (local_parameters _) (fun _ => .bind (.bind (.expectOp nofun)))
    fun params => ?_
  exact .map hbody fun _ _ _ _ h => ⟨h.1 ▸ rfl, h.2⟩

theorem follows_forEach (around : Surroundings) (m n : Nat) :
    Follows E (((ContinuedBy zs).below (m + 1) (n + 1)).starting (.name "for"))
      (same ((ContinuedBy zs).below m n)) (forEach room inner around)
      (forEach room inner around) := by
  have hbody := follows_body room hinner hrefuses around.loop m n
  have hrest : Follows E ((ContinuedBy zs).below m n) (same ((ContinuedBy zs).below m n)) (do
      let names ← pattern
      expectWord "of"
      let iterable ← expr room
      expectOp ")"
      return Stmt.forEach names iterable (← body room inner around.loop)) (do
      let names ← pattern
      expectWord "of"
      let iterable ← expr room
      expectOp ")"
      return Stmt.forEach names iterable (← body room inner around.loop)) := by
    refine follows_local local_pattern (fun _ => .bind (.expectWord nofun)) fun names => ?_
    refine follows_local (local_expectWord _) (fun _ => .bind (refuses_expr room)) fun _ => ?_
    refine follows_local (local_expr room) (fun _ => .bind (.expectOp nofun)) fun iterable => ?_
    refine .expectOp (ContinuedBy.passes _).within ?_
    exact .map hbody fun _ _ _ _ h => ⟨h.1 ▸ rfl, h.2⟩
  unfold forEach
  refine .advance nofun (ContinuedBy.passes _).below (.expectOp (ContinuedBy.passes _).within ?_)
  refine .of_refuses (k := .eof) (.eat nofun (.eat nofun (.of_error nofun))) ?_
  refine .eat nofun ((ContinuedBy.passes _).within.weaken fun _ _ => And.left) ?_ hrest ?_
  · intro xs ys h hy
    exact (h.1.1.headD_eq h.2).trans hy
  · refine .eat nofun ((ContinuedBy.passes _).within.weaken fun _ _ h => h.1.1) ?_ hrest ?_
    · intro xs ys h hy
      exact (h.1.1.1.headD_eq h.1.2).trans hy
    · exact .of_error nofun

theorem follows_whileLoop (around : Surroundings) (m n : Nat) :
    Follows E (((ContinuedBy zs).below (m + 1) (n + 1)).starting (.name "while"))
      (same ((ContinuedBy zs).below m n)) (whileLoop room inner around)
      (whileLoop room inner around) := by
  have hbody := follows_body room hinner hrefuses around.loop m n
  refine .advance nofun (ContinuedBy.passes _).below ?_
  refine follows_local (local_condition room) (fun _ => .bind (refuses_body room hrefuses _))
    fun test => ?_
  exact .map hbody fun _ _ _ _ h => ⟨h.1 ▸ rfl, h.2⟩

theorem follows_guarded (around : Surroundings) (m n : Nat) :
    Follows E (((ContinuedBy zs).below (m + 1) (n + 1)).starting (.name "if"))
      (same ((ContinuedBy zs).below m n)) (guarded room inner around)
      (guarded room inner around) := by
  have hbody := follows_body room hinner hrefuses around m n
  refine .advance nofun (ContinuedBy.passes _).below ?_
  refine follows_local (local_condition room) (fun _ => .bind (refuses_body room hrefuses _))
    fun test => ?_
  exact .map hbody fun _ _ _ _ h => ⟨h.1 ▸ rfl, h.2⟩

end Blocks

/-! ### Conditional statements -/

section Conditional

variable (room : Nat) (inner : Surroundings → Parser (List Stmt)) (around : Surroundings)

/-- A round of the loop that reads the arms of a conditional statement. -/
def armsRound : Parser (Next (Expr × List Stmt)) := do
  let arm ← guarded room inner around
  if (← check (.name "else")) && (← peekSecond) == .name "if" then
    advance
    return .more arm
  else
    return .last arm

/-- Reads the last arm of a conditional statement, and yields all of it. -/
def lastArm (arms : List (Expr × List Stmt)) : Parser Stmt := do
  let last ← if ← eat (.name "else") then some <$> body room inner around else pure none
  return .cond (Arms.ofList arms last)

/-- Reads the arms of a conditional statement that follow some others, and yields all of it. -/
def furtherArms (arms : List (Expr × List Stmt)) : Parser Stmt := do
  let further ← collect (armsRound room inner around)
  lastArm room inner around (arms ++ further)

/-- Reads an arm, and whatever follows it. -/
def nextArm (arms : List (Expr × List Stmt)) : Parser Stmt := do
  let arm ← guarded room inner around
  if ← eat (.name "else") then
    if (← peek) == .name "if" then
      furtherArms room inner around (arms ++ [arm])
    else
      return .cond (Arms.ofList (arms ++ [arm]) (some (← body room inner around)))
  else
    return .cond (Arms.ofList (arms ++ [arm]) none)

theorem conditional_eq : conditional room inner around = furtherArms room inner around [] := rfl

variable {room inner around}

theorem armsRound_of_ok {s s₁ : TokenStream} {arm : Expr × List Stmt}
    (h : guarded room inner around s = .ok (arm, s₁)) :
    armsRound room inner around s =
      if s₁.current.kind = .name "else" ∧ s₁.second.kind = .name "if" then
        .ok (.more arm, s₁.advance)
      else .ok (.last arm, s₁) := by
  rw [armsRound, stateBind_of_ok h]
  refine (stateBind_of_ok rfl).trans ((stateBind_of_ok rfl).trans ?_)
  by_cases hmore : s₁.current.kind = .name "else" ∧ s₁.second.kind = .name "if"
  · rw [if_pos hmore, hmore.1, hmore.2]
    rfl
  · rw [if_neg hmore, if_neg]
    · rfl
    · rw [Bool.and_eq_true, beq_iff_eq, beq_iff_eq]
      exact hmore

/-- The loop may as well be left after every arm. -/
theorem furtherArms_eq (hgrows : Grows (guarded room inner around)) {s : TokenStream}
    {xs : List TokenKind} (hs : s.Reads xs) (arms : List (Expr × List Stmt)) :
    furtherArms room inner around arms s = nextArm room inner around arms s := by
  unfold nextArm
  cases harm : guarded room inner around s with
  | error e =>
    have hround : armsRound room inner around s = .error e := stateBind_of_error harm
    rw [stateBind_of_error harm, furtherArms]
    exact stateBind_of_error (Yields.collect_error hround)
  | ok r =>
    obtain ⟨arm, s₁⟩ := r
    have hround := armsRound_of_ok harm
    have hbecomes := hgrows s xs arm s₁ hs harm
    obtain ⟨xs₁, hs₁⟩ := hbecomes.reads
    rw [stateBind_of_ok harm, furtherArms]
    by_cases hmore : s₁.current.kind = .name "else" ∧ s₁.second.kind = .name "if"
    · have hlt : s₁.advance.left < s.left := by
        cases xs₁ with
        | nil => cases hs₁.current_kind.symm.trans hmore.1
        | cons k xs₁ =>
          rw [hs₁.advance.left_eq]
          exact Nat.lt_of_lt_of_le (Nat.lt_of_succ_le hs₁.left_eq.ge) hbecomes.left_le
      have hsecond : s₁.advance.current.kind = .name "if" := s₁.current_advance ▸ hmore.2
      rw [if_pos hmore] at hround
      have hcollect : collect (armsRound room inner around) s = (do
          let (as, s') ← collect (armsRound room inner around) s₁.advance
          return (arm :: as, s')) := by
        rw [collect, collectFrom, hround]
        exact if_pos hlt
      refine Eq.trans ?_ (eat_of_eq hmore.1).symm
      refine Eq.trans ?_ (peek_of_eq hsecond).symm
      rw [if_pos (by rfl), furtherArms]
      cases hrest : collect (armsRound room inner around) s₁.advance with
      | error e =>
        rw [hrest] at hcollect
        rw [stateBind_of_error hcollect, stateBind_of_error hrest]
      | ok r =>
        rw [hrest] at hcollect
        rw [stateBind_of_ok hcollect, stateBind_of_ok hrest, List.append_assoc]
        rfl
    · rw [if_neg hmore] at hround
      have hcollect : collect (armsRound room inner around) s = .ok ([arm], s₁) := by
        rw [collect, collectFrom, hround]
      rw [stateBind_of_ok hcollect, lastArm]
      by_cases helse : s₁.current.kind = .name "else"
      · have hsecond : ¬s₁.advance.current.kind = .name "if" :=
          s₁.current_advance ▸ fun h => hmore ⟨helse, h⟩
        refine (eat_of_eq helse).trans (Eq.trans ?_ (eat_of_eq helse).symm)
        refine Eq.trans ?_ (peek_of_eq rfl).symm
        rw [if_pos rfl, if_neg (by rwa [beq_iff_eq]), bind_map_left]
      · refine (eat_of_ne helse).trans (Eq.trans ?_ (eat_of_ne helse).symm)
        rfl

theorem grows_furtherArms (hguarded : Grows (guarded room inner around))
    (hbody : Grows (body room inner around)) (arms : List (Expr × List Stmt)) :
    Grows (furtherArms room inner around arms) := by
  have hcheck : Local pivot 0 (check (.name "else")) := local_check _
  have hround : Grows (armsRound room inner around) := by
    refine hguarded.bind fun arm => (Grows.of_local hcheck).bind fun b => ?_
    refine Grows.bind (fun s xs k s' hs heq => ?_) fun k => ?_
    · cases heq
      exact .refl hs
    · split
      · exact Follows.grows_advance (.pure _)
      · exact .pure _
  refine hround.collect.bind fun further => Follows.grows_eat ?_ (.pure _)
  exact (hbody.bind fun stmts => .pure (some stmts)).bind fun last => .pure _

/-- An `else` comes next on the first stream if it does so on the second one. -/
theorem ContinuedBy.else_of_else {xs ys : List TokenKind} (h : ContinuedBy zs xs ys)
    (helse : zs.headD .eof ≠ .name "else") (hy : ys.headD .eof = .name "else") :
    xs.headD .eof = .name "else" := by
  by_cases hend : xs.headD .eof = .eof
  · obtain ⟨-, rfl⟩ := h.eq_of_eof hend
    exact absurd hy helse
  · exact (h.headD_eq hend).trans hy

variable (hinner : ∀ around m n, Follows E
    (fun xs ys => (ContinuedBy zs).below (m + 1) (n + 1) xs ys ∧ xs.headD .eof ≠ .eof)
    (same ((ContinuedBy zs).below m n)) (inner around) (inner around))
  (hrefuses : ∀ around, Refuses .eof (inner around))
  (helse : zs.headD .eof ≠ .name "else")
include hinner hrefuses helse

theorem follows_furtherArms (arms : List (Expr × List Stmt)) (m n : Nat) :
    Follows E (((ContinuedBy zs).below (m + 1) (n + 1)).starting (.name "if"))
      (same ((ContinuedBy zs).below m n)) (furtherArms room inner around arms)
      (furtherArms room inner around arms) := by
  have hguarded := follows_guarded room hinner hrefuses around
  have hbody := follows_body room hinner hrefuses around
  have hgrows := grows_furtherArms (hguarded 0 0).grows (hbody 0 0).grows
  induction m using Nat.strong_induction_on generalizing n arms with
  | _ m ih =>
    have hnext : Follows E (((ContinuedBy zs).below (m + 1) (n + 1)).starting (.name "if"))
        (same ((ContinuedBy zs).below m n)) (nextArm room inner around arms)
        (nextArm room inner around arms) := by
      refine .bind_same (hguarded m n) fun arm => ?_
      refine .eat nofun (ContinuedBy.passes _).within (fun xs ys h => h.1.else_of_else helse) ?_
        (.pure fun _ _ h => ⟨rfl, h.1⟩)
      refine .of_refuses (k := .eof) (.peek (.bind (refuses_body room hrefuses around))) ?_
      refine .peek (fun xs ys h => h.1.1.headD_eq h.2) fun k => ?_
      split
      · rename_i hk
        obtain rfl : k = .name "if" := beq_iff_eq.1 hk
        cases m with
        | zero => exact .of_empty (hgrows _) fun xs ys h => absurd h.1.1.2.1 (Nat.not_lt_zero _)
        | succ m =>
          cases n with
          | zero => exact .of_empty (hgrows _) fun xs ys h => absurd h.1.1.2.2 (Nat.not_lt_zero _)
          | succ n =>
            refine (ih m (Nat.lt_succ_self m) (arms ++ [arm]) n).mono (fun xs ys h => ?_) ?_
            · exact ⟨h.1.1, h.2⟩
            · exact fun _ _ xs ys h => ⟨h.1, below_succ xs ys h.2⟩
      · exact .map ((hbody m n).weaken fun _ _ h => h.1.1) fun _ _ _ _ h => ⟨h.1 ▸ rfl, h.2⟩
    refine ⟨hgrows arms, fun s t a s' hst heq hE => ?_⟩
    obtain ⟨xs, ys, hs, ht, -⟩ := hst.kinds
    rw [furtherArms_eq (hguarded 0 0).grows hs] at heq
    obtain ⟨b, t', hb, hst'⟩ := hnext.follows s t a s' hst heq hE
    exact ⟨b, t', (furtherArms_eq (hguarded 0 0).grows ht arms).trans hb, hst'⟩

theorem follows_statement (m n : Nat) : Follows E
    (fun xs ys => (ContinuedBy zs).below (m + 1) (n + 1) xs ys ∧ xs.headD .eof ≠ .eof)
    (same ((ContinuedBy zs).below m n)) (statement room inner around)
    (statement room inner around) := by
  have hstmt {p : Parser Stmt} {k : TokenKind}
      (h : Follows E (((ContinuedBy zs).below (m + 1) (n + 1)).starting k)
        (same ((ContinuedBy zs).below m n)) p p) : Follows E
      (starting (fun xs ys => (ContinuedBy zs).below (m + 1) (n + 1) xs ys ∧
        xs.headD .eof ≠ .eof) k)
      (same ((ContinuedBy zs).below m n)) (do return [← p]) (do return [← p]) :=
    .map (h.weaken fun _ _ h => ⟨h.1.1, h.2⟩) fun _ _ _ _ h => ⟨h.1 ▸ rfl, h.2⟩
  have hword {word : String} {α : Type} {p : Parser α} (hp : Local pivot 0 p) (g : α → List Stmt) :
      Follows E (starting (fun xs ys => (ContinuedBy zs).below (m + 1) (n + 1) xs ys ∧
          xs.headD .eof ≠ .eof) (.name word)) (same ((ContinuedBy zs).below m n))
        (do advance; let a ← p; endStatement; return g a)
        (do advance; let a ← p; endStatement; return g a) := by
    refine .advance nofun ((ContinuedBy.passes _).below.weaken fun _ _ => And.left) ?_
    exact (follows_endStatement hp g).weaken below_succ
  refine .peek (fun xs ys h => h.1.1.headD_eq h.2) fun k => ?_
  split
  · refine .advance nofun ((ContinuedBy.passes _).below.weaken fun _ _ h => h.1) ?_
    exact .pure fun _ _ h => ⟨rfl, h⟩
  · exact (follows_braced room hinner around m n).weaken fun _ _ h => h.1.1
  · exact hstmt (follows_function room hinner m n)
  · exact hword (local_bindings false room) id
  · exact hword (local_bindings true room) id
  · exact hword (local_bindings false room) id
  · exact hstmt (follows_forEach room hinner hrefuses around m n)
  · exact hstmt (follows_whileLoop room hinner hrefuses around m n)
  · exact hstmt (follows_furtherArms hinner hrefuses helse [] m n)
  · split
    · exact hword (local_returned room) fun stmt => [stmt]
    · exact .of_error nofun
  · split
    · exact hword (.pure ()) fun _ => [.break]
    · exact .of_error nofun
  · split
    · exact hword (.pure ()) fun _ => [.continue]
    · exact .of_error nofun
  · exact hword (local_thrown room) fun stmt => [stmt]
  · exact .of_error nofun
  · refine (follows_endStatement (local_assignment room) fun stmt => [stmt]).weaken ?_
    exact fun _ _ h => h.1.1

end Conditional

theorem follows_statementAt (helse : zs.headD .eof ≠ .name "else") (room : Nat)
    (around : Surroundings) (m n : Nat) : Follows E
    (fun xs ys => (ContinuedBy zs).below (m + 1) (n + 1) xs ys ∧ xs.headD .eof ≠ .eof)
    (same ((ContinuedBy zs).below m n)) (statementAt room around) (statementAt room around) := by
  induction room generalizing around m n with
  | zero =>
    refine follows_statement (fun _ _ _ => .of_error ?_) (fun _ => .of_error ?_) helse m n
    · exact fun _ _ heq => nomatch heq
    · exact fun _ _ heq => nomatch heq
  | succ room ih => exact follows_statement ih (refuses_statementAt room) helse m n

end Labyrinth.Braced
