import Labyrinth.Language.Read
import Labyrinth.Proofs.Language.Comments
import Labyrinth.Proofs.Language.TreeEquality

/-!
# Scanning with fuel

A source is scanned until nothing of it is left, which is why the scan comes to an end. Here it gets
**fuel** instead, one unit for every step. Then the tokens of a source can be computed by unfolding
definitions, and so can the tree of a program whose lines are known.

## Main results

* `Braced.scan_of_scanWithin`, `Indented.scan_of_scanWithin`: what is scanned with fuel are the
  tokens of the source.
* `Braced.parse_unlines`, `Indented.parse_unlines`: the tree of a program that is given by its
  lines.
-/

namespace Labyrinth

/-- The characters of lines, with a line feed at the end of each. -/
def lineChars (lines : List String) : List Char :=
  ['\n'].intercalate (lines.map String.toList ++ [[]])

/-- The beginning of a source that is given by its lines. -/
def Reader.ofLines (lines : List String) : Reader := ⟨lineChars lines, Position.start⟩

theorem Reader.ofString_unlines (lines : List String) :
    Reader.ofString (Text.unlines lines) = Reader.ofLines lines := by
  rw [ofString, toList_unlines]
  rfl

/-- A computation that yields something has not failed. -/
theorem eq_ok_of_toOption {ε α : Type} {result : Except ε α} {a : α}
    (h : result.toOption = some a) : result = .ok a := by
  cases result with
  | error e => cases h
  | ok b => exact congrArg Except.ok (Option.some.inj h)

/-! ### The braced dialect -/

namespace Braced

/-- The tokens of the rest of a source, if there is no error and the fuel suffices. -/
def scanWithin : (fuel : Nat) → Reader → Option (List Token)
  | 0, _ => none
  | fuel + 1, r =>
    match r.rest with
    | [] => some [⟨.eof, r.position⟩]
    | '/' :: '/' :: _ => scanWithin fuel (r.skip 2).line.2
    | '/' :: '*' :: _ => do scanWithin fuel (← closeComment (r.skip 2).rest (r.skip 2).position)
    | c :: _ =>
      if isSpacing c then scanWithin fuel (r.skip 1)
      else
        match r.token operators with
        | .error _ => none
        | .ok (kind, after) => do return ⟨kind, r.position⟩ :: (← scanWithin fuel after)

theorem scan_of_scanWithin {fuel : Nat} {r : Reader} {ts : List Token}
    (h : scanWithin fuel r = some ts) : scan r = .ok ts := by
  induction fuel generalizing r ts with
  | zero => cases h
  | succ fuel ih =>
    rw [scanWithin] at h
    rw [scan]
    split
    · next hr =>
      rw [hr] at h
      exact congrArg Except.ok (Option.some.inj h)
    · next hr =>
      rw [hr] at h
      exact ih h
    · next hr =>
      rw [hr] at h
      obtain ⟨after, hafter, h⟩ := Option.bind_eq_some_iff.1 h
      split
      · next hnone => cases hnone.symm.trans hafter
      · next hsome =>
        cases hsome.symm.trans hafter
        exact ih h
    · next c rest hline hblock hr =>
      simp only [hr] at h
      split at h
      · next hspacing =>
        rw [if_pos hspacing]
        exact ih h
      · next hspacing =>
        rw [if_neg hspacing]
        split
        · next e herror =>
          rw [herror] at h
          cases h
        · next kind after htoken =>
          rw [htoken] at h
          obtain ⟨further, hfurther, h⟩ := Option.bind_eq_some_iff.1 h
          cases h
          rw [ih hfurther]
          rfl

theorem parse_unlines (fuel : Nat) {lines : List String} {stmts : List Stmt}
    (h : (do (program.run (.ok (← scanWithin fuel (.ofLines lines)))).toOption) = some stmts) :
    parse (Text.unlines lines) = .ok stmts := by
  obtain ⟨ts, hts, hrun⟩ := Option.bind_eq_some_iff.1 h
  rw [parse, tokens, Reader.ofString_unlines, scan_of_scanWithin hts]
  exact eq_ok_of_toOption hrun

end Braced

/-! ### The indented dialect -/

namespace Indented

/-- The tokens of the rest of a source, if there is no error and the fuel suffices. -/
def scanWithin : (fuel : Nat) → Place → List Nat → Reader → Option (List Token)
  | 0, _, _, _ => none
  | fuel + 1, .lineStart, indents, r =>
    match (lineBody r).rest with
    | [] => some (finish indents false (lineBody r).position)
    | '\n' :: _ => scanWithin fuel .lineStart indents ((lineBody r).skip 1)
    | '#' :: _ => do
      let rest ← scanWithin fuel .lineStart indents (((lineBody r).skip 1).line.2.skip 1)
      return ⟨.comment ((lineBody r).skip 1).line.1, (lineBody r).position⟩ :: rest
    | _ =>
      match align (width (r.rest.takeWhile isSpacing)) indents (lineBody r).position with
      | .error _ => none
      | .ok aligned => do
        return aligned.1 ++ (← scanWithin fuel (.inLine 0 false) aligned.2 (lineBody r))
  | fuel + 1, .inLine depth pending, indents, r =>
    match r.rest with
    | [] => some (finish indents pending r.position)
    | '\n' :: _ =>
      if depth = 0 then do
        return lineEnd pending r.position ++ (← scanWithin fuel .lineStart indents (r.skip 1))
      else
        scanWithin fuel (.inLine depth pending) indents (r.skip 1)
    | '#' :: _ => scanWithin fuel (.inLine depth pending) indents r.line.2
    | '\\' :: '\n' :: _ => scanWithin fuel (.inLine depth pending) indents (r.skip 2)
    | c :: _ =>
      if isSpacing c then
        scanWithin fuel (.inLine depth pending) indents (r.skip 1)
      else
        match r.token operators with
        | .error _ => none
        | .ok (kind, after) => do
          let rest ← scanWithin fuel (.inLine (depthAfter kind depth) true) indents after
          return ⟨kind, r.position⟩ :: rest

theorem scan_of_scanWithin {fuel : Nat} {place : Place} {indents : List Nat} {r : Reader}
    {ts : List Token} (h : scanWithin fuel place indents r = some ts) :
    scan place indents r = .ok ts := by
  induction fuel generalizing place indents r ts with
  | zero => cases h
  | succ fuel ih =>
    cases place with
    | lineStart =>
      rw [scanWithin] at h
      rw [scan]
      split
      · next hr =>
        rw [hr] at h
        exact congrArg Except.ok (Option.some.inj h)
      · next hr =>
        rw [hr] at h
        exact ih h
      · next hr =>
        rw [hr] at h
        obtain ⟨rest, hrest, h⟩ := Option.bind_eq_some_iff.1 h
        cases h
        rw [ih hrest]
        rfl
      · next hnil hbreak hcomment =>
        split at h
        · next hr => exact absurd hr hnil
        · next hr => exact absurd hr (hbreak _)
        · next hr => exact absurd hr (hcomment _)
        · split at h
          · cases h
          · next aligned haligned =>
            obtain ⟨rest, hrest, h⟩ := Option.bind_eq_some_iff.1 h
            cases h
            rw [haligned]
            simp only [bind, Except.bind, ih hrest]
            rfl
    | inLine depth pending =>
      rw [scanWithin] at h
      rw [scan]
      split
      · next hr =>
        rw [hr] at h
        exact congrArg Except.ok (Option.some.inj h)
      · next hr =>
        simp only [hr] at h
        split at h
        · next hdepth =>
          obtain ⟨rest, hrest, h⟩ := Option.bind_eq_some_iff.1 h
          cases h
          rw [if_pos hdepth, ih hrest]
          rfl
        · next hdepth =>
          rw [if_neg hdepth]
          exact ih h
      · next hr =>
        rw [hr] at h
        exact ih h
      · next hr =>
        rw [hr] at h
        exact ih h
      · next c rest hbreak hcomment hjoined hr =>
        simp only [hr] at h
        split at h
        · next hspacing =>
          rw [if_pos hspacing]
          exact ih h
        · next hspacing =>
          rw [if_neg hspacing]
          split
          · next e herror =>
            rw [herror] at h
            cases h
          · next kind after htoken =>
            rw [htoken] at h
            obtain ⟨further, hfurther, h⟩ := Option.bind_eq_some_iff.1 h
            cases h
            rw [ih hfurther]
            rfl

theorem parse_unlines (fuel : Nat) {lines : List String} {stmts : List Stmt}
    (h : (do (program.run (.ok (← scanWithin fuel .lineStart [] (.ofLines lines)))).toOption) =
      some stmts) :
    parse (Text.unlines lines) = .ok stmts := by
  obtain ⟨ts, hts, hrun⟩ := Option.bind_eq_some_iff.1 h
  rw [parse, tokens, Reader.ofString_unlines, scan_of_scanWithin hts]
  exact eq_ok_of_toOption hrun

end Indented

end Labyrinth
