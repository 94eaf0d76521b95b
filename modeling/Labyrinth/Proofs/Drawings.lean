import Labyrinth.Proofs.Grids
import Labyrinth.Proofs.Outcome
import Mathlib.Data.List.Forall2

/-!
# Drawn grids

A grid is written row by row, with one character for each cell, and rows of characters are read as a
grid. Reading what has been written comes back to the grid, and writing what has been read comes
back to the rows, but for the blanks in them.

Both directions go by the rows of a grid as lists of cells: the cells of a grid are such rows, one
behind the other.

## Main results

* `Text.lines_unlines`: the lines of a text that is made of lines.
* `Grid.text_eq`: the written form, cell by cell.
* `Grid.ofRows_rows`, `Grid.rows_of_ofRows`: writing and reading are inverse to each other.
* `Grid.representation`: descriptions, coordinates and written forms of grids fit each other.
-/

namespace Labyrinth

namespace Text

/-! ### Lines -/

/-- A line without the carriage return at its end. -/
def dropReturn (line : List Char) : List Char :=
  if line.getLast? = some '\r' then line.dropLast else line

/-- The lines of a text, of whose first line some characters have been read. -/
def linesFrom : (begun : List Char) → List Char → List (List Char)
  | begun, [] => if begun = [] then [] else [begun]
  | begun, c :: cs =>
    if c = '\n' then dropReturn begun :: linesFrom [] cs else linesFrom (begun ++ [c]) cs

/-- The lines of a text. Each is ended by a line feed, or by a carriage return and a line feed; the
last one may end with the text. -/
def lines (text : String) : List String := (linesFrom [] text.toList).map String.ofList

theorem linesFrom_append {line : List Char} (h : '\n' ∉ line) (begun rest : List Char) :
    linesFrom begun (line ++ '\n' :: rest) = dropReturn (begun ++ line) :: linesFrom [] rest := by
  induction line generalizing begun with
  | nil => simp [linesFrom]
  | cons c line ih =>
    rw [List.mem_cons, not_or] at h
    obtain ⟨hc, hline⟩ := h
    rw [List.cons_append, linesFrom, if_neg (Ne.symm hc), ih hline, List.append_assoc]
    rfl

theorem toList_unlines_cons (line : String) (ls : List String) :
    (unlines (line :: ls)).toList = line.toList ++ '\n' :: (unlines ls).toList := by
  rw [unlines, List.map_cons, String.join_cons, String.toList_append, String.toList_append,
    List.append_assoc]
  rfl

theorem toList_unlines_eq_flatMap (ls : List String) :
    (unlines ls).toList = ls.flatMap fun line => line.toList ++ ['\n'] := by
  induction ls with
  | nil => rfl
  | cons line ls ih => rw [toList_unlines_cons, ih, List.flatMap_cons, List.append_assoc]; rfl

/-- Lines that hold no line feed and no carriage return are found again. -/
theorem lines_unlines {ls : List String}
    (h : ∀ line ∈ ls, '\n' ∉ line.toList ∧ '\r' ∉ line.toList) : lines (unlines ls) = ls := by
  induction ls with
  | nil => rfl
  | cons line ls ih =>
    obtain ⟨⟨hfeed, hreturn⟩, hls⟩ := List.forall_mem_cons.1 h
    have hlast : line.toList.getLast? ≠ some '\r' := fun hlast =>
      hreturn (List.mem_of_getLast? hlast)
    rw [lines, toList_unlines_cons, linesFrom_append hfeed, List.nil_append, dropReturn,
      if_neg hlast, List.map_cons, String.ofList_toList]
    exact congrArg (line :: ·) (ih hls)

end Text

/-! ### Rows of cells -/

section Rows

variable {α : Type} {n : ℕ}

/-- A list is cut into rows of the same length. -/
theorem exists_rows {m : ℕ} {xs : List α} (h : xs.length = m * n) :
    ∃ rows : List (List α), xs = rows.flatten ∧ rows.length = m ∧ ∀ row ∈ rows, row.length = n := by
  induction m generalizing xs with
  | zero =>
    rw [Nat.zero_mul, List.length_eq_zero_iff] at h
    exact ⟨[], h, rfl, nofun⟩
  | succ m ih =>
    rw [Nat.succ_mul] at h
    have hrest : (xs.drop n).length = m * n := by rw [List.length_drop]; omega
    obtain ⟨rows, hrows, hlength, hwidth⟩ := ih hrest
    refine ⟨xs.take n :: rows, ?_, congrArg Nat.succ hlength, List.forall_mem_cons.2 ⟨?_, hwidth⟩⟩
    · rw [List.flatten_cons, ← hrows, List.take_append_drop]
    · rw [List.length_take]
      omega

theorem length_flatten_of_forall {rows : List (List α)} (h : ∀ row ∈ rows, row.length = n) :
    rows.flatten.length = rows.length * n := by
  rw [List.length_flatten, List.map_congr_left h, List.map_const', List.sum_replicate_nat]

/-- Where the rows are put behind each other, positions are counted row by row. -/
theorem getElem?_flatten_mul_add {rows : List (List α)} (h : ∀ row ∈ rows, row.length = n)
    (i : ℕ) {j : ℕ} (hj : j < n) : rows.flatten[i * n + j]? = rows[i]?.bind (·[j]?) := by
  induction rows generalizing i with
  | nil => simp
  | cons row rows ih =>
    obtain ⟨rfl, hrows⟩ := List.forall_mem_cons.1 h
    cases i with
    | zero => simp [List.getElem?_append_left hj]
    | succ i =>
      have hle : row.length ≤ (i + 1) * row.length + j := by
        rw [Nat.succ_mul]
        omega
      have hrest : (i + 1) * row.length + j - row.length = i * row.length + j := by
        rw [Nat.succ_mul]
        omega
      rw [List.flatten_cons, List.getElem?_append_right hle, hrest, ih hrows,
        List.getElem?_cons_succ]

/-- A row is written cell by cell, with a line feed behind the last one. -/
theorem flatMap_range_ended (f : ℕ → Char) (hn : 0 < n) :
    (List.range n).flatMap (fun j => f j :: if j + 1 = n then ['\n'] else []) =
      (List.range n).map f ++ ['\n'] := by
  obtain ⟨m, rfl⟩ := Nat.exists_eq_succ_of_ne_zero hn.ne'
  have hbefore : (List.range m).flatMap (fun j => f j :: if j + 1 = m + 1 then ['\n'] else []) =
      (List.range m).map f := by
    rw [List.map_eq_flatMap]
    refine List.flatMap_congr fun j hj => ?_
    rw [if_neg (by have := List.mem_range.1 hj; omega)]
  rw [Nat.succ_eq_add_one, List.range_succ, List.flatMap_append, hbefore, List.flatMap_singleton,
    if_pos rfl, List.map_append, List.append_assoc]
  rfl

end Rows

/-! ### Characters -/

/-- What is written for a character that is read: a corridor is never written as a blank. -/
def plain (c : Char) : Char := if c = ' ' then '.' else c

theorem Kind.glyph_of_ofGlyph? {c : Char} {kind : Kind} (h : ofGlyph? c = some kind) :
    kind.glyph = plain c := by
  unfold ofGlyph? at h
  split at h <;> cases h <;> rfl

theorem Kind.glyph_ne_feed (kind : Kind) : kind.glyph ≠ '\n' ∧ kind.glyph ≠ '\r' := by
  cases kind <;> decide

/-- The written form of a row of cells. -/
def Kind.row (kinds : List Kind) : String := String.ofList (kinds.map glyph)

/-- A text is read as a row of cells. -/
def IsRow (side : ℕ) (text : String) (kinds : List Kind) : Prop :=
  text.toList.length = side ∧ text.toList.map Kind.ofGlyph? = kinds.map some

namespace IsRow

variable {side : ℕ} {text : String} {kinds : List Kind}

theorem length_eq (h : IsRow side text kinds) : kinds.length = side := by
  rw [← h.1, ← List.length_map (f := Kind.ofGlyph?), h.2, List.length_map]

theorem row_eq (h : IsRow side text kinds) : Kind.row kinds = text.map plain := by
  rw [← String.toList_inj, Kind.row, String.toList_ofList, String.toList_map]
  refine List.ext_getElem ?_ fun i hi hi' => ?_
  · rw [List.length_map, List.length_map, h.length_eq, h.1]
  · rw [List.getElem_map, List.getElem_map]
    refine Kind.glyph_of_ofGlyph? ?_
    have hget := List.getElem_of_eq h.2 (i := i) (by simpa using hi')
    rwa [List.getElem_map, List.getElem_map] at hget

theorem of_row (h : kinds.length = side) : IsRow side (Kind.row kinds) kinds := by
  refine ⟨?_, ?_⟩
  · rw [Kind.row, String.toList_ofList, List.length_map, h]
  · rw [Kind.row, String.toList_ofList, List.map_map]
    exact List.map_congr_left fun kind _ => Kind.ofGlyph?_glyph kind

theorem length_eq_of_forall₂ {texts : List String} {rows : List (List Kind)}
    (h : List.Forall₂ (IsRow side) texts rows) : ∀ row ∈ rows, row.length = side := by
  induction h with
  | nil => nofun
  | cons hrow _ ih => exact List.forall_mem_cons.2 ⟨hrow.length_eq, ih⟩

theorem map_row_of_forall₂ {texts : List String} {rows : List (List Kind)}
    (h : List.Forall₂ (IsRow side) texts rows) : rows.map Kind.row = texts.map (·.map plain) := by
  induction h with
  | nil => rfl
  | cons hrow _ ih => exact List.cons_eq_cons.2 ⟨hrow.row_eq, ih⟩

end IsRow

namespace Grid

variable {g : Grid}

/-! ### Reading -/

theorem readRow_eq_ok_iff {row column : ℕ} {cs : List Char} {kinds : List Kind} :
    readRow row column cs = .ok kinds ↔ cs.map Kind.ofGlyph? = kinds.map some := by
  induction cs generalizing column kinds with
  | nil =>
    rw [readRow, Except.ok.injEq]
    cases kinds <;> simp
  | cons c cs ih =>
    rw [readRow]
    cases hc : Kind.ofGlyph? c with
    | none => cases kinds <;> simp [hc]
    | some kind =>
      dsimp only
      rw [bind_eq_ok_iff]
      simp only [ih]
      cases kinds with
      | nil => simp [Pure.pure, Except.pure]
      | cons k ks => simp [Pure.pure, Except.pure, hc, and_comm]

/-- The rows that are read are put behind each other. -/
theorem readRows_eq_ok_iff {side row : ℕ} {texts : List String} {kinds : List Kind} :
    readRows side row texts = .ok kinds ↔
      ∃ rows : List (List Kind), kinds = rows.flatten ∧ List.Forall₂ (IsRow side) texts rows := by
  induction texts generalizing row kinds with
  | nil =>
    rw [readRows, Except.ok.injEq]
    constructor
    · rintro rfl
      exact ⟨[], rfl, .nil⟩
    · rintro ⟨rows, rfl, hrows⟩
      cases hrows
      rfl
  | cons text texts ih =>
    rw [readRows]
    constructor
    · intro h
      split at h
      · next hside =>
        obtain ⟨first, hfirst, h⟩ := bind_eq_ok_iff.1 h
        obtain ⟨rest, hrest, h⟩ := bind_eq_ok_iff.1 h
        obtain ⟨rows, rfl, hrows⟩ := ih.1 hrest
        cases h
        exact ⟨first :: rows, rfl, .cons ⟨hside, readRow_eq_ok_iff.1 hfirst⟩ hrows⟩
      · cases h
    · rintro ⟨rows, rfl, hrows⟩
      cases hrows with
      | @cons _ first _ rows hfirst hrows =>
        rw [if_pos hfirst.1, readRow_eq_ok_iff.2 hfirst.2, ok_bind, ih.2 ⟨rows, rfl, hrows⟩]
        rfl

/-- A drawing is a grid if its rows are as long as there are rows, and their cells are a grid. -/
theorem ofRows_eq_ok_iff {texts : List String} :
    ofRows texts = .ok g ↔
      texts ≠ [] ∧ ∃ rows : List (List Kind), List.Forall₂ (IsRow texts.length) texts rows ∧
        g.size = UInt32.ofNat (min texts.length 4294967295) ∧ g.cells = rows.flatten.toArray := by
  rw [ofRows]
  cases texts with
  | nil => exact iff_of_false nofun fun h => h.1 rfl
  | cons text texts =>
    rw [List.isEmpty_cons, if_neg Bool.false_ne_true, bind_eq_ok_iff]
    simp only [readRows_eq_ok_iff, ofKinds_eq_ok_iff]
    constructor
    · rintro ⟨_, ⟨rows, rfl, hrows⟩, hsize, hcells⟩
      exact ⟨List.cons_ne_nil _ _, rows, hrows, hsize, hcells⟩
    · rintro ⟨-, rows, hrows, hsize, hcells⟩
      exact ⟨_, ⟨rows, rfl, hrows⟩, hsize, hcells⟩

/-! ### Writing -/

/-- The rows of a grid are written one by one. -/
theorem rows_eq_map_row {rows : List (List Kind)} (hcells : g.cells.toList = rows.flatten)
    (hcount : rows.length = g.size.toNat) (hwidth : ∀ row ∈ rows, row.length = g.size.toNat) :
    g.rows = rows.map Kind.row := by
  refine List.ext_getElem ?_ fun i hi hi' => ?_
  · simp [Grid.rows, draw, hcount]
  · have hrow : i < rows.length := by simpa using hi'
    have hlength := hwidth _ (List.getElem_mem hrow)
    simp only [Grid.rows, draw, List.getElem_map, List.getElem_range, Kind.row]
    refine congrArg String.ofList (List.ext_getElem ?_ fun j hj hj' => ?_)
    · simp [hlength]
    · have hj : j < g.size.toNat := by simpa using hj
      rw [List.getElem_map, List.getElem_map, List.getElem_range, ← Array.getElem?_toList, hcells,
        getElem?_flatten_mul_add hwidth i hj, List.getElem?_eq_getElem hrow, Option.bind_some,
        List.getElem?_eq_getElem (hlength.symm ▸ hj)]
      rfl

theorem exists_cells_eq_flatten (g : Grid) :
    ∃ rows : List (List Kind), g.cells.toList = rows.flatten ∧ rows.length = g.size.toNat ∧
      ∀ row ∈ rows, row.length = g.size.toNat :=
  exists_rows (by rw [Array.length_toList, g.size_cells])

/-- Every grid has a cell. -/
theorem toNat_size_pos (g : Grid) : 0 < g.size.toNat :=
  Nat.zero_lt_of_lt (UInt32.lt_iff_toNat_lt.1 g.isOpen_start.1.1)

/-- A grid is read from its rows. -/
theorem ofRows_rows (g : Grid) : ofRows g.rows = .ok g := by
  obtain ⟨rows, hcells, hcount, hwidth⟩ := g.exists_cells_eq_flatten
  have hrows := rows_eq_map_row hcells hcount hwidth
  have hlength : g.rows.length = g.size.toNat := by rw [hrows, List.length_map, hcount]
  refine ofRows_eq_ok_iff.2 ⟨?_, rows, ?_, ?_, ?_⟩
  · exact List.ne_nil_of_length_pos (hlength ▸ g.toNat_size_pos)
  · rw [hlength, hrows, List.forall₂_map_left_iff, List.forall₂_same]
    exact fun row hrow => .of_row (hwidth row hrow)
  · rw [hlength, min_eq_left (Nat.le_of_lt_succ g.size.toNat_lt), UInt32.ofNat_toNat]
  · rw [← hcells]

/-- The rows from which a grid has been read are its rows, but for the blanks in them. -/
theorem rows_of_ofRows {texts : List String} (h : ofRows texts = .ok g) :
    g.rows = texts.map (·.map plain) := by
  obtain ⟨-, rows, hrows, -, hcells⟩ := ofRows_eq_ok_iff.1 h
  have hwidth := IsRow.length_eq_of_forall₂ hrows
  have hcells : g.cells.toList = rows.flatten := by rw [hcells]
  have hside : g.size.toNat = texts.length := by
    rw [← Nat.mul_self_inj, ← g.size_cells, ← Array.length_toList, hcells,
      length_flatten_of_forall hwidth, hrows.length_eq]
  rw [← hside] at hwidth
  rw [rows_eq_map_row hcells (hrows.length_eq.symm.trans hside.symm) hwidth]
  exact IsRow.map_row_of_forall₂ hrows

/-! ### Texts -/

/-- The lines of the written form are the rows. -/
theorem lines_text (g : Grid) : Text.lines g.text = g.rows := by
  obtain ⟨rows, hcells, hcount, hwidth⟩ := g.exists_cells_eq_flatten
  refine Text.lines_unlines ?_
  rw [rows_eq_map_row hcells hcount hwidth]
  intro line hline
  obtain ⟨row, -, rfl⟩ := List.mem_map.1 hline
  rw [Kind.row, String.toList_ofList, List.mem_map, List.mem_map]
  exact ⟨fun ⟨kind, _, hkind⟩ => kind.glyph_ne_feed.1 hkind,
    fun ⟨kind, _, hkind⟩ => kind.glyph_ne_feed.2 hkind⟩

/-- What is written for a cell: its character, and a line feed behind the last one of a row. -/
def written (g : Grid) (entry : Coord × Kind) : List Char :=
  entry.2.glyph :: if entry.1.column.toNat + 1 = g.size.toNat then ['\n'] else []

theorem written_cellAt (g : Grid) (row : ℕ) {column : ℕ} (h : column < g.size.toNat) :
    g.written (g.cellAt row column) =
      (g.cellAt row column).2.glyph :: if column + 1 = g.size.toNat then ['\n'] else [] := by
  rw [written, cellAt, toNat_ofNat_of_lt_size h]

/-- The written form, cell by cell. -/
theorem toList_text (g : Grid) : g.text.toList = g.entries.flatMap g.written := by
  rw [text, Text.toList_unlines_eq_flatMap, Grid.rows, draw, List.flatMap_map, entries_eq,
    List.flatMap_assoc]
  refine List.flatMap_congr fun row _ => ?_
  rw [String.toList_ofList, List.flatMap_map,
    List.flatMap_congr fun column hcolumn => g.written_cellAt row (List.mem_range.1 hcolumn),
    flatMap_range_ended _ g.toNat_size_pos]
  rfl

/-! ### Descriptions and drawings -/

/-- A description is accepted exactly if it is one of a square with one start and one exit; a grid
represents the description it was made of, and is written cell by cell; it is read from the lines of
its written form; and the written form of a grid that was read consists of the lines that were read,
with dots for blanks. -/
theorem representation :
    (∀ size cells, (∃ g, ofKinds size cells = .ok g) ↔ cells.size = size.toNat * size.toNat ∧
      cells.count .start = 1 ∧ cells.count .exit = 1) ∧
    (∀ size cells g, ofKinds size cells = .ok g → g.Represents size cells) ∧
    (∀ g : Grid, g.text.toList = g.entries.flatMap g.written ∧ ofRows (Text.lines g.text) = .ok g) ∧
    ∀ texts g, ofRows texts = .ok g → g.text = Text.unlines (texts.map (·.map plain)) := by
  refine ⟨fun _ _ => exists_ofKinds_iff, fun _ _ _ => represents_ofKinds,
    fun g => ⟨g.toList_text, ?_⟩, fun texts g h => ?_⟩
  · rw [lines_text, ofRows_rows]
  · rw [text, rows_of_ofRows h]

/-- A blank is read as a corridor, and written as a dot. -/
theorem representation_corner :
    ∃ g, ofRows ["S ", "#E"] = .ok g ∧ g.text = "S.\n#E\n" ∧
      ofRows (Text.lines "S.\n#E\n") = .ok g := by
  obtain ⟨g, hg⟩ : ∃ g, ofRows ["S ", "#E"] = .ok g := ⟨_, rfl⟩
  have htext : g.text = "S.\n#E\n" := by
    rw [representation.2.2.2 _ _ hg, ← String.toList_inj]
    simp [Text.toList_unlines_eq_flatMap, plain]
  have hagain := (representation.2.2.1 g).2
  rw [htext] at hagain
  exact ⟨g, hg, htext, hagain⟩

end Grid

end Labyrinth
