import Labyrinth.Machine.Display
import Labyrinth.Proofs.Outcome

/-!
# The pieces of a text

The text of a value consists of **pieces**, and there are finitely many of them even if the value
contains itself, because a value that lies too deep is a single piece. What is displayed is as many
of the pieces as fit, with three dots behind them if some are missing.

A writer does not know the pieces that are still to come. It stops wherever one does not fit, from
within any nesting. That is what makes it the same as to write all pieces one after the other.

## Main results

* `Writes.bind`: one writer after the other writes the pieces of both.
* `Display.writes_value`: a value is written piece by piece.
* `Heap.display_eq`: the text of a value.
-/

namespace Labyrinth

namespace Display

/-! ### Pieces -/

/-- The pieces of an integer: its sign if it is negative, and its digits. -/
def integerPieces (n : Int64) : List String :=
  (if n < 0 then ["-"] else []) ++ [toString n.toInt.natAbs]

/-- The pieces of a string in quotes. -/
def quotedPieces (s : String) : List String := ["\"", escape s, "\""]

/-- The pieces of several items between brackets. -/
def bracketed (opening closing : String) (items : List (List String)) : List String :=
  opening :: [", "].intercalate items ++ [closing]

/-- The pieces of a key that is nested in at most `levels` levels. -/
def keyPieces : (levels : Nat) → Key → List String
  | 0, _ => ["..."]
  | _ + 1, .null => ["null"]
  | _ + 1, .bool b => [if b then "true" else "false"]
  | _ + 1, .int n => integerPieces n
  | _ + 1, .str s => quotedPieces s
  | levels + 1, .list items => bracketed "[" "]" (items.map (keyPieces levels))

/-- The pieces of a value that is nested in at most `levels` levels. -/
def valuePieces (h : Heap) : (levels : Nat) → Value → List String
  | 0, _ => ["..."]
  | _ + 1, .null => ["null"]
  | _ + 1, .bool b => [if b then "true" else "false"]
  | _ + 1, .int n => integerPieces n
  | _ + 1, .str s => quotedPieces s
  | levels + 1, .list a => bracketed "[" "]" ((h.list a).toList.map (valuePieces h levels))
  | levels + 1, .set a => bracketed "\x7b" "\x7d" ((h.set a).toList.map (keyPieces levels))
  | levels + 1, .map a =>
    bracketed "\x7b" "\x7d"
      ((h.map a).toList.map fun e => keyPieces levels e.1 ++ ": " :: valuePieces h levels e.2)

/-! ### Writing pieces -/

/-- Writes pieces one after the other. -/
def putAll (pieces : List String) (text : String) : Except String String :=
  pieces.foldlM (fun text piece => put piece text) text

/-- A writer that writes these pieces, whatever the text is behind which it writes them. -/
def Writes (write : String → Except String String) (pieces : List String) : Prop :=
  ∀ text, write text = putAll pieces text

theorem putAll_append (pieces others : List String) (text : String) :
    putAll (pieces ++ others) text = putAll pieces text >>= putAll others := List.foldlM_append ..

theorem writes_put (piece : String) : Writes (put piece) [piece] := by
  intro text
  exact (bind_pure (put piece text)).symm

theorem writes_nil : Writes .ok [] := fun _ => rfl

/-- One writer after the other. -/
theorem Writes.bind {first second : String → Except String String} {pieces others : List String}
    (h : Writes first pieces) (h' : Writes second others) :
    Writes (fun text => first text >>= second) (pieces ++ others) := by
  intro text
  rw [putAll_append, ← h text, funext h']

theorem writes_quoted (s : String) : Writes (quoted s) (quotedPieces s) :=
  (writes_put "\"").bind ((writes_put (escape s)).bind (writes_put "\""))

theorem writes_integer (n : Int64) : Writes (integer n) (integerPieces n) := by
  intro text
  unfold integer integerPieces
  by_cases hn : n < 0
  · simp only [if_pos hn]
    exact (writes_put "-").bind (writes_put (toString n.toInt.natAbs)) text
  · simp only [if_neg hn]
    exact writes_put (toString n.toInt.natAbs) text

section Items

variable {α : Type} {write : α → String → Except String String} {pieces : α → List String}

/-- The items behind the first one, each with a separator before it. -/
theorem writes_more (hwrite : ∀ a, Writes (write a) (pieces a)) (items : List α) :
    Writes (more write items) (items.flatMap fun a => ", " :: pieces a) := by
  induction items with
  | nil => exact writes_nil
  | cons item items ih =>
    rw [List.flatMap_cons]
    exact (writes_put ", ").bind ((hwrite item).bind ih)

theorem intercalate_cons (separator item : List String) (items : List (List String)) :
    separator.intercalate (item :: items) = item ++ items.flatMap (separator ++ ·) := by
  induction items generalizing item with
  | nil => simp
  | cons next items ih =>
    rw [List.intercalate_cons_cons, ih, List.flatMap_cons, List.append_assoc, List.append_assoc]

/-- Items between brackets. -/
theorem writes_between (hwrite : ∀ a, Writes (write a) (pieces a)) (opening closing : String)
    (items : List α) :
    Writes (between opening closing write items)
      (bracketed opening closing (items.map pieces)) := by
  cases items with
  | nil => exact (writes_put opening).bind (writes_put closing)
  | cons item items =>
    have hitems : Writes _ (pieces item ++ (items.flatMap (", " :: pieces ·) ++ [closing])) :=
      (hwrite item).bind ((writes_more hwrite items).bind (writes_put closing))
    rw [bracketed, List.map_cons, intercalate_cons, List.flatMap_map, List.cons_append,
      List.append_assoc]
    exact (writes_put opening).bind hitems

/-- An entry of a map. -/
theorem writes_entry {writeKey : Key → String → Except String String}
    {writeValue : Value → String → Except String String} {keyPieces : Key → List String}
    {valuePieces : Value → List String} (hkey : ∀ k, Writes (writeKey k) (keyPieces k))
    (hvalue : ∀ v, Writes (writeValue v) (valuePieces v)) (e : Key × Value) :
    Writes (entry writeKey writeValue e) (keyPieces e.1 ++ ": " :: valuePieces e.2) :=
  (hkey e.1).bind ((writes_put ": ").bind (hvalue e.2))

end Items

/-- A key is written piece by piece. -/
theorem writes_key (levels : Nat) (k : Key) : Writes (key levels k) (keyPieces levels k) := by
  induction levels generalizing k with
  | zero => exact writes_put "..."
  | succ levels ih =>
    cases k with
    | null => exact writes_put "null"
    | bool b => exact writes_put _
    | int n => exact writes_integer n
    | str s => exact writes_quoted s
    | list items => exact writes_between ih "[" "]" items

/-- A value is written piece by piece. -/
theorem writes_value (h : Heap) (levels : Nat) (v : Value) :
    Writes (value h levels v) (valuePieces h levels v) := by
  induction levels generalizing v with
  | zero => exact writes_put "..."
  | succ levels ih =>
    cases v with
    | null => exact writes_put "null"
    | bool b => exact writes_put _
    | int n => exact writes_integer n
    | str s => exact writes_quoted s
    | list a => exact writes_between ih "[" "]" _
    | set a => exact writes_between (writes_key levels) "\x7b" "\x7d" _
    | map a => exact writes_between (writes_entry (writes_key levels) ih) "\x7b" "\x7d" _

/-! ### What fits -/

/-- The longest start of some pieces that has at most `room` bytes. -/
structure LongestFit (room : Nat) (pieces kept : List String) : Prop where
  start : kept <+: pieces
  fits : (String.join kept).utf8ByteSize ≤ room
  longest : ∀ other, other <+: pieces → (String.join other).utf8ByteSize ≤ room → other <+: kept

theorem utf8ByteSize_join_cons (piece : String) (pieces : List String) :
    (String.join (piece :: pieces)).utf8ByteSize =
      piece.utf8ByteSize + (String.join pieces).utf8ByteSize := by
  rw [String.join_cons, String.utf8ByteSize_append]

theorem longestFit_nil (room : Nat) : LongestFit room [] [] :=
  ⟨List.prefix_rfl, by simp, fun _ h _ => h⟩

/-- Nothing is kept if the first piece does not fit. -/
theorem longestFit_cons_nil {room : Nat} {piece : String} (hpiece : room < piece.utf8ByteSize)
    (pieces : List String) : LongestFit room (piece :: pieces) [] where
  start := List.nil_prefix
  fits := by simp
  longest other hother hfits := by
    obtain rfl | ⟨others, rfl, -⟩ := List.prefix_cons_iff.1 hother
    · exact List.prefix_rfl
    · rw [utf8ByteSize_join_cons] at hfits
      omega

/-- A piece that fits is kept. -/
theorem LongestFit.cons {room : Nat} {piece : String} {pieces kept : List String}
    (hpiece : piece.utf8ByteSize ≤ room)
    (h : LongestFit (room - piece.utf8ByteSize) pieces kept) :
    LongestFit room (piece :: pieces) (piece :: kept) where
  start := List.cons_prefix_cons.2 ⟨rfl, h.start⟩
  fits := by
    have := h.fits
    rw [utf8ByteSize_join_cons]
    omega
  longest other hother hfits := by
    obtain rfl | ⟨others, rfl, hothers⟩ := List.prefix_cons_iff.1 hother
    · exact List.nil_prefix
    · rw [utf8ByteSize_join_cons] at hfits
      exact List.cons_prefix_cons.2 ⟨rfl, h.longest others hothers (by omega)⟩

/-- Everything is kept exactly if it fits. -/
theorem LongestFit.eq_iff {room : Nat} {pieces kept : List String}
    (h : LongestFit room pieces kept) :
    kept = pieces ↔ (String.join pieces).utf8ByteSize ≤ room := by
  constructor
  · rintro rfl
    exact h.fits
  · intro hfits
    exact h.start.eq_of_length_le (h.longest pieces List.prefix_rfl hfits).length_le

/-- What is written of some pieces is their longest start that fits, and the text is thrown
exactly if a piece is missing. -/
theorem putAll_eq (pieces : List String) (text : String) (htext : text.utf8ByteSize ≤ maxBytes) :
    ∃ kept, LongestFit (maxBytes - text.utf8ByteSize) pieces kept ∧
      putAll pieces text =
        if kept = pieces then .ok (text ++ String.join kept)
        else .error (text ++ String.join kept) := by
  induction pieces generalizing text with
  | nil =>
    refine ⟨[], longestFit_nil _, ?_⟩
    rw [if_pos rfl, String.join_nil, String.append_empty]
    rfl
  | cons piece pieces ih =>
    have hcons : putAll (piece :: pieces) text = put piece text >>= putAll pieces := by
      rw [putAll, List.foldlM_cons]
      rfl
    by_cases hpiece : text.utf8ByteSize + piece.utf8ByteSize ≤ maxBytes
    · have hput : put piece text = .ok (text ++ piece) := if_pos hpiece
      have hsize := String.utf8ByteSize_append (s := text) (t := piece)
      obtain ⟨kept, hkept, hwritten⟩ := ih (text ++ piece) (by omega)
      refine ⟨piece :: kept, .cons (by omega) ?_, ?_⟩
      · rwa [Nat.sub_sub, ← hsize]
      · rw [hcons, hput, ok_bind, hwritten]
        simp only [List.cons.injEq, true_and, String.join_cons, String.append_assoc]
    · have hput : put piece text = .error text := if_neg hpiece
      refine ⟨[], longestFit_cons_nil (by omega) pieces, ?_⟩
      rw [hcons, hput, error_bind]
      simp

end Display

open Display

section Outcomes

variable {h : Heap} {v : Value} {text : String}

theorem Heap.display_of_ok (hv : v.type ≠ .str)
    (hok : value h (Display.maxDepth + 1) v "" = .ok text) : h.display v = text := by
  cases v with
  | str s => exact absurd rfl hv
  | _ => simp only [Heap.display, hok]

theorem Heap.display_of_error (hv : v.type ≠ .str)
    (herror : value h (Display.maxDepth + 1) v "" = .error text) :
    h.display v = text ++ "..." := by
  cases v with
  | str s => exact absurd rfl hv
  | _ => simp only [Heap.display, herror]

end Outcomes

/-- The text of a value is what is kept of its pieces, with dots if something is missing. -/
theorem Heap.display_eq_kept (h : Heap) {v : Value} (hv : v.type ≠ .str) :
    ∃ kept, LongestFit maxBytes (valuePieces h (Display.maxDepth + 1) v) kept ∧
      h.display v =
        if kept = valuePieces h (Display.maxDepth + 1) v then String.join kept
        else String.join kept ++ "..." := by
  obtain ⟨kept, hkept, hwritten⟩ :=
    putAll_eq (valuePieces h (Display.maxDepth + 1) v) "" (by decide)
  rw [String.empty_append, ← writes_value h (Display.maxDepth + 1) v ""] at hwritten
  refine ⟨kept, hkept, ?_⟩
  by_cases hall : kept = valuePieces h (Display.maxDepth + 1) v
  · rw [if_pos hall] at hwritten ⊢
    exact Heap.display_of_ok hv hwritten
  · rw [if_neg hall] at hwritten ⊢
    exact Heap.display_of_error hv hwritten

/-- The text of a value that is not a string consists of its pieces. If they do not fit, it
consists of the longest start of them that does, and three dots. -/
theorem Heap.display_eq (h : Heap) {v : Value} (hv : v.type ≠ .str) :
    let pieces := valuePieces h (Display.maxDepth + 1) v
    ((String.join pieces).utf8ByteSize ≤ maxBytes → h.display v = String.join pieces) ∧
      (maxBytes < (String.join pieces).utf8ByteSize →
        ∃ kept, LongestFit maxBytes pieces kept ∧ h.display v = String.join kept ++ "...") ∧
      (h.display v).utf8ByteSize ≤ 4099 := by
  intro pieces
  obtain ⟨kept, hkept, hdisplay⟩ := h.display_eq_kept hv
  refine ⟨fun hfits => ?_, fun hexceeds => ⟨kept, hkept, ?_⟩, ?_⟩
  · rw [hdisplay, if_pos (hkept.eq_iff.2 hfits), hkept.eq_iff.2 hfits]
  · exact hdisplay.trans (if_neg fun hall => Nat.not_le_of_gt hexceeds (hkept.eq_iff.1 hall))
  · have hkept : (String.join kept).utf8ByteSize ≤ 4096 := hkept.fits
    have hdots : "...".utf8ByteSize = 3 := rfl
    rw [hdisplay]
    split
    · omega
    · rw [String.utf8ByteSize_append]
      omega

/-- The text of a list that contains only itself. -/
theorem Heap.display_cycle :
    (Value.list 0).type ≠ .str ∧
      (⟨#[#[.list 0]], #[], #[]⟩ : Heap).display (.list 0) =
        "[[[[[[[[[[[[[[[[[...]]]]]]]]]]]]]]]]]" := by
  have hv : (Value.list 0).type ≠ .str := by decide
  have hfits : (String.join
      (valuePieces ⟨#[#[.list 0]], #[], #[]⟩ (Display.maxDepth + 1) (.list 0))).utf8ByteSize ≤
        maxBytes := by
    decide
  refine ⟨hv, ?_⟩
  rw [(Heap.display_eq ⟨#[#[.list 0]], #[], #[]⟩ hv).1 hfits]
  decide

end Labyrinth
