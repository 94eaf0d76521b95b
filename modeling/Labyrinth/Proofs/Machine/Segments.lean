import Labyrinth.Proofs.Machine.Calls
import Labyrinth.Proofs.Machine.Positions
import Labyrinth.Proofs.Machine.Rebinding

/-!
# The segments of a code

The code of a program consists of **segments**, one for the top level and one for every function.
They are laid out one after the other, in the order of the table, and each of them is closed: no
jump leads out of it, and its last instruction does not go on to the next one. So a run stays
within a segment until it calls a function or returns.

A state **occupies** a segment for every call in progress, and one for the top level.

## Main results

* `segments_lower`: the segments of lowered code.
* `segmented_lower`: they are closed.
* `State.Occupies.next`: the segments that are occupied after a step.
* `Program.segmented_code`: the segments of the programs that can be read, and their runs.
-/

namespace Labyrinth

namespace Code

/-- A range of positions. -/
structure Segment where
  first : Nat
  /-- The position behind the last one. -/
  stop : Nat
  deriving DecidableEq, Repr

instance : Membership Nat Segment := ⟨fun s position => s.first ≤ position ∧ position < s.stop⟩

theorem Segment.mem_iff {s : Segment} {position : Nat} :
    position ∈ s ↔ s.first ≤ position ∧ position < s.stop := Iff.rfl

/-- The segments from a position on: each of them ends where the next function begins. -/
def segmentsFrom (first stop : Nat) : List FunctionEntry → List Segment
  | [] => [⟨first, stop⟩]
  | f :: functions => ⟨first, f.entry⟩ :: segmentsFrom f.entry stop functions

/-- The segments of a code. The first one belongs to the top level, and the others to the functions
of the table. -/
def segments (code : Code) : List Segment :=
  segmentsFrom 0 code.instructions.size code.functions.toList

theorem map_first_segmentsFrom (first stop : Nat) (functions : List FunctionEntry) :
    (segmentsFrom first stop functions).map Segment.first =
      first :: functions.map FunctionEntry.entry := by
  induction functions generalizing first with
  | nil => rfl
  | cons f functions ih => exact congrArg (first :: ·) (ih f.entry)

/-- The segment of a function begins where the table says. -/
theorem exists_segment {code : Code} {k : Nat} {f : FunctionEntry}
    (h : code.functions[k]? = some f) :
    ∃ s, code.segments[k + 1]? = some s ∧ s.first = f.entry := by
  have hfirst : (code.segments.map Segment.first)[k + 1]? = some f.entry := by
    rw [segments, map_first_segmentsFrom, List.getElem?_cons_succ, List.getElem?_map,
      Array.getElem?_toList, h]
    rfl
  rw [List.getElem?_map, Option.map_eq_some_iff] at hfirst
  exact hfirst

/-- Every position of a code belongs to a segment. -/
theorem exists_mem_segmentsFrom {first stop position : Nat} {functions : List FunctionEntry}
    (hfirst : first ≤ position) (hstop : position < stop) :
    ∃ s ∈ segmentsFrom first stop functions, position ∈ s := by
  induction functions generalizing first with
  | nil => exact ⟨⟨first, stop⟩, List.mem_singleton.2 rfl, hfirst, hstop⟩
  | cons f functions ih =>
    by_cases hentry : position < f.entry
    · exact ⟨⟨first, f.entry⟩, List.mem_cons_self, hfirst, hentry⟩
    · obtain ⟨s, hs, hposition⟩ := ih (Nat.le_of_not_lt hentry)
      exact ⟨s, List.mem_cons_of_mem _ hs, hposition⟩

/-- The segments of a code are **closed** if whatever the code refers to is in its place, and
nothing leads from one segment to another but calls and returns. -/
structure Segmented (code : Code) : Prop where
  entries : code.segments.map Segment.first =
    0 :: code.functions.toList.map FunctionEntry.entry
  /-- The segments follow one another. -/
  ascending : code.segments.Pairwise fun s t => s.stop ≤ t.first
  covers : ∀ position, position < code.instructions.size ↔ ∃ s ∈ code.segments, position ∈ s
  /-- The top level ends with the only instruction that ends the program. -/
  top : ∃ last, code.segments[0]? = some ⟨0, last + 1⟩ ∧
    ∀ position : Nat, code.instructions[position]? = some .halt ↔ position = last
  /-- At its end, every function returns `null`. -/
  functions : ∀ (k : Nat) (s : Segment), code.segments[k + 1]? = some s →
    s.first + 2 ≤ s.stop ∧ code.instructions[s.stop - 2]? = some (.push .null) ∧
      code.instructions[s.stop - 1]? = some .return
  targets : ∀ s ∈ code.segments, ∀ position ∈ s, ∀ (i : Instr) (target : Nat),
    code.instructions[position]? = some i → i.target? = some target → target ∈ s
  calls : ∀ (position function argc : Nat),
    code.instructions[position]? = some (.call function argc) → function < code.functions.size
  names : (code.functions.toList.map FunctionEntry.name).Nodup
  undefined : ∀ (position : Nat) (x : String),
    code.instructions[position]? = some (.callUndefined x) →
      x ∉ code.functions.toList.map FunctionEntry.name

end Code

/-! ### References -/

/-- Whatever the instruction calls has been looked up among the names of all functions: it is called
by its place, or else it is none of them. No such instruction ends the program. -/
def Instr.Resolved (names : List String) : Instr → Prop
  | call function _ => function < names.length
  | callUndefined x => x ∉ names
  | halt => False
  | _ => True

/-- The same of several instructions. -/
def AllResolved (names : List String) (is : List Instr) : Prop := ∀ i ∈ is, i.Resolved names

section Resolution

variable {names : List String}

@[simp]
theorem allResolved_nil : AllResolved names [] := fun _ h => nomatch h

@[simp]
theorem allResolved_cons {i : Instr} {is : List Instr} :
    AllResolved names (i :: is) ↔ i.Resolved names ∧ AllResolved names is := List.forall_mem_cons

@[simp]
theorem allResolved_append {is js : List Instr} :
    AllResolved names (is ++ js) ↔ AllResolved names is ∧ AllResolved names js :=
  List.forall_mem_append

@[simp]
theorem allResolved_map {α : Type} {f : α → Instr} {xs : List α} :
    AllResolved names (xs.map f) ↔ ∀ x ∈ xs, (f x).Resolved names := List.forall_mem_map

mutual

theorem Expr.resolved_code (start : Nat) : (e : Expr) → AllResolved names (e.code names start)
  | .literal _ => by simp [Expr.code, Instr.Resolved]
  | .name _ => by simp [Expr.code, Instr.Resolved]
  | .list items => by simp [Expr.code, Instr.Resolved, Expr.resolved_codes start items]
  | .emptySet => by simp [Expr.code, Instr.Resolved]
  | .setOf e => by simp [Expr.code, Instr.Resolved, Expr.resolved_code start e]
  | .emptyMap => by simp [Expr.code, Instr.Resolved]
  | .mapOf e => by simp [Expr.code, Instr.Resolved, Expr.resolved_code start e]
  | .unary _ e => by simp [Expr.code, Instr.Resolved, Expr.resolved_code start e]
  | .binary _ l r => by
    simp [Expr.code, Instr.Resolved, Expr.resolved_code start l, Expr.resolved_code _ r]
  | .logical op l r => by
    cases op <;>
      simp [Expr.code, Instr.Resolved, Expr.resolved_code start l, Expr.resolved_code _ r]
  | .call f args => by
    cases hf : names.idxOf? f with
    | none =>
      have hname : f ∉ names := List.idxOf?_eq_none_iff.1 hf
      simp [Expr.code, hf, Instr.Resolved, hname]
    | some function =>
      obtain ⟨hlt, -⟩ := List.idxOf?_eq_some_iff.1 hf
      simp [Expr.code, hf, Instr.Resolved, hlt, Expr.resolved_codes start args]
  | .builtin _ args => by simp [Expr.code, Instr.Resolved, Expr.resolved_codes start args]
  | .capability _ args => by simp [Expr.code, Instr.Resolved, Expr.resolved_codes start args]
  | .method e _ args => by
    simp [Expr.code, Instr.Resolved, Expr.resolved_code start e, Expr.resolved_codes _ args]
  | .index e i => by
    simp [Expr.code, Instr.Resolved, Expr.resolved_code start e, Expr.resolved_code _ i]
  | .attribute e _ => by simp [Expr.code, Instr.Resolved, Expr.resolved_code start e]

theorem Expr.resolved_codes (start : Nat) :
    (es : List Expr) → AllResolved names (Expr.codes names start es)
  | [] => allResolved_nil
  | e :: rest => by simp [Expr.codes, Expr.resolved_code start e, Expr.resolved_codes _ rest]

end

theorem Expr.resolved_codeOrNull (start : Nat) (e : Option Expr) :
    AllResolved names (Expr.codeOrNull names start e) := by
  cases e with
  | none => simp [Expr.codeOrNull, Instr.Resolved]
  | some e => exact e.resolved_code start

theorem Pattern.resolved_code (constant : Bool) (pattern : Pattern) :
    AllResolved names (pattern.code constant) := by
  cases pattern <;> simp [Pattern.code, Instr.Resolved]

theorem Target.resolved_code (start : Nat) (op : Option BinaryOp) (value : Expr)
    (target : Target) : AllResolved names (target.code names start op value) := by
  rcases target with x | ⟨object, index⟩ | xs <;> cases op <;>
    simp [Target.code, Instr.Resolved, Expr.resolved_code]

mutual

theorem Stmt.resolved_code (loop : LoopTargets) (start : Nat) :
    (stmt : Stmt) → AllResolved names (stmt.code names loop start)
  | .comment _ => allResolved_nil
  | .function .. => allResolved_nil
  | .declare pattern value constant => by
    simp [Stmt.code, Expr.resolved_codeOrNull, Pattern.resolved_code]
  | .assign target op value => target.resolved_code start op value
  | .expr value => by simp [Stmt.code, Instr.Resolved, Expr.resolved_code]
  | .cond arms => Arms.resolved_code loop _ start arms
  | .while _ body => by
    simp [Stmt.code, Instr.Resolved, Expr.resolved_code, Stmt.resolved_codes _ _ body]
  | .forEach _ _ body => by
    simp [Stmt.code, Instr.Resolved, Expr.resolved_code, Pattern.resolved_code,
      Stmt.resolved_codes _ _ body]
  | .return value => by simp [Stmt.code, Instr.Resolved, Expr.resolved_codeOrNull]
  | .break => by
    unfold Stmt.code
    split <;> simp [Instr.Resolved]
  | .continue => by simp [Stmt.code, Instr.Resolved]
  | .throw _ message => by simp [Stmt.code, Instr.Resolved, Expr.resolved_code]

theorem Stmt.resolved_codes (loop : LoopTargets) (start : Nat) :
    (stmts : List Stmt) → AllResolved names (Stmt.codes names loop start stmts)
  | [] => allResolved_nil
  | stmt :: rest => by
    simp [Stmt.codes, Stmt.resolved_code loop start stmt, Stmt.resolved_codes loop _ rest]

theorem Arms.resolved_code (loop : LoopTargets) (exit start : Nat) :
    (arms : Arms) → AllResolved names (arms.code names loop exit start)
  | .done => allResolved_nil
  | .otherwise body => Stmt.resolved_codes loop start body
  | .arm condition body rest => by
    simp [Arms.code, Instr.Resolved, Expr.resolved_code, Stmt.resolved_codes loop _ body,
      Arms.resolved_code loop exit _ rest]

end

theorem Definition.resolved_code (start : Nat) (d : Definition) :
    AllResolved names (d.code names start) := by
  simp [Definition.code, Instr.Resolved, Stmt.resolved_codes]

theorem Definition.resolved_codes (start : Nat) (definitions : List Definition) :
    AllResolved names (Definition.codes names start definitions).1 := by
  induction definitions generalizing start with
  | nil => exact allResolved_nil
  | cons d rest ih => exact allResolved_append.2 ⟨d.resolved_code start, ih _⟩

end Resolution

/-! ### Jumps -/

/-- All jumps in a piece of code lead to where they are accepted. -/
theorem AllFlow.target {functions : Array FunctionEntry} {accept : Nat → Prop} {start : Nat}
    {is : List Instr} {xs : List Shape}
    (h : AllFlow functions (fun position _ => accept position) start is xs) {i : Instr}
    (hi : i ∈ is) {target : Nat} (htarget : i.target? = some target) : accept target := by
  obtain ⟨k, hk⟩ := List.mem_iff_getElem?.1 hi
  obtain ⟨s, -, hflows⟩ := h.get hk
  exact hflows.target htarget

section Jumps

variable {names : List String} {dialect : Dialect} {i : Instr} {target : Nat}

/-- No jump leads out of a function. -/
theorem Definition.target_code {start : Nat} {d : Definition}
    (hwf : Stmt.AllWellFormed dialect .function d.body) (hi : i ∈ d.code names start)
    (htarget : i.target? = some target) :
    start ≤ target ∧ target < start + (d.code names start).length := by
  have hlength := d.length_shapes names start
  have hpos : 0 < (d.shapes names).length := by simp [Definition.shapes]
  have hsegment := Definition.segment
    (entered_entriesAt names (Nat.lt_add_of_pos_right (n := start) hpos)) upward_frame hwf
    (stands_frame rfl)
  rw [← hlength]
  exact hsegment.flow.target hi htarget

/-- No jump leads out of the top level. -/
theorem Stmt.target_top {program : List Stmt} (hwf : Stmt.AllWellFormed dialect .top program)
    (hi : i ∈ Stmt.codes names .none 0 program ++ [Instr.halt])
    (htarget : i.target? = some target) :
    target < (Stmt.codes names .none 0 program ++ [Instr.halt]).length := by
  have hpos : 0 < (Stmt.allShapes names false .top program ++
      [Shape.top.afterAll program]).length := by simp
  have hsegment := Stmt.segment_top (entered_entriesAt names hpos) upward_frame hwf
    (stands_frame (Nat.zero_add _))
  rw [hsegment.flow.length_eq]
  exact (hsegment.flow.target hi htarget).2

end Jumps

/-! ### The segments of lowered code -/

/-- The segment of a code that consists of the given instructions. -/
structure Code.Segment.Consists (code : Code) (s : Segment) (is : List Instr) : Prop where
  holds : code.Holds s.first is
  stop : s.stop = s.first + is.length

/-- There is an instruction at every position of a segment, and it is one of those of which the
segment consists. -/
theorem Code.Segment.Consists.getElem? {code : Code} {s : Code.Segment} {is : List Instr}
    (h : s.Consists code is) {position : Nat} (hposition : position ∈ s) :
    ∃ i ∈ is, code.instructions[position]? = some i := by
  obtain ⟨hfirst, hlt⟩ := Code.Segment.mem_iff.1 hposition
  rw [h.stop] at hlt
  have hk : position - s.first < is.length := by omega
  have hholds := h.holds _ _ (List.getElem?_eq_getElem hk)
  rw [Nat.add_sub_cancel' hfirst] at hholds
  exact ⟨is[position - s.first], List.getElem_mem hk, hholds⟩

theorem Code.Segment.Consists.mem {code : Code} {s : Code.Segment} {is : List Instr}
    (h : s.Consists code is) {position : Nat} (hposition : position ∈ s) {i : Instr}
    (hi : code.instructions[position]? = some i) : i ∈ is := by
  obtain ⟨j, hj, heq⟩ := h.getElem? hposition
  cases hi.symm.trans heq
  exact hj

/-- The segments of functions whose code begins at a position. -/
def Definition.segments (names : List String) (start : Nat) :
    List Definition → List Code.Segment
  | [] => []
  | d :: rest =>
    let stop := start + (d.code names start).length
    ⟨start, stop⟩ :: Definition.segments names stop rest

section Definitions

variable (names : List String) (start : Nat) (definitions : List Definition)

theorem Definition.segmentsFrom_codes (first : Nat) :
    Code.segmentsFrom first (start + (Definition.codes names start definitions).1.length)
        (Definition.codes names start definitions).2 =
      ⟨first, start⟩ :: Definition.segments names start definitions := by
  induction definitions generalizing first start with
  | nil => rfl
  | cons d rest ih =>
    have hrest := ih (start + (d.code names start).length) start
    simp only [Definition.codes, Definition.segments, Code.segmentsFrom, List.length_append]
    rw [← Nat.add_assoc, hrest]

theorem Definition.map_name_codes :
    (Definition.codes names start definitions).2.map FunctionEntry.name =
      definitions.map Definition.name := by
  induction definitions generalizing start with
  | nil => rfl
  | cons d rest ih => exact congrArg (d.name :: ·) (ih _)

theorem Definition.ascending_segments :
    (Definition.segments names start definitions).Pairwise (fun s t => s.stop ≤ t.first) ∧
      ∀ s ∈ Definition.segments names start definitions, start ≤ s.first := by
  induction definitions generalizing start with
  | nil => exact ⟨.nil, fun _ h => nomatch h⟩
  | cons d rest ih =>
    obtain ⟨hpairwise, hstart⟩ := ih (start + (d.code names start).length)
    refine ⟨.cons hstart hpairwise, List.forall_mem_cons.2 ⟨Nat.le_refl start, fun s hs => ?_⟩⟩
    exact Nat.le_trans (Nat.le_add_right _ _) (hstart s hs)

end Definitions

/-- The segment of a function consists of its code. -/
theorem Definition.consists_segments {names : List String} {code : Code} {start k : Nat}
    {definitions : List Definition} {s : Code.Segment}
    (hholds : code.Holds start (Definition.codes names start definitions).1)
    (hs : (Definition.segments names start definitions)[k]? = some s) :
    ∃ d ∈ definitions, s.Consists code (d.code names s.first) := by
  induction definitions generalizing start k with
  | nil => simp [Definition.segments] at hs
  | cons d rest ih =>
    cases k with
    | zero =>
      cases hs
      exact ⟨d, List.mem_cons_self, hholds.append.1, rfl⟩
    | succ k =>
      obtain ⟨e, he, hconsists⟩ := ih hholds.append.2 hs
      exact ⟨e, List.mem_cons_of_mem d he, hconsists⟩

/-- The segment of a function ends with a return. -/
theorem Code.Segment.Consists.returns {code : Code} {s : Code.Segment} {names : List String}
    {d : Definition} (h : s.Consists code (d.code names s.first)) :
    s.first + 2 ≤ s.stop ∧ code.instructions[s.stop - 2]? = some (.push .null) ∧
      code.instructions[s.stop - 1]? = some .return := by
  have hstop : s.stop = s.first + (Stmt.codes names .none s.first d.body).length + 2 := by
    rw [h.stop, Definition.code, List.length_append]
    rfl
  have hend := h.holds.append.2
  refine ⟨by omega, ?_, ?_⟩
  · rw [hstop]
    exact hend.head
  · rw [hstop]
    exact hend.tail.head

section Programs

variable (program : List Stmt)

theorem size_lower :
    let names := (Stmt.allDefinitions program).map Definition.name
    let top := Stmt.codes names .none 0 program ++ [Instr.halt]
    (lower program).instructions.size = top.length +
      (Definition.codes names top.length (Stmt.allDefinitions program)).1.length := by
  simp only [lower, List.size_toArray, List.length_append]

/-- The segment of the top level, and those of the functions. -/
theorem segments_lower :
    let names := (Stmt.allDefinitions program).map Definition.name
    let top := Stmt.codes names .none 0 program ++ [Instr.halt]
    (lower program).segments =
      ⟨0, top.length⟩ :: Definition.segments names top.length (Stmt.allDefinitions program) := by
  intro names top
  rw [Code.segments, size_lower]
  exact Definition.segmentsFrom_codes names top.length (Stmt.allDefinitions program) 0

/-- The functions of a program are those of its table. -/
theorem map_name_lower : (lower program).functions.toList.map FunctionEntry.name =
    (Stmt.allDefinitions program).map Definition.name :=
  Definition.map_name_codes _ _ _

theorem toList_lower :
    let names := (Stmt.allDefinitions program).map Definition.name
    let body := Stmt.codes names .none 0 program
    (lower program).instructions.toList =
      body ++ Instr.halt :: (Definition.codes names (body ++ [Instr.halt]).length
        (Stmt.allDefinitions program)).1 := by
  simp [lower]

/-- An instruction of a program ends it, or calls what has been looked up. -/
theorem resolved_lower {position : Nat} {i : Instr}
    (hi : (lower program).instructions[position]? = some i) :
    i = .halt ∨ i.Resolved ((Stmt.allDefinitions program).map Definition.name) := by
  rw [← Array.getElem?_toList, toList_lower] at hi
  have hmem := List.mem_of_getElem? hi
  rw [List.mem_append, List.mem_cons] at hmem
  obtain hbody | rfl | hbodies := hmem
  · exact .inr (Stmt.resolved_codes .none 0 program i hbody)
  · exact .inl rfl
  · exact .inr (Definition.resolved_codes _ _ i hbodies)

/-- What occurs once in a list has one place there. -/
theorem getElem?_append_cons_iff {α : Type} {xs ys : List α} {a : α} (hxs : a ∉ xs) (hys : a ∉ ys)
    (n : Nat) : (xs ++ a :: ys)[n]? = some a ↔ n = xs.length := by
  rcases lt_trichotomy n xs.length with hn | rfl | hn
  · rw [List.getElem?_append_left hn]
    exact iff_of_false (fun h => hxs (List.mem_of_getElem? h)) hn.ne
  · simp
  · obtain ⟨k, rfl⟩ := Nat.exists_eq_add_of_lt hn
    rw [List.getElem?_append_right (by omega), Nat.add_assoc, Nat.add_sub_cancel_left]
    exact iff_of_false (fun h => hys (List.mem_of_getElem? h)) hn.ne'

/-- Only the last instruction of the top level ends the program. -/
theorem halt_lower (position : Nat) :
    let names := (Stmt.allDefinitions program).map Definition.name
    (lower program).instructions[position]? = some .halt ↔
      position = (Stmt.codes names .none 0 program).length := by
  intro names
  rw [← Array.getElem?_toList, toList_lower, getElem?_append_cons_iff]
  · exact Stmt.resolved_codes .none 0 program .halt
  · exact Definition.resolved_codes _ _ .halt

/-- The segment of the top level consists of its code. -/
theorem consists_top :
    let names := (Stmt.allDefinitions program).map Definition.name
    let top := Stmt.codes names .none 0 program ++ [Instr.halt]
    Code.Segment.Consists (lower program) ⟨0, top.length⟩ top :=
  ⟨(holds_lower program).append.1, (Nat.zero_add _).symm⟩

/-- All other segments consist of the code of a function. -/
theorem consists_function {k : Nat} {s : Code.Segment}
    (hs : (lower program).segments[k + 1]? = some s) :
    let names := (Stmt.allDefinitions program).map Definition.name
    ∃ d ∈ Stmt.allDefinitions program, s.Consists (lower program) (d.code names s.first) := by
  intro names
  have hbodies := (holds_lower program).append.2
  rw [Nat.zero_add] at hbodies
  rw [segments_lower] at hs
  exact Definition.consists_segments hbodies hs

/-- A segment consists of the code of the top level or of a function. -/
theorem exists_consists {s : Code.Segment} (hs : s ∈ (lower program).segments) :
    ∃ is, s.Consists (lower program) is := by
  obtain ⟨k, hk⟩ := List.mem_iff_getElem?.1 hs
  cases k with
  | zero =>
    rw [segments_lower] at hk
    cases hk
    exact ⟨_, consists_top program⟩
  | succ k =>
    obtain ⟨d, -, hconsists⟩ := consists_function program hk
    exact ⟨_, hconsists⟩

/-- The segments of a well-formed program are closed. -/
theorem segmented_lower {dialect : Dialect} (hwf : Stmt.AllWellFormed dialect .top program)
    (hnames : ((Stmt.allDefinitions program).map Definition.name).Nodup) :
    (lower program).Segmented where
  entries := Code.map_first_segmentsFrom _ _ _
  ascending := by
    obtain ⟨hpairwise, hstart⟩ := Definition.ascending_segments _ _ (Stmt.allDefinitions program)
    rw [segments_lower]
    exact .cons hstart hpairwise
  covers position := by
    refine ⟨Code.exists_mem_segmentsFrom (Nat.zero_le position), fun ⟨s, hs, hposition⟩ => ?_⟩
    obtain ⟨is, hconsists⟩ := exists_consists program hs
    obtain ⟨i, -, hi⟩ := hconsists.getElem? hposition
    exact (Array.getElem?_eq_some_iff.1 hi).1
  top := by
    refine ⟨_, ?_, halt_lower program⟩
    rw [segments_lower, List.length_append]
    rfl
  functions k s hs := by
    obtain ⟨d, -, hconsists⟩ := consists_function program hs
    exact hconsists.returns
  targets s hs position hposition i target hi htarget := by
    obtain ⟨k, hk⟩ := List.mem_iff_getElem?.1 hs
    cases k with
    | zero =>
      rw [segments_lower] at hk
      cases hk
      have hmem := (consists_top program).mem hposition hi
      exact ⟨Nat.zero_le target, Stmt.target_top hwf hmem htarget⟩
    | succ k =>
      obtain ⟨d, hd, hconsists⟩ := consists_function program hk
      have hbody := Stmt.wellFormed_allDefinitions program hwf d hd
      have htarget := Definition.target_code hbody (hconsists.mem hposition hi) htarget
      rwa [← hconsists.stop] at htarget
  calls position function argc hi := by
    have hsize := congrArg List.length (map_name_lower program)
    rw [List.length_map, Array.length_toList] at hsize
    obtain heq | hresolved := resolved_lower program hi
    · cases heq
    · rwa [hsize]
  names := by rwa [map_name_lower]
  undefined position x hi := by
    obtain heq | hresolved := resolved_lower program hi
    · cases heq
    · rwa [map_name_lower]

end Programs

/-! ### Runs -/

/-- The state occupies these segments: the next instruction lies in the first one, every caller goes
on in the one behind it, and the last one is the top level. -/
structure State.Occupies (code : Code) (segments : List Code.Segment) (st : State) : Prop where
  within : List.Forall₂ (fun position s => position ∈ s) (st.position :: st.callers) segments
  known : ∀ s ∈ segments, s ∈ code.segments
  top : segments.getLast? = code.segments[0]?

/-- An instruction has led from some occupied segments to a state that occupies others: a call has
entered the segment of a function at its beginning, a return has left a segment, and no other
instruction has moved to another segment. -/
def Instr.Moves (code : Code) (segments : List Code.Segment) (st : State)
    (segments' : List Code.Segment) : Instr → Prop
  | call function _ => ∃ s, code.segments[function + 1]? = some s ∧ st.position = s.first ∧
      segments' = s :: segments
  | «return» => ∃ s, segments = s :: segments'
  | _ => segments' = segments

/-- The states that a run comes to, whatever the worlds are like. -/
inductive Code.Reaches (code : Code) (maxCalls : Nat) : State → Prop
  | init : Reaches code maxCalls .init
  | next {st st' : State} {w : World} {effect : Effect} : Reaches code maxCalls st →
    st.next code maxCalls w = .ok (effect, st') → effect ≠ .halt → Reaches code maxCalls st'

section Runs

variable {code : Code} {segments : List Code.Segment} {st st' : State}

/-- Only a return or the end of the program is the last instruction of a segment. -/
theorem Code.Segmented.succ_mem (hcode : code.Segmented) {s : Code.Segment}
    (hs : s ∈ code.segments) {position : Nat} (hposition : position ∈ s) {i : Instr}
    (hi : code.instructions[position]? = some i) (hreturn : i ≠ .return) (hhalt : i ≠ .halt) :
    position + 1 ∈ s := by
  obtain ⟨hfirst, hlt⟩ := Code.Segment.mem_iff.1 hposition
  refine Code.Segment.mem_iff.2 ⟨Nat.le_succ_of_le hfirst, Nat.lt_of_le_of_ne hlt fun hlast => ?_⟩
  obtain ⟨k, hk⟩ := List.mem_iff_getElem?.1 hs
  cases k with
  | zero =>
    obtain ⟨last, htop, hlaststop⟩ := hcode.top
    cases htop.symm.trans hk
    cases hi.symm.trans ((hlaststop position).2 (Nat.succ.inj hlast))
    exact hhalt rfl
  | succ k =>
    obtain ⟨-, -, hend⟩ := hcode.functions k s hk
    rw [← hlast, Nat.add_sub_cancel] at hend
    cases hi.symm.trans hend
    exact hreturn rfl

theorem Code.Segmented.occupies_init (hcode : code.Segmented) :
    ∃ segments, State.init.Occupies code segments := by
  obtain ⟨last, htop, -⟩ := hcode.top
  refine ⟨[⟨0, last + 1⟩], .cons ⟨Nat.le_refl 0, Nat.succ_pos last⟩ .nil, ?_, htop.symm⟩
  exact List.forall_mem_singleton.2 (List.mem_of_getElem? htop)

theorem State.Occupies.position_lt (hcode : code.Segmented) (h : st.Occupies code segments) :
    st.position < code.instructions.size := by
  obtain ⟨hwithin, hknown, -⟩ := h
  cases hwithin with
  | cons hposition _ => exact (hcode.covers _).2 ⟨_, hknown _ List.mem_cons_self, hposition⟩

/-- The segments that are occupied after a step. -/
theorem State.Occupies.next (hcode : code.Segmented) (h : st.Occupies code segments)
    {maxCalls : Nat} {w : World} {effect : Effect}
    (hnext : st.next code maxCalls w = .ok (effect, st')) (heffect : effect ≠ .halt) :
    ∃ i segments', code.instructions[st.position]? = some i ∧ st'.Occupies code segments' ∧
      i.Moves code segments st' segments' := by
  obtain ⟨i, hi, hcases⟩ := State.next_cases hnext heffect
  obtain ⟨hwithin, hknown, htop⟩ := h
  cases hwithin with
  | @cons _ s _ others hposition hcallers =>
    obtain ⟨hs, hothers⟩ := List.forall_mem_cons.1 hknown
    obtain ⟨function, argc, f, rfl, hf, hentry, hbehind⟩ | ⟨rfl, hreturn⟩ |
      ⟨htransfer, hhalt, hsame, hgoes⟩ := hcases
    · obtain ⟨t, ht, hfirst⟩ := Code.exists_segment hf
      obtain ⟨hlength, -⟩ := hcode.functions function t ht
      have hinside : st'.position ∈ t := Code.Segment.mem_iff.2 (by omega)
      have hreturnTo := hcode.succ_mem hs hposition hi nofun nofun
      refine ⟨_, t :: s :: others, hi, ⟨?_, ?_, htop⟩, t, ht, by omega, rfl⟩
      · rw [hbehind]
        exact .cons hinside (.cons hreturnTo hcallers)
      · exact List.forall_mem_cons.2 ⟨List.mem_of_getElem? ht, hknown⟩
    · rw [hreturn] at hcallers
      refine ⟨_, others, hi, ⟨hcallers, hothers, ?_⟩, s, rfl⟩
      cases hcallers with
      | cons => exact htop
    · have hinside : st'.position ∈ s := by
        obtain hposition' | htarget := hgoes
        · rw [hposition']
          refine hcode.succ_mem hs hposition hi ?_ hhalt
          rintro rfl
          exact htransfer trivial
        · exact hcode.targets s hs _ hposition i _ hi htarget
      refine ⟨i, s :: others, hi, ⟨?_, hknown, htop⟩, ?_⟩
      · rw [hsame]
        exact .cons hinside hcallers
      · cases i with
        | call | «return» => exact absurd trivial htransfer
        | _ => rfl

/-- Wherever a run comes to, it occupies segments of the code. -/
theorem Code.Reaches.occupies (hcode : code.Segmented) {maxCalls : Nat}
    (h : code.Reaches maxCalls st) : ∃ segments, st.Occupies code segments := by
  induction h with
  | init => exact hcode.occupies_init
  | next _ hnext heffect ih =>
    obtain ⟨segments, hsegments⟩ := ih
    obtain ⟨i, segments', -, hoccupies, -⟩ := hsegments.next hcode hnext heffect
    exact ⟨segments', hoccupies⟩

end Runs

/-- The code of every program that can be read is closed, and its table has the functions of the
program. No run goes beyond its end, and none goes from a segment to another one but by a call or a
return. -/
theorem Program.segmented_code {p : Program} {body : List Stmt} (h : p.read = .ok body) :
    let code := lower body
    p.code = .ok code ∧ code.Segmented ∧
      code.functions.toList.map FunctionEntry.name = Stmt.functionNames body ∧
      ∀ maxCalls st, code.Reaches maxCalls st →
        st.position < code.instructions.size ∧ ∃ segments, st.Occupies code segments ∧
          ∀ w effect st', st.next code maxCalls w = .ok (effect, st') → effect ≠ .halt →
            ∃ i segments', code.instructions[st.position]? = some i ∧
              st'.Occupies code segments' ∧ i.Moves code segments st' segments' := by
  obtain ⟨hwf, hnames⟩ := Program.wellFormed_of_read h
  have hcode := segmented_lower body hwf hnames
  refine ⟨by rw [Program.code, h]; rfl, hcode, map_name_lower body, fun maxCalls st hreaches => ?_⟩
  obtain ⟨segments, hsegments⟩ := hreaches.occupies hcode
  refine ⟨hsegments.position_lt hcode, segments, hsegments, fun w effect st' hnext heffect => ?_⟩
  exact hsegments.next hcode hnext heffect

/-- A function with a loop, which calls a function that does not exist. -/
def Program.loop : Program := ⟨.indented, "def f():\n while g():\n  break\nf()\n"⟩

/-- The tree of `loop`. -/
def Program.loopTree : List Stmt :=
  [.function "f" [] [.while (.call "g" []) [.break]], .expr (.call "f" [])]

theorem Program.segmented_loop :
    Program.loop.read = .ok Program.loopTree ∧
      (lower Program.loopTree).segments = [⟨0, 3⟩, ⟨3, 9⟩] ∧
      (lower Program.loopTree).Segmented := by
  have hread : Program.loop.read = .ok Program.loopTree := by cbv
  obtain ⟨-, hsegmented, -⟩ := Program.segmented_code hread
  exact ⟨hread, by decide, hsegmented⟩

end Labyrinth
