import Labyrinth.Proofs.BreadthFirst.Searching
import Labyrinth.Proofs.WallFollower.Text
import Labyrinth.Proofs.WallFollower.Touring

/-!
# The walk of the template

A round of the loop of the template does what a walker does who keeps a wall on his right: it goes
through the four turns, and makes a step in the first direction in which there is an opening.

## Main results

* `WallFollower.ensures_step`, `WallFollower.ensures_openTowards`: what the functions do.
* `WallFollower.Stands.ensures_round`: a round of the loop.
* `WallFollower.evaluate_tree`: what the tree of the template means.
-/

namespace Labyrinth

open Labyrinth.Eval

namespace Stage

/-- The stage and the heading after a walker has tried to go on who keeps a wall on his right. -/
def onward (g : Stage) (dir : Direction) : Stage × Direction :=
  match dir.tried.find? fun dir' => (g.world.grid.opening? g.world.cursor dir').isSome with
  | some dir' => (g.apply (.move dir'), dir')
  | none => (g, dir)

/-- The stage when such a walker has come to the exit, if so many rounds suffice. -/
def tour : (rounds : Nat) → Stage → Direction → Option Stage
  | 0, _, _ => none
  | rounds + 1, g, dir =>
    if g.world.atExit then some g else tour rounds (g.onward dir).1 (g.onward dir).2

end Stage

namespace WallFollower

open BreadthFirst (coordinate constants element move ensures_coordinate getElem?_positionMap_x
  getElem?_positionMap_y)

attribute [local simp] Stmt.execAll Stmt.exec Arms.exec Expr.evalOrNull Expr.eval Expr.evalAll
  Pattern.bind Target.assign

variable {d : Dialect} {maxCalls fuel depth : Nat} {scene : Scene} {c : Coord} {dir : Direction}
  {w : World}

/-! ### Functions -/

/-- A number is compared with that of a direction. -/
theorem binary_eq_number (h : Heap) (a b : Direction) :
    h.binary .eq (.int (number a)) (.int (number b)) = .ok (.bool (a == b), h) := by
  have : (number a == number b) = (a == b) := by cases a <;> cases b <;> rfl
  rw [← this]
  rfl

/-- The function `step` makes the step in the direction with a number. -/
theorem ensures_step {definitions : List Definition} {post : Value → Scene → Prop}
    (hdepth : depth < maxCalls) :
    (callAt definitions maxCalls (fuel + 1) depth step [.int (number dir)]).Ensures scene post ↔
      post .null (scene.apply (.move dir)) := by
  rw [ensures_callAt rfl hdepth]
  cases dir <;>
    (simp [step, isNumber, BreadthFirst.move, Value.ofLiteral, binary_eq_number, Flow.result]; rfl)

/-- The list `t` holds the offsets of the directions, under their numbers. -/
def HasOffsets (h : Heap) (t : Nat) : Prop :=
  t < h.lists.size ∧ ∀ dir, ∃ v, (h.list t)[(number dir).toInt.toNat]? = some v ∧
    h.IsList [] v #[.int (Int64.ofInt dir.offset.1), .int (Int64.ofInt dir.offset.2)]

theorem HasOffsets.keeps {h h' : Heap} {t : Nat} (ht : HasOffsets h t) (hk : h.Keeps [] h') :
    HasOffsets h' t := by
  obtain ⟨hlt, hall⟩ := ht
  refine ⟨Nat.lt_of_lt_of_le hlt hk.size_le, fun dir => ?_⟩
  obtain ⟨v, hget, hv⟩ := hall dir
  exact ⟨v, by rw [hk.list_eq t hlt List.not_mem_nil, hget], hv.keeps hk⟩

/-- The offset of a direction is found under its number. -/
theorem HasOffsets.exists_loadIndex {h : Heap} {t : Nat} (ht : HasOffsets h t) (dir : Direction) :
    ∃ a, h.loadIndex (.list t) (.int (number dir)) = .ok (.list a) ∧
      h.loadIndex (.list a) (.int 0) = .ok (.int (Int64.ofInt dir.offset.1)) ∧
      h.loadIndex (.list a) (.int 1) = .ok (.int (Int64.ofInt dir.offset.2)) := by
  obtain ⟨-, hall⟩ := ht
  obtain ⟨_, hget, a, rfl, -, -, ha⟩ := hall dir
  refine ⟨a, Heap.loadIndex_list ?_ hget, Heap.loadIndex_list (n := 0) rfl (by rw [ha]; rfl),
    Heap.loadIndex_list (n := 1) rfl (by rw [ha]; rfl)⟩
  cases dir <;> rfl

/-- The function tells whether there is an opening. -/
theorem ensures_openTowards {definitions : List Definition} {t : Nat} {b : Bool}
    {post : Value → Scene → Prop} (hdepth : depth < maxCalls)
    (ht : scene.globals.lookup "HEADINGS" = some ⟨.list t, b⟩)
    (hoffsets : HasOffsets scene.heap t) :
    (callAt definitions maxCalls (fuel + 1) depth (openTowards d)
        [.int c.x, .int c.y, .int (number dir)]).Ensures scene post ↔
      post (.bool (scene.stage.world.grid.opening? c dir).isSome) scene := by
  obtain ⟨a, hload, hdx, hdy⟩ := hoffsets.exists_loadIndex dir
  have hx := Heap.binary_add_int (c.checked_add_x dir)
  have hy := Heap.binary_add_int (c.checked_add_y dir)
  have hheadings : (scene.setLocals []).value? (depth + 1) "HEADINGS" = some (.list t) := by
    simp [Scene.value?, Scene.scope, ht]
  rw [ensures_callAt rfl hdepth]
  simp [openTowards, BreadthFirst.bind, element, hheadings, hload, Value.ofLiteral, hdx, hdy, hx,
    hy, World.isWall_xTo_yTo, Flow.result]
  rfl

/-! ### A round of the loop -/

/-- The number of a turn leads from one direction to another one. -/
def LeadsTo (dir : Direction) (n : Int64) (dir' : Direction) : Prop :=
  ∃ m, Integer.checked ((number dir).toInt + n.toInt) = .ok m ∧
    Integer.remainder m 4 = .ok (number dir')

theorem leadsTo_turns (dir : Direction) : List.Forall₂ (LeadsTo dir) turns dir.tried := by
  have hleads {n : Int64} {dir' : Direction}
      (hsum : Integer.checked ((number dir).toInt + n.toInt) = .ok (number dir + n))
      (hrem : Integer.remainder (number dir + n) 4 = .ok (number dir')) : LeadsTo dir n dir' :=
    ⟨_, hsum, hrem⟩
  cases dir <;>
    exact .cons (hleads rfl rfl) (.cons (hleads rfl rfl) (.cons (hleads rfl rfl)
      (.cons (hleads rfl rfl) .nil)))

/-- A program that looks in a direction. -/
structure Faces (g : Stage) (dir : Direction) (scene : Scene) : Prop where
  stage : scene.stage = g
  offsets : ∃ t b, scene.globals.lookup "HEADINGS" = some ⟨.list t, b⟩ ∧ HasOffsets scene.heap t
  heading : scene.globals.lookup "heading" = some ⟨.int (number dir), false⟩
  pos : ∃ v, scene.globals.lookup "pos" = some ⟨v, false⟩

/-- A program that looks in a direction, and knows where the cursor stands. -/
structure Stands (g : Stage) (dir : Direction) (scene : Scene) : Prop extends
    Faces g dir scene where
  position : ∃ p, scene.globals.lookup "pos" = some ⟨.map p, false⟩ ∧
    (scene.heap.map p)[Key.str "x"]? = some (.int g.world.position.x) ∧
    (scene.heap.map p)[Key.str "y"]? = some (.int g.world.position.y)

variable {g : Stage} {x : String} {v : Value}

theorem value?_of_globals {b : Binding} (h : scene.globals.lookup x = some b) :
    scene.value? 0 x = some b.value := by
  rw [Scene.value?, Scene.scope, if_pos rfl, h]
  rfl

theorem lookup_globals_bind (scene : Scene) (x y : String) (b : Binding) :
    (scene.bind 0 x b).globals.lookup y = if y = x then some b else scene.globals.lookup y := by
  rw [Scene.bind, if_pos rfl, Scope.lookup_insertBinding]
  simp only [beq_iff_eq]

/-- Another name is bound. -/
theorem Stands.declare (h : Stands g dir scene) (hx : x ∉ ["HEADINGS", "heading", "pos"])
    (b : Binding) : Stands g dir (scene.bind 0 x b) := by
  simp only [List.mem_cons, List.not_mem_nil, or_false, not_or, ← ne_eq] at hx
  obtain ⟨hoffsets, hheading, hpos⟩ := hx
  refine ⟨⟨(scene.stage_bind 0 x b).trans h.stage, ?_, ?_, ?_⟩, ?_⟩
  · simpa [lookup_globals_bind, hoffsets.symm] using h.offsets
  · simpa [lookup_globals_bind, hheading.symm] using h.heading
  · simpa [lookup_globals_bind, hpos.symm] using h.pos
  · simpa [lookup_globals_bind, hpos.symm] using h.position

/-- A variable is changed. -/
theorem ensures_set {setting : Setting} (hsetting : setting.depth = 0) {value : Expr}
    {post : Flow → Scene → Prop}
    (h : (value.eval setting).Ensures scene fun v scene' =>
      (∃ old, scene'.globals.lookup x = some ⟨old, false⟩) ∧
        post .next (scene'.bind 0 x ⟨v, false⟩)) :
    ((set x value d).exec setting).Ensures scene post := by
  cases d with
  | indented =>
    simp [set, hsetting]
    exact h.imp fun _ _ h => h.2
  | braced =>
    simp [set, hsetting]
    refine h.imp ?_
    rintro v scene' ⟨⟨old, hold⟩, hpost⟩
    exact (ensures_store hold).2 hpost

/-- The direction to which a turn leads. -/
def candidate (d : Dialect) : Stmt :=
  BreadthFirst.bind d "candidate" (.binary .rem (.binary .add (.name "heading") (.name "turn"))
    (.literal (.int 4)))

/-- The direction to which a turn leads is computed. -/
theorem Stands.ensures_candidate (h : Stands g dir scene) (setting : Setting)
    (hsetting : setting.depth = 0) {n : Int64} {dir' : Direction} (hn : LeadsTo dir n dir') :
    ((Pattern.single "turn").bind 0 false (.int n)).Ensures scene fun _ scene' =>
      ((candidate d).exec setting).Ensures scene' fun flow scene'' =>
        flow = .next ∧ Stands g dir scene'' ∧
          scene''.value? 0 "candidate" = some (.int (number dir')) := by
  obtain ⟨m, hsum, hrem⟩ := hn
  have hadd := Heap.binary_add_int hsum
  have hheading := value?_of_globals h.heading
  have hremainder (h : Heap) :
      h.binary .rem (.int m) (.int 4) = .ok (.int (number dir'), h) := by
    simp only [Heap.binary, Heap.arithmetic, hrem]
    rfl
  simp [candidate, BreadthFirst.bind, hsetting, hheading, Value.ofLiteral, hadd, hremainder]
  exact (h.declare (by decide) _).declare (by decide) _

/-- One turn is tried. -/
theorem Stands.ensures_tryTurn (h : Stands g dir scene) (hcalls : 0 < maxCalls) {n : Int64}
    {dir' : Direction} (hn : LeadsTo dir n dir') :
    ((do
      (Pattern.single "turn").bind 0 false (.int n)
      Stmt.execAll (settingAt (definitions d) maxCalls (fuel + 1) 0) (tryTurn d) :
        Eval Flow)).Ensures scene fun flow scene' =>
      if (g.world.grid.opening? g.world.cursor dir').isSome then
        flow = .break ∧ Faces (g.apply (.move dir')) dir' scene'
      else flow = .next ∧ Stands g dir scene' := by
  rw [ensures_bind]
  have hturned := h.ensures_candidate (d := d) (settingAt (definitions d) maxCalls (fuel + 1) 0)
    rfl hn
  refine hturned.imp fun _ _ hcandidate => ?_
  rw [tryTurn, Stmt.execAll, ensures_bind]
  refine hcandidate.imp ?_
  rintro _ scene' ⟨rfl, hstands, hvalue⟩
  obtain ⟨p, hp, hx, hy⟩ := hstands.position
  obtain ⟨t, b, ht, hoffsets⟩ := hstands.offsets
  simp [find?_openTowards, ensures_coordinate (value?_of_globals hp) hx,
    ensures_coordinate (value?_of_globals hp) hy, hvalue, ensures_openTowards hcalls ht hoffsets,
    hstands.stage, World.position]
  cases g.world.grid.opening? g.world.cursor dir' with
  | none => exact ⟨rfl, hstands⟩
  | some c =>
    refine ensures_set rfl ?_
    simp only [Expr.eval, settingAt_depth, ensures_load, hvalue, Option.some.injEq, exists_eq_left']
    refine ⟨⟨_, hstands.heading⟩, ?_⟩
    have hheading' : (scene'.bind 0 "heading" ⟨.int (number dir'), false⟩).value? 0 "heading" =
        some (.int (number dir')) := by simp
    simp [find?_step, ensures_step hcalls]
    refine ⟨?_, ?_, ?_, ?_⟩
    · simp [hstands.stage]
    · exact ⟨t, b, by simpa [lookup_globals_bind] using ht, hoffsets⟩
    · simp [lookup_globals_bind]
    · simpa [lookup_globals_bind] using hstands.pos

/-- The turns are tried one after the other, until one of them leads to an opening. -/
theorem Stands.ensures_tryTurns (h : Stands g dir scene) (hcalls : 0 < maxCalls) {ns : List Int64}
    {dirs : List Direction} (hns : List.Forall₂ (LeadsTo dir) ns dirs) :
    (forEach (fun v => do
      (Pattern.single "turn").bind 0 false v
      Stmt.execAll (settingAt (definitions d) maxCalls (fuel + 1) 0) (tryTurn d))
        (ns.map .int)).Ensures scene fun flow scene' => flow = .next ∧
      match dirs.find? fun dir' => (g.world.grid.opening? g.world.cursor dir').isSome with
      | some dir' => Faces (g.apply (.move dir')) dir' scene'
      | none => Faces g dir scene' := by
  induction hns generalizing scene with
  | nil => exact ensures_pure.2 ⟨rfl, h.toFaces⟩
  | @cons n dir' ns dirs hn _ ih =>
    rw [List.map_cons, forEach, ensures_bind]
    refine (h.ensures_tryTurn hcalls hn).imp fun flow scene' hflow => ?_
    rw [List.find?_cons]
    cases hopen : (g.world.grid.opening? g.world.cursor dir').isSome with
    | true =>
      rw [hopen, if_pos rfl] at hflow
      obtain ⟨rfl, hfaces⟩ := hflow
      exact ensures_pure.2 ⟨rfl, hfaces⟩
    | false =>
      rw [hopen, if_neg Bool.false_ne_true] at hflow
      obtain ⟨rfl, hstands⟩ := hflow
      exact ih hstands

/-- Another list is made. -/
theorem Stands.keeps {heap : Heap} (h : Stands g dir scene) (hk : scene.heap.Keeps [] heap)
    (hmaps : heap.maps = scene.heap.maps) : Stands g dir (scene.setHeap heap) := by
  obtain ⟨t, b, ht, hoffsets⟩ := h.offsets
  refine ⟨⟨h.stage, ⟨t, b, ht, hoffsets.keeps hk⟩, h.heading, h.pos⟩, ?_⟩
  simpa only [Scene.heap_setHeap, Heap.map_congr hmaps, Scene.globals_setHeap] using h.position

/-- The position of the cursor is looked up. -/
theorem Faces.ensures_set_pos {setting : Setting} (h : Faces g dir scene)
    (hsetting : setting.depth = 0) :
    ((set "pos" (.capability .getPosition []) d).exec setting).Ensures scene fun flow scene' =>
      flow = .next ∧ Stands g dir scene' := by
  refine ensures_set hsetting ?_
  obtain ⟨t, b, ht, hoffsets⟩ := h.offsets
  obtain ⟨old, hold⟩ := h.pos
  simp
  refine ⟨⟨old, hold⟩, ⟨?_, ?_, ?_, ?_⟩, ?_⟩
  · simp [h.stage]
  · exact ⟨t, b, by simpa [lookup_globals_bind] using ht,
      hoffsets.keeps (Heap.keeps_of_lists_eq rfl)⟩
  · simpa [lookup_globals_bind] using h.heading
  · simp [lookup_globals_bind]
  · simp [lookup_globals_bind, Heap.map_allocMap_size, h.stage, getElem?_positionMap_x,
      getElem?_positionMap_y]

/-- The turns are put together to a list, and gone through. -/
theorem ensures_turns {setting : Setting} {post : List Value → Scene → Prop} :
    ((Expr.list (turns.map fun n => .literal (.int n))).eval setting).Ensures scene
        (fun v scene => (elements v).Ensures scene post) ↔
      post (turns.map .int)
        (scene.setHeap (scene.heap.allocList (turns.map Value.int).toArray).2) := by
  simp [turns, Value.ofLiteral]

/-- A round of the loop. -/
theorem Stands.ensures_round (h : Stands g dir scene) (hcalls : 0 < maxCalls) (fuel : Nat) :
    (Stmt.execAll (settingAt (definitions d) maxCalls (fuel + 1) 0) (round d)).Ensures scene
      fun flow scene' => flow = .next ∧ Stands (g.onward dir).1 (g.onward dir).2 scene' := by
  have hkeeps := h.keeps (Heap.keeps_allocList [] scene.heap (turns.map Value.int).toArray) rfl
  simp only [round, Stmt.execAll, Stmt.exec, ensures_bind]
  refine ensures_turns.2 ?_
  refine (hkeeps.ensures_tryTurns hcalls (leadsTo_turns dir)).imp ?_
  rintro flow scene' ⟨rfl, hfaces⟩
  have hturned : Faces (g.onward dir).1 (g.onward dir).2 scene' := by
    unfold Stage.onward
    split <;> rename_i hfind <;> rw [hfind] at hfaces <;> exact hfaces
  simp only [ensures_bind]
  refine (hturned.ensures_set_pos rfl).imp ?_
  rintro flow scene'' ⟨rfl, hstands⟩
  simpa using hstands

/-! ### The loop -/

/-- What the loop does within so many rounds. -/
def loopWithin (d : Dialect) (setting : Setting) (rounds : Nat) : Eval Flow :=
  repeatWhile (do
    truth (← (Expr.unary .not (.capability .isExit
      [coordinate d "x", coordinate d "y"])).eval setting))
    (Stmt.execAll setting (round d)) rounds

/-- An evaluation comes to an end on a stage, or to none with its fuel. -/
def EndsOn (a : Eval Flow) (scene : Scene) : Option Stage → Prop
  | some g => a.Ensures scene fun flow scene' => flow = .next ∧ scene'.stage = g
  | none => a scene = .timeout

theorem EndsOn.of_eq {a a' : Eval Flow} {scene' : Scene} {o : Option Stage} (h : EndsOn a' scene' o)
    (heq : a scene = a' scene') : EndsOn a scene o := by
  cases o with
  | none => exact heq.trans h
  | some g =>
    obtain ⟨v, final, hdone, hpost⟩ := h
    exact ⟨v, final, heq.trans hdone, hpost⟩

/-- The program asks whether the cursor has come to the exit. -/
theorem Stands.ensures_goesOn (h : Stands g dir scene) (maxCalls fuel : Nat) :
    (do truth (← (Expr.unary .not (.capability .isExit
      [coordinate d "x", coordinate d "y"])).eval (settingAt (definitions d) maxCalls fuel 0)) :
        Eval Bool).Ensures scene fun b scene' => b = !g.world.atExit ∧ scene' = scene := by
  obtain ⟨p, hp, hx, hy⟩ := h.position
  simp [ensures_coordinate (value?_of_globals hp) hx, ensures_coordinate (value?_of_globals hp) hy,
    World.isExit_x_y, h.stage]
  rfl

/-- The loop ends when the cursor has come to the exit. -/
theorem Stands.endsOn_loopWithin (h : Stands g dir scene) (hcalls : 0 < maxCalls) (rounds : Nat) :
    EndsOn (loopWithin d (settingAt (definitions d) maxCalls (fuel + 1) 0) rounds) scene
      (g.tour rounds dir) := by
  induction rounds generalizing g dir scene with
  | zero => rfl
  | succ rounds ih =>
    obtain ⟨b, scene', htest, hb, rfl⟩ :=
      h.ensures_goesOn (d := d) maxCalls (fuel + 1)
    rw [Stage.tour]
    cases hexit : g.world.atExit with
    | true =>
      rw [hexit] at hb
      obtain rfl : b = false := hb
      exact ⟨.next, scene', bind_of_done htest, rfl, h.stage⟩
    | false =>
      rw [hexit] at hb
      obtain rfl : b = true := hb
      obtain ⟨_, scene'', hround, rfl, hstands⟩ := h.ensures_round (d := d) hcalls fuel
      exact (ih hstands).of_eq ((bind_of_done htest).trans (bind_of_done hround))

/-! ### The program -/

/-- The offsets of the directions are put together to a list. -/
theorem ensures_offsets {setting : Setting} :
    (Expr.evalAll setting (numbered.map offset)).Ensures (.init w) fun values scene =>
      scene.stage = ⟨w, []⟩ ∧
        HasOffsets (scene.heap.allocList values.toArray).2 scene.heap.lists.size := by
  simp [numbered, offset]
  rw [show (Scene.init w).heap = .empty from rfl]
  refine ⟨rfl, by decide, fun dir => ?_⟩
  cases dir <;> exact ⟨_, rfl, _, rfl, by decide, List.not_mem_nil, rfl⟩

/-- Before the loop, the program looks to the right. -/
theorem ensures_start (setting : Setting) (hsetting : setting.depth = 0) :
    (Stmt.execAll setting (start d)).Ensures (.init w) fun flow scene =>
      flow = .next ∧ Stands ⟨w, []⟩ .right scene := by
  have hoffsets : (Expr.evalAll setting (numbered.map offset)).Ensures (.init w) fun values scene =>
      Stands ⟨w, []⟩ .right
        (((((scene.setHeap (scene.heap.allocList values.toArray).2).bind 0 "HEADINGS"
          ⟨.list scene.heap.lists.size, constants d⟩).bind 0 "heading"
          ⟨Value.ofLiteral (.int 1), false⟩).setHeap
          ((scene.heap.allocList values.toArray).2.allocMap
            (Action.positionMap scene.stage.world)).2).bind 0 "pos"
              ⟨.map (scene.heap.allocList values.toArray).2.maps.size, false⟩) := by
    refine ensures_offsets.imp ?_
    rintro values scene ⟨hstage, hoffsets⟩
    refine ⟨⟨?_, ⟨scene.heap.lists.size, constants d, ?_, ?_⟩, ?_, ?_⟩, ?_⟩
    · simp [hstage]
    · simp [lookup_globals_bind]
    · simpa using hoffsets.keeps (Heap.keeps_of_lists_eq (Heap.lists_allocMap _ _))
    · simp [lookup_globals_bind, Value.ofLiteral, number]
    · simp [lookup_globals_bind]
    · simp [lookup_globals_bind, Heap.map_allocMap_size, hstage, getElem?_positionMap_x,
        getElem?_positionMap_y]
  cases d <;> simpa [start, comments, BreadthFirst.bind, definitions, hsetting] using hoffsets

/-- The program ends when the cursor has come to the exit. -/
theorem endsOn_tree (hcalls : 0 < maxCalls) (fuel : Nat) :
    EndsOn (Stmt.execAll (settingAt (definitions d) maxCalls fuel 0) (tree d)) (.init w)
      (Stage.tour fuel ⟨w, []⟩ .right) := by
  obtain ⟨_, scene, hstart, rfl, hstands⟩ :=
    ensures_start (d := d) (w := w) (settingAt (definitions d) maxCalls fuel 0) rfl
  have hloop : EndsOn (loopWithin d (settingAt (definitions d) maxCalls fuel 0) fuel) scene
      (Stage.tour fuel ⟨w, []⟩ .right) := by
    cases fuel with
    | zero => rfl
    | succ fuel => exact hstands.endsOn_loopWithin hcalls _
  refine EndsOn.of_eq ?_ (Stmt.execAll_append_of_done hstart [loop d])
  have hexec : (loop d).exec (settingAt (definitions d) maxCalls fuel 0) =
      loopWithin d (settingAt (definitions d) maxCalls fuel 0) fuel := rfl
  cases htour : Stage.tour fuel ⟨w, []⟩ .right with
  | none =>
    rw [htour] at hloop
    exact bind_of_timeout (hexec ▸ hloop)
  | some g =>
    rw [htour] at hloop
    obtain ⟨_, final, hdone, rfl, hstage⟩ := hloop
    exact ⟨.next, final, bind_of_done (hexec ▸ hdone), rfl, hstage⟩

/-- What the tree of the program means, whichever spelling it has been read from. -/
theorem evaluate_tree (d : Dialect) (hcalls : 0 < maxCalls) (fuel : Nat) (w : World) :
    evaluate fuel maxCalls (tree d) w =
      (Stage.tour fuel ⟨w, []⟩ .right).map fun g => ⟨g.deeds, .finished, g.world⟩ := by
  have hends := endsOn_tree (d := d) (w := w) hcalls fuel
  cases htour : Stage.tour fuel ⟨w, []⟩ .right with
  | none =>
    rw [htour, EndsOn] at hends
    simp only [evaluate, allDefinitions_tree, hends, Option.map_none]
  | some g =>
    rw [htour] at hends
    obtain ⟨flow, scene, hdone, rfl, rfl⟩ := hends
    simp only [evaluate, allDefinitions_tree, hdone, Option.map_some]

end WallFollower

end Labyrinth
