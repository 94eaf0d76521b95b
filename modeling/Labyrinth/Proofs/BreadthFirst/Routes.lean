import Labyrinth.Proofs.BreadthFirst.Cells
import Labyrinth.Proofs.BreadthFirst.Text
import Labyrinth.Proofs.Machine.Ensures

/-!
# Routes

The search of the template remembers for every cell a link to the one before it. One function
follows the links back to the start and collects the directions, another one makes the steps.

## Main results

* `BreadthFirst.ensures_back`: the links from a cell back to the start tell the way to it.
* `BreadthFirst.ensures_follow`: the steps of a route are made one after the other.
-/

namespace Labyrinth

open Labyrinth.Eval

/-- The stage after several attempts to step. -/
def Stage.walk (g : Stage) (steps : List Direction) : Stage :=
  steps.foldl (fun g dir => g.apply (.move dir)) g

namespace BreadthFirst

attribute [local simp] Stmt.execAll Stmt.exec Arms.exec Target.assign Expr.evalOrNull Expr.eval
  Expr.evalAll Pattern.bind

variable {d : Dialect} {definitions : List Definition} {maxCalls fuel depth : Nat}
  {scene : Scene} {h h' : Heap} {live : List Nat} {c : Coord} {m r : Nat} {steps : List Direction}

/-- The names of directions as values. -/
def names (steps : List Direction) : List Value := steps.map fun dir => .str dir.name

/-- The links in the map at an address lead from a cell back to the start, and the steps of the way
are written on them. -/
inductive Linked (h : Heap) (live : List Nat) (m : Nat) : Coord → List Direction → Prop
  | start {c : Coord} (hc : (h.map m)[c.key]? = some .null) : Linked h live m c []
  | step {c c' : Coord} {steps : List Direction} {dir : Direction} {link cell : Value}
    (hc : Linked h live m c steps) (hlink : (h.map m)[c'.key]? = some link)
    (hitems : h.IsList live link #[cell, .str dir.name]) (hcell : h.IsList live cell c.items) :
    Linked h live m c' (steps ++ [dir])

/-- Links are kept with the map and with the lists that are not live. -/
theorem Linked.keeps (hl : Linked h live m c steps) (hk : h.Keeps live h')
    (hm : ∀ (k : Key) (v : Value), (h.map m)[k]? = some v → (h'.map m)[k]? = some v) :
    Linked h' live m c steps := by
  induction hl with
  | start hc => exact .start (hm _ _ hc)
  | step _ hlink hitems hcell ih => exact .step ih (hm _ _ hlink) (hitems.keeps hk) (hcell.keeps hk)

theorem Linked.cons_fresh (hl : Linked h live m c steps) :
    Linked h (h.lists.size :: live) m c steps := by
  induction hl with
  | start hc => exact .start hc
  | step _ hlink hitems hcell ih => exact .step ih hlink hitems.cons_size hcell.cons_size

/-! ### The way back -/

/-- The link of a cell is read. -/
theorem ensures_getLink {v u : Value} {post : Value → Scene → Prop}
    (hlinks : scene.value? (depth + 1) (linksName d) = some (.map m))
    (hcell : scene.value? (depth + 1) "cell" = some v) (hkey : scene.heap.key v = .ok c.key)
    (hlink : (scene.heap.map m)[c.key]? = some u) :
    ((getLink d).eval (settingAt definitions maxCalls fuel (depth + 1))).Ensures scene post ↔
      post u scene := by
  cases d with
  | indented => simp [getLink, hlinks, hcell, Heap.loadIndex_map hkey hlink]
  | braced => simp [getLink, hlinks, hcell, Heap.callMethod_get hkey hlink]

/-- The variable `cell` gets the cell from which the link comes. -/
theorem ensures_goBack {old u : Value} {a : Nat} {post : Flow → Scene → Prop}
    (hlink : scene.value? (depth + 1) "link" = some (.list a))
    (ha : (scene.heap.list a)[0]? = some u)
    (hcell : scene.locals.lookup "cell" = some ⟨old, false⟩) :
    ((goBack d).exec (settingAt definitions maxCalls fuel (depth + 1))).Ensures scene post ↔
      post .next (scene.bind (depth + 1) "cell" ⟨u, false⟩) := by
  have hload : scene.heap.loadIndex (.list a) (.int 0) = .ok u :=
    Heap.loadIndex_list (n := 0) rfl ha
  have hscope : (scene.scope (depth + 1)).lookup "cell" = some ⟨old, false⟩ := hcell
  cases d with
  | indented => simp [goBack, BreadthFirst.bind, element, hlink, Value.ofLiteral, hload, constants]
  | braced => simp [goBack, element, hlink, Value.ofLiteral, hload, ensures_store hscope]

/-- A round of the loop puts a direction in front of the route and goes on with the cell before. -/
theorem ensures_stepBack {dir : Direction} {a l p : Nat} {post : Flow → Scene → Prop}
    (hlinks : scene.value? (depth + 1) (linksName d) = some (.map m))
    (hroute : scene.value? (depth + 1) "route" = some (.list r))
    (hcell : scene.locals.lookup "cell" = some ⟨.list a, false⟩)
    (ha : scene.heap.list a = c.items) (hlink : (scene.heap.map m)[c.key]? = some (.list l))
    (hl : scene.heap.list l = #[.list p, .str dir.name]) (hne : l ≠ r) :
    (Stmt.execAll (settingAt definitions maxCalls fuel (depth + 1)) (stepBack d)).Ensures scene
        post ↔
      post .next (((scene.bind (depth + 1) "link" ⟨.list l, constants d⟩).setHeap
        (scene.heap.modifyList r (·.insertIdxIfInBounds 0 (.str dir.name)))).bind
        (depth + 1) "cell" ⟨.list p, false⟩) := by
  have hvalue := Scene.value?_of_lookup hcell depth
  have hload : scene.heap.loadIndex (.list l) (.int 1) = .ok (.str dir.name) :=
    Heap.loadIndex_list (n := 1) rfl (by rw [hl]; rfl)
  obtain ⟨scene', hscene'⟩ : ∃ s, s =
      (scene.bind (depth + 1) "link" ⟨.list l, constants d⟩).setHeap
        (scene.heap.modifyList r (·.insertIdxIfInBounds 0 (.str dir.name))) := ⟨_, rfl⟩
  have hlink' : scene'.value? (depth + 1) "link" = some (.list l) := by simp [hscene']
  have hfirst : (scene'.heap.list l)[0]? = some (.list p) := by
    rw [hscene', Scene.heap_setHeap, Heap.list_modifyList_of_ne hne, hl]
    rfl
  have hcell' : scene'.locals.lookup "cell" = some ⟨.list a, false⟩ := by
    simpa [hscene', Scope.lookup_insertBinding] using hcell
  have hget := Heap.key_of_items ha
  rw [← hscene']
  simp [stepBack, BreadthFirst.bind, ensures_getLink hlinks hvalue hget hlink, hroute, element,
    Value.ofLiteral, hload]
  rw [← hscene', ensures_goBack hlink' hfirst hcell', ensures_pure]

/-- What holds of the loop that follows the links. The steps that have been collected are in the
list `r`, and so many steps are still to come. -/
structure GoingBack (d : Dialect) (depth m r : Nat) (live : List Nat) (before : Scene)
    (all : List Direction) (rounds : Nat) (scene : Scene) : Prop where
  stage : scene.stage = before.stage
  links : scene.value? depth (linksName d) = some (.map m)
  route : scene.value? depth "route" = some (.list r)
  lt : r < scene.heap.lists.size
  cell : ∃ c steps rest a, scene.locals.lookup "cell" = some ⟨.list a, false⟩ ∧
    scene.heap.list a = c.items ∧ Linked scene.heap (r :: live) m c steps ∧
    (scene.heap.list r).toList = names rest ∧ steps ++ rest = all ∧ steps.length = rounds

/-- After the loop, all steps are in the list `r`. -/
structure Collected (depth r : Nat) (before : Scene) (all : List Direction) (flow : Flow)
    (scene : Scene) : Prop where
  next : flow = .next
  stage : scene.stage = before.stage
  route : scene.value? depth "route" = some (.list r)
  names : (scene.heap.list r).toList = names all

/-- What a round of the loop preserves. -/
theorem GoingBack.round {before : Scene} {all : List Direction} {rounds : Nat}
    (h : GoingBack d (depth + 1) m r live before all rounds scene) :
    ((do truth (← (Expr.binary .ne (getLink d) (.literal .null)).eval
        (settingAt definitions maxCalls fuel (depth + 1))) : Eval Bool)).Ensures scene
      fun truth scene =>
        (truth = false → Collected (depth + 1) r before all .next scene) ∧
        (truth = true →
          (Stmt.execAll (settingAt definitions maxCalls fuel (depth + 1)) (stepBack d)).Ensures
            scene fun flow scene =>
              (∃ v, flow = .return v ∧ Collected (depth + 1) r before all flow scene) ∨
                flow = .next ∧ ∃ fewer < rounds,
                  GoingBack d (depth + 1) m r live before all fewer scene) := by
  obtain ⟨c, steps, rest, a, hcell, ha, hlinked, hrest, hall, hrounds⟩ := h.cell
  have hvalue := Scene.value?_of_lookup hcell depth
  have hkey := Heap.key_of_items ha
  -- The links are followed as they have been put in: the start has none, and every other cell has
  -- one to the cell before it.
  cases hlinked with
  | start hc =>
    simp only [Expr.eval, ensures_bind, ensures_getLink h.links hvalue hkey hc]
    simp [Value.ofLiteral]
    exact ⟨rfl, h.stage, h.route, hrest.trans (congrArg BreadthFirst.names hall)⟩
  | @step c' _ steps dir link cell hlinked hlink hitems hprev =>
    obtain ⟨l, rfl, -, hlive, hl⟩ := hitems
    obtain ⟨p, rfl, hp⟩ := hprev
    have hkeeps := Heap.keeps_modifyList (@List.mem_cons_self _ r live) scene.heap
      (·.insertIdxIfInBounds 0 (.str dir.name))
    simp only [Expr.eval, ensures_bind, ensures_getLink h.links hvalue hkey hlink]
    simp [Value.ofLiteral]
    rw [ensures_stepBack h.links h.route hcell ha hlink hl (List.ne_of_not_mem_cons hlive)]
    refine .inr ⟨rfl, steps.length, ?_, ?_, ?_, ?_, ?_, c', steps, dir :: rest, p, ?_, ?_, ?_, ?_,
      ?_, rfl⟩
    · rw [← hrounds, List.length_append]
      exact Nat.lt_succ_self _
    · exact h.stage
    · cases d <;> simpa [linksName] using h.links
    · simpa using h.route
    · simpa [Heap.size_modifyList] using h.lt
    · simp [Scope.lookup_insertBinding]
    · exact (hkeeps.list_eq p hp.1 hp.2.1).trans hp.2.2
    · exact hlinked.keeps hkeeps fun _ _ hv => hv
    · simp [Heap.list_modifyList _ h.lt, Array.insertIdxIfInBounds, hrest, names]
    · simpa using hall

/-- The links from a cell back to the start tell the way to it. -/
theorem ensures_back (hdepth : depth < maxCalls) {a : Nat} (ha : scene.heap.list a = c.items)
    (hlt : a < scene.heap.lists.size) (hlinked : Linked scene.heap live m c steps)
    (hfuel : steps.length < fuel) :
    (callAt definitions maxCalls (fuel + 1) depth (back d) [.map m, .list a]).Ensures scene
      fun v scene' => scene'.stage = scene.stage ∧
        ∃ r, v = .list r ∧ (scene'.heap.list r).toList = names steps := by
  let r := scene.heap.lists.size
  have hkeeps := Heap.keeps_allocList (r :: live) scene.heap #[]
  obtain ⟨begin, hbegin⟩ : ∃ s : Scene, s =
      ((((scene.setLocals []).bind (depth + 1) (linksName d) ⟨.map m, false⟩).bind (depth + 1)
        "cell" ⟨.list a, false⟩).setHeap (scene.heap.allocList #[]).2).bind (depth + 1) "route"
        ⟨.list r, constants d⟩ := ⟨_, rfl⟩
  have hgoing : GoingBack d (depth + 1) m r live scene steps steps.length begin := by
    rw [hbegin]
    refine ⟨rfl, ?_, ?_, ?_, c, steps, [], a, ?_, ?_, ?_, ?_, List.append_nil _, rfl⟩
    · cases d <;> simp [linksName]
    · simp
    · simp [Heap.size_allocList, r]
    · simp [Scope.lookup_insertBinding]
    · simpa [Heap.list_allocList_of_lt hlt] using ha
    · exact hlinked.cons_fresh.keeps hkeeps fun _ _ hv => hv
    · simp [r, names]
  rw [ensures_callAt rfl hdepth]
  simp [back, BreadthFirst.bind]
  rw [← hbegin]
  refine (ensures_repeatWhile (fun _ _ h => h.round) hgoing hfuel).imp ?_
  rintro flow scene' ⟨rfl, hstage, hroute, hnames⟩
  simp [hroute]
  exact ⟨hstage, r, rfl, hnames⟩

/-! ### The way to the exit -/

/-- A round of the loop makes the step whose direction has the name. -/
theorem ensures_stepOn (dir : Direction) {post : Flow → Scene → Prop}
    (hname : scene.value? (depth + 1) "name" = some (.str dir.name)) :
    (Stmt.execAll (settingAt definitions maxCalls fuel (depth + 1)) stepOn).Ensures scene post ↔
      post .next (scene.apply (.move dir)) := by
  cases dir <;> simp [stepOn, isNamed, move, hname, Direction.name, Value.ofLiteral]

/-- The steps of a route are made one after the other. -/
theorem ensures_follow (hdepth : depth < maxCalls)
    (hr : (scene.heap.list r).toList = names steps) :
    (callAt definitions maxCalls (fuel + 1) depth follow [.list r]).Ensures scene
      fun _ scene' => scene'.stage = scene.stage.walk steps := by
  rw [ensures_callAt rfl hdepth]
  simp [follow]
  let inv (values : List Value) (s : Scene) : Prop :=
    ∃ rest, values = names rest ∧ s.stage.walk rest = scene.stage.walk steps
  have hbegin : inv (scene.heap.list r).toList
      ((scene.setLocals []).bind (depth + 1) "route" ⟨.list r, false⟩) := ⟨steps, hr, rfl⟩
  refine (ensures_forEach ?_ hbegin).imp ?_
  · rintro v values s ⟨_ | ⟨dir, rest⟩, hvalues, hwalk⟩
    · cases hvalues
    cases hvalues
    rw [ensures_bind, ensures_declare, ensures_stepOn dir (by simp)]
    exact ⟨rfl, rest, rfl, hwalk⟩
  · rintro flow s ⟨rfl, rest, hrest, hwalk⟩
    obtain rfl : rest = [] := by simpa [names] using hrest.symm
    simpa [Stage.walk] using hwalk

end BreadthFirst

end Labyrinth
