import Labyrinth.Proofs.BreadthFirst.Neighbours
import Labyrinth.Proofs.BreadthFirst.Routes

/-!
# The search of the template

The queue and the map of the template hold what a breadth-first search knows: the queue holds the
ends of the ways that wait, and the keys of the map are the cells to which a way is known.

## Main results

* `BreadthFirst.Prolongs.see`: one cell that is seen is one way that is prolonged.
* `BreadthFirst.Mirrors.round`: a round of the loop takes the next way.
* `BreadthFirst.ensures_search`: what the function returns is where a breadth-first search leads.
-/

namespace Labyrinth

open Labyrinth.Eval

namespace BreadthFirst

attribute [local simp] Stmt.execAll Stmt.exec Arms.exec Target.assign Expr.evalOrNull Expr.eval
  Expr.evalAll Pattern.bind

variable {d : Dialect} {definitions : List Definition} {maxCalls fuel depth : Nat}
  {scene : Scene} {c : Coord} {q m : Nat} {s : Search} {way : Way}

/-- A link is remembered under the key of a cell. -/
theorem ensures_setLink {t : Nat} {u v : Value} {post : Flow → Scene → Prop}
    (hlinks : scene.value? (depth + 1) (linksName d) = some (.map m))
    (hstep : scene.value? (depth + 1) "step" = some (.list t)) (ht : scene.heap.list t = c.items)
    (hlt : t < scene.heap.lists.size) (hcurrent : scene.value? (depth + 1) "current" = some u)
    (hname : scene.value? (depth + 1) "name" = some v) :
    ((setLink d).exec (settingAt definitions maxCalls fuel (depth + 1))).Ensures scene post ↔
      post .next (scene.setHeap ((scene.heap.allocList #[u, v]).2.modifyMap m
        (·.insert c.key (.list scene.heap.lists.size)))) := by
  have hkey : (scene.heap.allocList #[u, v]).2.key (.list t) = .ok c.key :=
    Heap.key_of_items ((Heap.list_allocList_of_lt hlt _).trans ht)
  cases d with
  | indented => simp [setLink, hlinks, hstep, hcurrent, hname, Heap.storeIndex_map hkey]
  | braced => simp [setLink, hlinks, hstep, hcurrent, hname, Heap.callMethod_put hkey]

/-! ### The heap -/

/-- The heap after a cell has been put into the queue `q`, and a link under its key into the map
`m`. -/
def putHeap (h : Heap) (q m : Nat) (c : Coord) (link : Array Value) : Heap :=
  (((h.allocList c.items).2.allocList link).2.modifyMap m
    (·.insert c.key (.list (h.lists.size + 1)))).modifyList q (·.push (.list h.lists.size))

section PutHeap

variable {h : Heap} {link : Array Value}

theorem keeps_putHeap (h : Heap) (q m : Nat) (c : Coord) (link : Array Value) :
    h.Keeps [q] (putHeap h q m c link) :=
  (((Heap.keeps_allocList ..).trans (Heap.keeps_allocList ..)).trans
    (Heap.keeps_modifyMap ..)).trans (Heap.keeps_modifyList List.mem_cons_self ..)

theorem size_maps_putHeap (h : Heap) (q m : Nat) (c : Coord) (link : Array Value) :
    (putHeap h q m c link).maps.size = h.maps.size :=
  Heap.size_modifyMap ((h.allocList c.items).2.allocList link).2 m _

/-- The cell is at the end of the queue. -/
theorem list_putHeap (hhas : h.Has [q]) :
    (putHeap h q m c link).list q = (h.list q).push (.list h.lists.size) := by
  have hlt := hhas q List.mem_cons_self
  have hlt' : q < (h.allocList c.items).2.lists.size := by
    rw [Heap.size_allocList]
    exact Nat.lt_succ_of_lt hlt
  have hlist : ((h.allocList c.items).2.allocList link).2.list q = h.list q :=
    (Heap.list_allocList_of_lt hlt' _).trans (Heap.list_allocList_of_lt hlt _)
  rw [putHeap, Heap.list_modifyList, ← hlist]
  · rfl
  · exact Nat.lt_of_lt_of_le hlt' (Heap.keeps_allocList [] _ _).size_le

/-- The link is under the key of the cell. -/
theorem map_putHeap (q : Nat) (c : Coord) (link : Array Value) (hlt : m < h.maps.size) :
    (putHeap h q m c link).map m = (h.map m).insert c.key (.list (h.lists.size + 1)) :=
  Heap.map_modifyMap (h := ((h.allocList c.items).2.allocList link).2) hlt _

theorem isList_items_putHeap (hhas : h.Has [q]) :
    (putHeap h q m c link).IsList [q] (.list h.lists.size) c.items :=
  (Heap.isList_allocList hhas c.items).keeps (((Heap.keeps_allocList ..).trans
    (Heap.keeps_modifyMap ..)).trans (Heap.keeps_modifyList List.mem_cons_self ..))

theorem isList_link_putHeap (hhas : h.Has [q]) :
    (putHeap h q m c link).IsList [q] (.list (h.lists.size + 1)) link := by
  rw [← Heap.size_allocList h c.items]
  exact (Heap.isList_allocList (hhas.keeps (Heap.keeps_allocList [] h c.items)) link).keeps
    ((Heap.keeps_modifyMap ..).trans (Heap.keeps_modifyList List.mem_cons_self ..))

end PutHeap

/-! ### What the search knows -/

/-- What a search knows is recorded in the queue `q` and in the map `m`. -/
structure Recorded (h : Heap) (q m : Nat) (s : Search) : Prop where
  has : h.Has [q]
  lt : m < h.maps.size
  waiting : AreLists h [q] (s.waiting.map fun a => a.cell.items) (h.list q).toList
  known : ∀ c, (h.map m).contains c.key = true ↔ c ∈ s.cells
  linked : ∀ a ∈ s.found, Linked h [q] m a.cell a.steps

theorem Recorded.keeps {h h' : Heap} (hr : Recorded h q m s) (hk : h.Keeps [] h')
    (hmaps : h'.maps = h.maps) : Recorded h' q m s := by
  have hlists := hk.of_nil [q]
  have hmap : h'.map m = h.map m := Heap.map_congr hmaps m
  refine ⟨hr.has.keeps hlists, hmaps ▸ hr.lt, ?_, ?_, ?_⟩
  · rw [hk.list_eq q (hr.has q List.mem_cons_self) List.not_mem_nil]
    exact hr.waiting.keeps hlists
  · exact fun c => hmap ▸ hr.known c
  · exact fun a ha => (hr.linked a ha).keeps hlists fun _ _ hv => hmap ▸ hv

/-- The record of a search that takes the next way. -/
theorem Recorded.take {h : Heap} {prolonged waiting : List Way}
    (hr : Recorded h q m ⟨prolonged, way :: waiting⟩) :
    Recorded (h.modifyList q (·.eraseIdxIfInBounds 0)) q m ⟨prolonged ++ [way], waiting⟩ ∧
      ∃ a, (h.list q)[0]? = some (.list a) ∧
        (h.modifyList q (·.eraseIdxIfInBounds 0)).IsList [q] (.list a) way.cell.items := by
  have hk := Heap.keeps_modifyList (@List.mem_cons_self _ q []) h
    (·.eraseIdxIfInBounds 0)
  have hfound := Search.found_take prolonged way waiting
  have hwaiting : List.Forall₂ _ (way.cell.items :: _) _ := hr.waiting
  obtain ⟨v, vs, ⟨a, rfl, ha⟩, hvs, hlist⟩ := List.forall₂_cons_left_iff.1 hwaiting
  have hitems : h.IsList [q] (.list a) way.cell.items := ⟨a, rfl, ha⟩
  refine ⟨⟨hr.has.keeps hk, hr.lt, ?_, ?_, ?_⟩, a, ?_, hitems.keeps hk⟩
  · have hrest : ((h.modifyList q (·.eraseIdxIfInBounds 0)).list q).toList = vs := by
      have hsize : 0 < (h.list q).size := by simp [← Array.length_toList, hlist]
      rw [Heap.list_modifyList _ (hr.has q List.mem_cons_self)]
      simp [Array.eraseIdxIfInBounds, hsize, hlist]
    rw [hrest]
    exact AreLists.keeps hvs hk
  · intro c
    rw [Search.cells, hfound]
    exact hr.known c
  · rw [hfound]
    exact fun a ha => (hr.linked a ha).keeps hk fun _ _ hv => hv
  · rw [← Array.getElem?_toList, hlist]
    rfl

/-- The record of a way that is prolonged. -/
theorem Recorded.put {h : Heap} {o : Direction × Coord} {v : Value} (hr : Recorded h q m s)
    (ho : o.2 ∉ s.cells) (hway : way ∈ s.found) (hv : h.IsList [q] v way.cell.items) :
    Recorded (putHeap h q m o.2 #[v, .str o.1.name]) q m (s.prolong way o) := by
  have hk := keeps_putHeap h q m o.2 #[v, .str o.1.name]
  have hmap := map_putHeap q o.2 #[v, .str o.1.name] hr.lt
  have hnew : (h.map m).contains o.2.key = false := Bool.eq_false_iff.2 (mt (hr.known o.2).1 ho)
  have hlinked (a : Way) (ha : a ∈ s.found) :
      Linked (putHeap h q m o.2 #[v, .str o.1.name]) [q] m a.cell a.steps :=
    (hr.linked a ha).keeps hk fun _ _ hu => hmap ▸ Heap.getElem?_insert_of_new hnew hu
  have hfound := Search.found_prolong way s o
  rw [if_neg ho] at hfound
  refine ⟨hr.has.keeps hk, ?_, ?_, ?_, ?_⟩
  · exact Nat.lt_of_lt_of_eq hr.lt (size_maps_putHeap ..).symm
  · rw [list_putHeap hr.has, Array.toList_push, Search.prolong, if_neg ho, List.map_append]
    exact List.rel_append (hr.waiting.keeps hk) (.cons (isList_items_putHeap hr.has) .nil)
  · intro c
    rw [hmap, Heap.contains_insert_iff, hr.known c, Coord.key_injective.eq_iff]
    rw [Search.cells, Search.cells, hfound]
    simp [or_comm, eq_comm]
  · rw [hfound]
    refine List.forall_mem_append.2 ⟨hlinked, List.forall_mem_singleton.2 ?_⟩
    exact .step (hlinked way hway) (hmap ▸ Std.TreeMap.getElem?_insert_self)
      (isList_link_putHeap hr.has) (hv.keeps hk)

/-! ### One cell that is seen -/

/-- A cell that is known is left out. -/
theorem ensures_enqueue_of_known {post : Flow → Scene → Prop}
    (hlinks : scene.value? (depth + 1) (linksName d) = some (.map m))
    (hknown : (scene.heap.map m).contains c.key = true)
    (hnx : scene.value? (depth + 1) "nx" = some (.int c.x))
    (hny : scene.value? (depth + 1) "ny" = some (.int c.y)) :
    (Stmt.execAll (settingAt definitions maxCalls fuel (depth + 1)) (enqueue d)).Ensures scene
        post ↔
      post .next ((scene.setHeap (scene.heap.allocList c.items).2).bind (depth + 1) "step"
        ⟨.list scene.heap.lists.size, constants d⟩) := by
  have hstep : linksName d ≠ "step" := linksName_ne d (by simp)
  have hhas := Heap.callMethod_has (m := m)
    (Heap.key_of_items (Heap.list_allocList_size scene.heap c.items))
  rw [show ((scene.heap.allocList c.items).2.map m).contains c.key = true from hknown] at hhas
  simp only [Coord.items] at hhas
  simp [BreadthFirst.enqueue, BreadthFirst.bind, hnx, hny, hstep, hlinks, Coord.items, hhas,
    Scene.setHeap_bind]

/-- A new cell is put into the queue, with a link to the one before it. -/
theorem ensures_enqueue_of_new {u v : Value} {post : Flow → Scene → Prop}
    (hlinks : scene.value? (depth + 1) (linksName d) = some (.map m))
    (hqueue : scene.value? (depth + 1) "queue" = some (.list q))
    (hnew : (scene.heap.map m).contains c.key = false)
    (hcurrent : scene.value? (depth + 1) "current" = some u)
    (hnx : scene.value? (depth + 1) "nx" = some (.int c.x))
    (hny : scene.value? (depth + 1) "ny" = some (.int c.y))
    (hname : scene.value? (depth + 1) "name" = some v) :
    (Stmt.execAll (settingAt definitions maxCalls fuel (depth + 1)) (enqueue d)).Ensures scene
        post ↔
      post .next ((scene.setHeap (putHeap scene.heap q m c #[u, v])).bind (depth + 1) "step"
        ⟨.list scene.heap.lists.size, constants d⟩) := by
  have hstep : linksName d ≠ "step" := linksName_ne d (by simp)
  have hhas := Heap.callMethod_has (m := m)
    (Heap.key_of_items (Heap.list_allocList_size scene.heap c.items))
  rw [show ((scene.heap.allocList c.items).2.map m).contains c.key = false from hnew] at hhas
  -- The scene in which the cell has its list and its name; it is kept folded, so that the rule for
  -- the link can be applied there.
  obtain ⟨scene', hscene'⟩ : ∃ s, s = ((scene.setHeap (scene.heap.allocList c.items).2).bind
    (depth + 1) "step" ⟨.list scene.heap.lists.size, constants d⟩) := ⟨_, rfl⟩
  have hheap : scene'.heap = (scene.heap.allocList c.items).2 := by simp [hscene']
  have hsame : scene'.setHeap (scene.heap.allocList c.items).2 = scene' := by
    rw [hscene', Scene.setHeap_bind, Scene.setHeap_setHeap]
  have hlinks' : scene'.value? (depth + 1) (linksName d) = some (.map m) := by
    simp [hscene', hlinks, hstep]
  have hqueue' : scene'.value? (depth + 1) "queue" = some (.list q) := by simp [hscene', hqueue]
  have hstep' : scene'.value? (depth + 1) "step" = some (.list scene.heap.lists.size) := by
    simp [hscene']
  have hitems : scene'.heap.list scene.heap.lists.size = c.items := by simp [hscene']
  have hlt : scene.heap.lists.size < scene'.heap.lists.size := by
    simp [hscene', Heap.size_allocList]
  have hcurrent' : scene'.value? (depth + 1) "current" = some u := by simp [hscene', hcurrent]
  have hname' : scene'.value? (depth + 1) "name" = some v := by simp [hscene', hname]
  rw [putHeap, ← Scene.setHeap_setHeap _ (scene.heap.allocList c.items).2, ← Scene.setHeap_bind,
    ← hscene', ← Heap.size_allocList scene.heap c.items, ← hheap]
  simp only [Coord.items] at hhas hscene' hsame
  simp [BreadthFirst.enqueue, BreadthFirst.bind, hnx, hny, hstep, hlinks, hhas, ← hscene', hsame,
    ensures_setLink hlinks' hstep' hitems hlt hcurrent' hname', hstep', hqueue']

/-- What a search knows is recorded in a scene. -/
structure Mirrors (d : Dialect) (depth q m : Nat) (g : Stage) (s : Search) (scene : Scene) :
    Prop where
  stage : scene.stage = g
  queue : scene.value? depth "queue" = some (.list q)
  links : scene.value? depth (linksName d) = some (.map m)
  recorded : Recorded scene.heap q m s

/-- A scene in which a way to a cell is being prolonged. -/
structure Prolongs (d : Dialect) (depth q m : Nat) (g : Stage) (c : Coord) (s : Search)
    (scene : Scene) : Prop extends Mirrors d depth q m g s scene where
  current : ∃ a, scene.value? depth "current" = some (.list a) ∧
    scene.heap.IsList [q] (.list a) c.items

/-- Another name is bound. -/
theorem Prolongs.declare {g : Stage} (h : Prolongs d (depth + 1) q m g c s scene) {x : String}
    (hx : x ∉ ["queue", linksName d, "current"]) (b : Binding) :
    Prolongs d (depth + 1) q m g c s (scene.bind (depth + 1) x b) := by
  simp only [List.mem_cons, List.not_mem_nil, or_false, not_or, ← ne_eq] at hx
  obtain ⟨hqueue, hlinks, hcurrent⟩ := hx
  obtain ⟨a, ha, hitems⟩ := h.current
  refine ⟨⟨h.stage, ?_, ?_, ?_⟩, a, ?_, ?_⟩
  · simpa [hqueue.symm] using h.queue
  · simpa [hlinks.symm] using h.links
  · simpa using h.recorded
  · simpa [hcurrent.symm] using ha
  · simpa using hitems

/-- What has been kept is as it was. -/
theorem Prolongs.keeps {g : Stage} (h : Prolongs d depth q m g c s scene) {scene' : Scene}
    (hk : scene.Keeps [] scene') (hlocals : scene'.locals = scene.locals) :
    Prolongs d depth q m g c s scene' := by
  obtain ⟨a, ha, hitems⟩ := h.current
  refine ⟨⟨hk.stage.trans h.stage, ?_, ?_, h.recorded.keeps hk.lists hk.maps⟩, a, ?_, ?_⟩
  · rw [hk.value?_eq hlocals, h.queue]
  · rw [hk.value?_eq hlocals, h.links]
  · rw [hk.value?_eq hlocals, ha]
  · exact hitems.keeps (hk.lists.of_nil [q])

/-- What is known then is recorded in another heap. -/
theorem Prolongs.record {g : Stage} {s' : Search} {heap : Heap}
    (h : Prolongs d depth q m g c s scene) (hk : scene.heap.Keeps [q] heap)
    (hr : Recorded heap q m s') : Prolongs d depth q m g c s' (scene.setHeap heap) := by
  obtain ⟨a, ha, hitems⟩ := h.current
  exact ⟨⟨h.stage, h.queue, h.links, hr⟩, a, ha, hitems.keeps hk⟩

/-- A cell that is seen is a way that is prolonged, unless the cell is known. -/
theorem Prolongs.see {g : Stage} (o : Direction × Coord)
    (h : Prolongs d (depth + 1) q m g way.cell s scene) (hway : way ∈ s.found)
    (hnx : scene.value? (depth + 1) "nx" = some (.int o.2.x))
    (hny : scene.value? (depth + 1) "ny" = some (.int o.2.y))
    (hname : scene.value? (depth + 1) "name" = some (.str o.1.name)) :
    (Stmt.execAll (settingAt definitions maxCalls fuel (depth + 1)) (enqueue d)).Ensures scene
      fun flow scene' => flow = .next ∧ scene.heap.Keeps [q] scene'.heap ∧
        Prolongs d (depth + 1) q m g way.cell (s.prolong way o) scene' := by
  have hstep : "step" ∉ ["queue", linksName d, "current"] := by cases d <;> simp [linksName]
  obtain ⟨a, hcurrent, hcell⟩ := h.current
  -- Whether the program finds the cell in its map is known before it is run.
  by_cases ho : o.2 ∈ s.cells
  · have hkeeps := Heap.keeps_allocList [] scene.heap o.2.items
    rw [ensures_enqueue_of_known h.links ((h.recorded.known o.2).2 ho) hnx hny, Search.prolong,
      if_pos ho]
    refine ⟨rfl, by simpa using hkeeps.of_nil [q], ?_⟩
    exact (h.record (hkeeps.of_nil _) (h.recorded.keeps hkeeps rfl)).declare hstep _
  · have hnew : (scene.heap.map m).contains o.2.key = false :=
      Bool.eq_false_iff.2 (mt (h.recorded.known o.2).1 ho)
    have hkeeps := keeps_putHeap scene.heap q m o.2 #[.list a, .str o.1.name]
    rw [ensures_enqueue_of_new h.links h.queue hnew hcurrent hnx hny hname]
    refine ⟨rfl, by simpa using hkeeps, ?_⟩
    exact (h.record hkeeps (h.recorded.put ho hway hcell)).declare hstep _

/-- All cells around the end of a way are seen, one after the other. -/
theorem Prolongs.seeAll {g : Stage} {os : List (Direction × Coord)} {values : List Value}
    (h : Prolongs d (depth + 1) q m g way.cell s scene) (hway : way ∈ s.found)
    (hvalues : AreLists scene.heap [q] (os.map openingItems) values) :
    (forEach (fun v => do
      (Pattern.tuple ["nx", "ny", "name"]).bind (depth + 1) false v
      Stmt.execAll (settingAt definitions maxCalls fuel (depth + 1)) (enqueue d)) values).Ensures
        scene fun flow scene' => flow = .next ∧
          Prolongs d (depth + 1) q m g way.cell (os.foldl (Search.prolong way) s) scene' := by
  -- The cells that have still to be seen would complete the search `t` to the one that is claimed.
  let inv (values : List Value) (scene' : Scene) : Prop :=
    ∃ (rest : List (Direction × Coord)) (t : Search),
      AreLists scene'.heap [q] (rest.map openingItems) values ∧ way ∈ t.found ∧
      Prolongs d (depth + 1) q m g way.cell t scene' ∧
      rest.foldl (Search.prolong way) t = os.foldl (Search.prolong way) s
  have hbegin : inv values scene := ⟨os, s, hvalues, hway, h, rfl⟩
  refine (ensures_forEach ?_ hbegin).imp ?_
  · rintro v values scene ⟨_ | ⟨o, rest⟩, t, hvalues, hway, h, hall⟩
    · cases hvalues
    obtain ⟨⟨a, rfl, -, -, ha⟩, hrest⟩ := List.forall₂_cons.1 hvalues
    rw [ensures_bind, ensures_bind_triple ha]
    have hnames : ∀ x ∈ ["nx", "ny", "name"], x ∉ ["queue", linksName d, "current"] := by
      cases d <;> simp [linksName]
    have hbound := ((h.declare (hnames "nx" (by simp)) ⟨.int o.2.x, false⟩).declare
      (hnames "ny" (by simp)) ⟨.int o.2.y, false⟩).declare (hnames "name" (by simp))
        ⟨.str o.1.name, false⟩
    refine (hbound.see o hway (by simp) (by simp) (by simp)).imp ?_
    rintro flow scene' ⟨rfl, hkeeps, h'⟩
    simp only [Scene.heap_bind] at hkeeps
    exact ⟨rfl, rest, _, AreLists.keeps hrest hkeeps, Search.found_subset_prolong way t o hway, h',
      hall⟩
  · rintro flow scene' ⟨rfl, rest, t, hrest, -, h, hall⟩
    obtain rfl : rest = [] := by simpa [AreLists] using hrest
    exact ⟨rfl, hall ▸ h⟩

/-- The column of the cell that has the name. -/
theorem ensures_column {a : Nat} {post : Value → Scene → Prop}
    (hcurrent : scene.value? depth "current" = some (.list a)) (ha : scene.heap.list a = c.items) :
    ((element "current" 0).eval (settingAt definitions maxCalls fuel depth)).Ensures scene post ↔
      post (.int c.x) scene := by
  simp [element, hcurrent, Value.ofLiteral, Heap.loadIndex_x ha]

/-- The row of the cell that has the name. -/
theorem ensures_row {a : Nat} {post : Value → Scene → Prop}
    (hcurrent : scene.value? depth "current" = some (.list a)) (ha : scene.heap.list a = c.items) :
    ((element "current" 1).eval (settingAt definitions maxCalls fuel depth)).Ensures scene post ↔
      post (.int c.y) scene := by
  simp [element, hcurrent, Value.ofLiteral, Heap.loadIndex_y ha]

/-- The next way is taken out of the queue. -/
theorem Mirrors.ensures_take {g : Stage} {prolonged waiting : List Way}
    (h : Mirrors d (depth + 1) q m g ⟨prolonged, way :: waiting⟩ scene) :
    ((BreadthFirst.bind d "current" (.method (.name "queue") .shift [])).exec
        (settingAt definitions maxCalls fuel (depth + 1))).Ensures scene fun flow scene' =>
      flow = .next ∧
        Prolongs d (depth + 1) q m g way.cell ⟨prolonged ++ [way], waiting⟩ scene' := by
  obtain ⟨hrecorded, a, hfirst, hitems⟩ := h.recorded.take
  have hqueue := h.queue
  have hcurrent : linksName d ≠ "current" := linksName_ne d (by simp)
  simp [BreadthFirst.bind, hqueue, Heap.callMethod_shift hfirst]
  refine ⟨⟨h.stage, ?_, ?_, ?_⟩, a, ?_, ?_⟩
  · simpa using hqueue
  · simpa [hcurrent] using h.links
  · simpa using hrecorded
  · simp
  · simpa using hitems

/-- A round of the search takes the next way. It ends the search with the steps of this way if it
leads to the exit, or else prolongs it. -/
theorem Mirrors.round {g : Stage} {prolonged waiting : List Way}
    (h : Mirrors d (depth + 1) q m g ⟨prolonged, way :: waiting⟩ scene)
    (hdepth : depth + 1 < maxCalls) (hfuel : way.steps.length < fuel) :
    (Stmt.execAll (settingAt (BreadthFirst.definitions d) maxCalls (fuel + 1) (depth + 1))
        (BreadthFirst.round d)).Ensures scene fun flow scene' =>
      if way.cell = g.world.grid.exit then
        scene'.stage = g ∧
          ∃ r, flow = .return (.list r) ∧ (scene'.heap.list r).toList = names way.steps
      else flow = .next ∧ Mirrors d (depth + 1) q m g
        (Search.expand g.world.grid way ⟨prolonged ++ [way], waiting⟩) scene' := by
  rw [BreadthFirst.round, Stmt.execAll, ensures_bind]
  refine h.ensures_take.imp ?_
  rintro _ begin ⟨rfl, hprolongs⟩
  obtain ⟨a, hvalue, b, hb, hlt, -, ha⟩ := hprolongs.current
  obtain rfl : a = b := by simpa using hb
  have hexit : begin.stage.world.isExit way.cell.x.toInt way.cell.y.toInt =
      (way.cell == g.world.grid.exit) := by
    rw [World.isExit_x_y, hprolongs.stage]
  simp [find?_neighbours, find?_back]
  simp only [ensures_column hvalue ha, ensures_row hvalue ha, ensures_isExit, hexit]
  have hmem : way ∈ Search.found ⟨prolonged ++ [way], waiting⟩ := by simp [Search.found]
  by_cases hway : way.cell = g.world.grid.exit
  · simp [hway, hprolongs.links, hvalue]
    refine (ensures_back hdepth ha hlt (hprolongs.recorded.linked way hmem) hfuel).imp ?_
    rintro v scene' ⟨hstage, hroute⟩
    exact ⟨hstage.trans hprolongs.stage, hroute⟩
  · simp [hway]
    refine (ensures_neighbours hdepth hprolongs.recorded.has way.cell).imp ?_
    rintro v scene' ⟨hkeeps, hlocals, f, rfl, hopenings⟩
    rw [hprolongs.stage] at hopenings
    refine ensures_elements_list.2 (((hprolongs.keeps hkeeps hlocals).seeAll hmem hopenings).imp ?_)
    rintro flow scene'' ⟨rfl, hend⟩
    exact ensures_pure.2 ⟨rfl, hend.toMirrors⟩

/-! ### The whole search -/

/-- Whether the queue has elements is asked. -/
theorem ensures_isWaiting {post : Bool → Scene → Prop}
    (hqueue : scene.value? depth "queue" = some (.list q)) :
    ((do truth (← (Expr.binary .gt (.builtin .len [.name "queue"]) (.literal (.int 0))).eval
        (settingAt definitions maxCalls fuel depth))) : Eval Bool).Ensures scene post ↔
      post (compare (Int64.ofNat (scene.heap.list q).size) 0).isGT scene := by
  simp [hqueue, Value.ofLiteral]

theorem Mirrors.size_queue {g : Stage} (h : Mirrors d depth q m g s scene) :
    (scene.heap.list q).size = s.waiting.length := by
  simpa using h.recorded.waiting.length_eq.symm

/-- The search is over: the function returns the steps to which it has led, or has none to
return. -/
def Ended (g : Stage) (steps : List Direction) (flow : Flow) (scene : Scene) : Prop :=
  scene.stage = g ∧ ((∃ r, flow = .return (.list r) ∧ (scene.heap.list r).toList = names steps) ∨
    flow = .next ∧ steps = [])

/-- The search comes to an end, since every round prolongs a way that no other one has. -/
theorem Mirrors.ensures_ended {g : Stage} (h : Mirrors d (depth + 1) q m g s scene)
    (hready : s.Ready g.world.grid) (hdepth : depth + 1 < maxCalls)
    (hfuel : g.world.grid.cells.size ≤ fuel) {rounds : Nat}
    (hrounds : g.world.grid.cells.size < s.prolonged.length + rounds) :
    (repeatWhile (do truth (← (Expr.binary .gt (.builtin .len [.name "queue"])
        (.literal (.int 0))).eval
          (settingAt (BreadthFirst.definitions d) maxCalls (fuel + 1) (depth + 1))))
      (Stmt.execAll (settingAt (BreadthFirst.definitions d) maxCalls (fuel + 1) (depth + 1))
        (BreadthFirst.round d)) rounds).Ensures scene
          (Ended g (Search.route g.world.grid rounds s)) := by
  induction rounds generalizing s scene with
  | zero =>
    have hle := hready.length_found_le
    rw [Search.found, List.length_append] at hle
    omega
  | succ rounds ih =>
    obtain ⟨prolonged, waiting⟩ := s
    rw [repeatWhile, ensures_bind, ensures_isWaiting h.queue, h.size_queue]
    cases waiting with
    | nil => exact ensures_pure.2 ⟨h.stage, .inr ⟨rfl, rfl⟩⟩
    | cons way waiting =>
      have hle := hready.length_found_le
      rw [Search.found, List.length_append, List.length_cons] at hle
      have hsteps : way.steps.length ≤ prolonged.length :=
        hready.length_le way (by simp [Search.found])
      simp only at hle hrounds
      rw [Search.route, Search.goesOn]
      split
      · rw [ensures_bind]
        refine (h.round hdepth (by omega)).imp fun flow scene' hround => ?_
        split at hround
        · next hexit =>
          obtain ⟨hstage, r, rfl, hnames⟩ := hround
          rw [if_pos hexit]
          exact ensures_pure.2 ⟨hstage, .inl ⟨r, rfl, hnames⟩⟩
        · next hexit =>
          obtain ⟨rfl, h'⟩ := hround
          obtain ⟨hready', hprolonged⟩ := hready.expand hexit
          rw [if_neg hexit]
          refine ih h' hready' ?_
          rw [hprolonged, List.length_append, List.length_singleton]
          omega
      · exact ensures_pure.2 ⟨h.stage, .inr ⟨rfl, rfl⟩⟩

/-- The heap with the lists that the search begins with: the start, the queue, and the start once
more together with the link that it does not have. -/
def startLists (h : Heap) (c : Coord) : Heap :=
  ((((h.allocList c.items).2.allocList #[.list h.lists.size]).2.allocList
    #[.list h.lists.size, .null]).2.allocList #[.list (h.lists.size + 2)]).2

/-- The heap in which the start has no link. -/
def startHeap (h : Heap) (c : Coord) : Heap :=
  ((startLists h c).allocMap ((∅ : KeyMap).insert c.key .null)).2

/-- The lists that the search begins with. -/
theorem list_startLists (h : Heap) (c : Coord) :
    (startLists h c).list h.lists.size = c.items ∧
      (startLists h c).list (h.lists.size + 1) = #[.list h.lists.size] ∧
      (startLists h c).list (h.lists.size + 2) = #[.list h.lists.size, .null] ∧
      (startLists h c).list (h.lists.size + 3) = #[.list (h.lists.size + 2)] ∧
      (startLists h c).lists.size = h.lists.size + 4 := by
  simp [startLists, Heap.list_allocList_eq, Heap.size_allocList, Nat.add_assoc]

/-- A map is made of the lists that the search begins with. -/
theorem buildMap_startLists (h : Heap) (c : Coord) :
    (startLists h c).buildMap (.list (h.lists.size + 3)) =
      .ok (.map h.maps.size, startHeap h c) := by
  obtain ⟨hcell, -, hpair, hpairs, -⟩ := list_startLists h c
  exact Heap.buildMap_singleton hpairs hpair (Heap.key_of_items hcell)

/-- The search before its first step is recorded. -/
theorem recorded_start (h : Heap) (g : Grid) :
    Recorded (startHeap h g.start) (h.lists.size + 1) h.maps.size (Search.start g) := by
  obtain ⟨hcell, hqueue, -, -, hsize⟩ := list_startLists h g.start
  have hmap : (startHeap h g.start).map h.maps.size = (∅ : KeyMap).insert g.start.key .null :=
    Heap.map_allocMap_size (startLists h g.start) _
  have hstart : (startLists h g.start).IsList [h.lists.size + 1] (.list h.lists.size)
      g.start.items := ⟨h.lists.size, rfl, by omega, by simp, hcell⟩
  refine ⟨?_, ?_, ?_, ?_, ?_⟩
  · simp [Heap.Has, startHeap, hsize]
  · exact Nat.lt_of_lt_of_eq (Nat.lt_succ_self _) (Heap.size_allocMap (startLists h g.start) _).symm
  · rw [show (startHeap h g.start).list (h.lists.size + 1) = #[.list h.lists.size] from hqueue]
    exact .cons hstart .nil
  · intro c
    rw [hmap, Heap.contains_insert_iff, Coord.key_injective.eq_iff]
    simp [Search.start, Search.cells, Search.found, eq_comm]
  · refine List.forall_mem_singleton.2 (.start ?_)
    rw [hmap]
    exact Std.TreeMap.getElem?_insert_self

/-- The coordinates in the map that tells the position of the cursor. -/
theorem getElem?_positionMap_x (w : World) :
    (Action.positionMap w)[Key.str "x"]? = some (.int w.position.x) := by
  rw [Action.positionMap, Std.TreeMap.getElem?_insert, if_neg (by decide),
    Std.TreeMap.getElem?_insert_self]
  rfl

theorem getElem?_positionMap_y (w : World) :
    (Action.positionMap w)[Key.str "y"]? = some (.int w.position.y) :=
  Std.TreeMap.getElem?_insert_self

/-- A coordinate of the cursor is read. -/
theorem ensures_coordinate {p : Nat} {key : String} {v : Value} {post : Value → Scene → Prop}
    (hpos : scene.value? depth "pos" = some (.map p))
    (hv : (scene.heap.map p)[Key.str key]? = some v) :
    ((coordinate d key).eval (settingAt definitions maxCalls fuel depth)).Ensures scene post ↔
      post v scene := by
  cases d with
  | indented =>
    have hload : scene.heap.loadIndex (.map p) (.str key) = .ok v := Heap.loadIndex_map rfl hv
    simp [coordinate, hpos, Value.ofLiteral, hload]
  | braced => simp [coordinate, hpos, Heap.loadAttribute_map hv]

/-- What the function does before its loop. -/
def preparations (d : Dialect) : List Stmt := [
  BreadthFirst.bind d "pos" (.capability .getPosition []),
  BreadthFirst.bind d "start" (.list [coordinate d "x", coordinate d "y"]),
  BreadthFirst.bind d "queue" (.list [.name "start"]),
  BreadthFirst.bind d (linksName d) (.mapOf (.list [.list [.name "start", .literal .null]]))]

/-- What the function does after its preparations. -/
def searchLoop (d : Dialect) : List Stmt := [
  .while (.binary .gt (.builtin .len [.name "queue"]) (.literal (.int 0))) (BreadthFirst.round d),
  .return (some (.list []))]

theorem body_search (d : Dialect) : (search d).body = preparations d ++ searchLoop d := rfl

/-- Before the loop, one way waits that stays on the start. -/
theorem ensures_preparations {g : Stage} (hstage : scene.stage = g)
    (hposition : g.world.position = g.world.grid.start) :
    (Stmt.execAll (settingAt definitions maxCalls fuel (depth + 1)) (preparations d)).Ensures
        scene fun flow scene' => flow = .next ∧ ∃ q m,
          Mirrors d (depth + 1) q m g (Search.start g.world.grid) scene' := by
  obtain ⟨s₁, hs₁⟩ : ∃ s, s = (scene.setHeap
    (scene.heap.allocMap (Action.positionMap scene.stage.world)).2).bind (depth + 1) "pos"
      ⟨.map scene.heap.maps.size, constants d⟩ := ⟨_, rfl⟩
  have hpos : s₁.value? (depth + 1) "pos" = some (.map scene.heap.maps.size) := by simp [hs₁]
  have hmap : s₁.heap.map scene.heap.maps.size = Action.positionMap g.world := by
    simp [hs₁, Heap.map_allocMap_size, hstage]
  have hx : (s₁.heap.map scene.heap.maps.size)[Key.str "x"]? = some (.int g.world.position.x) := by
    rw [hmap, getElem?_positionMap_x]
  have hy : (s₁.heap.map scene.heap.maps.size)[Key.str "y"]? = some (.int g.world.position.y) := by
    rw [hmap, getElem?_positionMap_y]
  have hbuild := buildMap_startLists s₁.heap g.world.position
  obtain ⟨begin, hbegin⟩ : ∃ s, s = (((s₁.setHeap (startHeap s₁.heap g.world.position)).bind
    (depth + 1) "start" ⟨.list s₁.heap.lists.size, constants d⟩).bind (depth + 1) "queue"
      ⟨.list (s₁.heap.lists.size + 1), constants d⟩).bind (depth + 1) (linksName d)
        ⟨.map s₁.heap.maps.size, constants d⟩ := ⟨_, rfl⟩
  have hmirrors : Mirrors d (depth + 1) (s₁.heap.lists.size + 1) s₁.heap.maps.size g
      (Search.start g.world.grid) begin := by
    have hqueue : linksName d ≠ "queue" := linksName_ne d (by simp)
    refine ⟨?_, ?_, ?_, ?_⟩
    · simp [hbegin, hs₁, hstage]
    · simp [hbegin, hqueue.symm]
    · simp [hbegin]
    · simpa [hbegin, hposition] using recorded_start s₁.heap g.world.grid
  simp [preparations, BreadthFirst.bind]
  rw [← hs₁]
  simp [startLists, Coord.items] at hbuild
  simp [ensures_coordinate hpos hx, ensures_coordinate hpos hy, Heap.size_allocList,
    Value.ofLiteral, Scene.setHeap_bind, Nat.add_assoc, hbuild]
  rw [← hbegin]
  exact ⟨_, _, hmirrors⟩

/-- The function returns the steps to which the search leads. -/
theorem ensures_search {g : Stage} (hdepth : depth + 1 < maxCalls) (hstage : scene.stage = g)
    (hposition : g.world.position = g.world.grid.start)
    (hfuel : g.world.grid.cells.size ≤ fuel) :
    (callAt (BreadthFirst.definitions d) maxCalls (fuel + 2) depth (search d) []).Ensures scene
      fun v scene' => scene'.stage = g ∧ ∃ r, v = .list r ∧ (scene'.heap.list r).toList =
        names (Search.route g.world.grid (fuel + 1) (.start g.world.grid)) := by
  have hprepared : (Stmt.execAll (settingAt (BreadthFirst.definitions d) maxCalls (fuel + 1)
      (depth + 1)) (preparations d)).Ensures (scene.setLocals []) _ :=
    ensures_preparations hstage hposition
  obtain ⟨_, begin, hprepared, rfl, q, m, hmirrors⟩ := hprepared
  have hloop : (Stmt.execAll (settingAt (BreadthFirst.definitions d) maxCalls (fuel + 1)
      (depth + 1)) (searchLoop d)).Ensures begin fun flow scene' => scene'.stage = g ∧
        ∃ r, flow.result = .list r ∧ (scene'.heap.list r).toList =
          names (Search.route g.world.grid (fuel + 1) (.start g.world.grid)) := by
    simp only [searchLoop, Stmt.execAll, Stmt.exec, ensures_bind]
    refine (hmirrors.ensures_ended (Search.ready_start _) hdepth hfuel
      (by simpa [Search.start] using Nat.lt_succ_of_le hfuel)).imp ?_
    rintro flow scene' ⟨hstage', ⟨r, rfl, hnames⟩ | ⟨rfl, hnone⟩⟩
    · exact ensures_pure.2 ⟨hstage', r, rfl, hnames⟩
    · simpa [Flow.result, names] using ⟨hstage', hnone⟩
  rw [ensures_callAt rfl (Nat.lt_of_succ_lt hdepth), body_search]
  obtain ⟨flow, final, hdone, hstage', hroute⟩ := hloop
  exact ⟨flow, final, (Stmt.execAll_append_of_done hprepared _).trans hdone, hstage', hroute⟩

end BreadthFirst

end Labyrinth
