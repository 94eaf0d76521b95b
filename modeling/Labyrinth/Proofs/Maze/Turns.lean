import Labyrinth.Proofs.Maze.Carving
import Labyrinth.Proofs.Maze.Generated

/-!
# The turns of carving

Carving is a loop that takes one **turn** after the other: it passes a door that has been picked, or
it turns back from a cell where no door leads to solid rock. However the doors are picked, every
lattice cell is entered once and left for good once, so the number of turns and the number of
picks depend on the side length alone; and no cell is ever dug out twice.

## Main results

* `Layout.exists_carves`: carving is a walk that takes some turns.
* `Layout.Carves.perm_left`: a walk turns back once from every cell that it stands on or enters.
* `Sweep.pass`, `Layout.Carves.sweep`: what one turn and a whole walk dig out.
* `turns_carve`: the turns of carving a maze.
-/

namespace Labyrinth

/-- A turn of carving. -/
inductive Turn
  /-- One of several doors is picked and passed. -/
  | pass (choices : List Door) (d : Door)
  /-- The walk turns back from a cell. -/
  | back (p : Site)
  deriving DecidableEq, Repr

namespace Turn

/-- The doors among which the chooser has been asked to pick. -/
def asked? : Turn → Option (List Door)
  | pass choices _ => some choices
  | back _ => none

/-- The cell that is entered, and so put on the path. -/
def entered? : Turn → Option Site
  | pass _ d => some d.target
  | back _ => none

/-- The cell that is left for good, and so taken off the path. -/
def left? : Turn → Option Site
  | pass .. => none
  | back p => some p

/-- The cells that are dug out. -/
def opened : Turn → List Site
  | pass _ d => [d.between, d.target]
  | back _ => []

end Turn

namespace Layout

/-- A **walk** that carves, with all of its turns: from a layout, a path and a state of the chooser
to the layout and the state in the end, when the path has been traced back. -/
inductive Carves {σ : Type} (choose : Chooser σ) :
    Layout → List Site → σ → List Turn → Layout × σ → Prop
  | done (l : Layout) (s : σ) : Carves choose l [] s [] (l, s)
  | back {l : Layout} {p : Site} {path : List Site} {s : σ} {turns : List Turn}
      {final : Layout × σ} (hnone : l.frontier p = [])
      (hrest : Carves choose l path s turns final) :
      Carves choose l (p :: path) s (.back p :: turns) final
  | pass {l : Layout} {p : Site} {path : List Site} {s : σ} {turns : List Turn}
      {final : Layout × σ} {d : Door} {ds : List Door} (hsome : l.frontier p = d :: ds)
      (hrest :
        let pick := choose ds.length s
        let door := (d :: ds).get pick.1
        Carves choose (l.pass door) (door.target :: p :: path) pick.2 turns final) :
      Carves choose l (p :: path) s
        (.pass (d :: ds) ((d :: ds).get (choose ds.length s).1) :: turns) final

variable {σ : Type} {choose : Chooser σ} {l : Layout} {path : List Site} {s : σ}
  {turns : List Turn} {final : Layout × σ}

/-- Carving is such a walk. -/
theorem exists_carves (choose : Chooser σ) (l : Layout) (path : List Site) (s : σ) :
    ∃ turns, Carves choose l path s turns (l.carve choose path s) := by
  fun_induction carve choose l path s with
  | case1 l s => exact ⟨[], .done l s⟩
  | case2 l s p before hnone ih =>
    obtain ⟨turns, hturns⟩ := ih
    exact ⟨_, .back hnone hturns⟩
  | case3 l s p before d ds hsome pick door ih =>
    obtain ⟨turns, hturns⟩ := ih
    exact ⟨_, .pass hsome hturns⟩

namespace Carves

/-- The walk turns back once from every cell that it stands on or enters. -/
theorem perm_left (h : Carves choose l path s turns final) :
    (turns.filterMap Turn.left?).Perm (path ++ turns.filterMap Turn.entered?) := by
  induction h with
  | done l s => exact .refl _
  | back hnone hrest ih => exact ih.cons _
  | @pass l p path s turns final d ds hsome hrest ih =>
    exact ih.trans List.perm_middle.symm

/-- The chooser is left in the state that it has reached when it has been asked for every pick. -/
theorem snd_final (h : Carves choose l path s turns final) :
    final.2 =
      (turns.filterMap Turn.asked?).foldl
        (fun s choices => (choose (choices.length - 1) s).2) s := by
  induction h with
  | done l s => rfl
  | back hnone hrest ih => exact ih
  | pass hsome hrest ih => exact ih

/-- The chooser is only asked where there is a door to be picked, once for every cell that is
entered. -/
theorem asked (h : Carves choose l path s turns final) :
    (∀ choices ∈ turns.filterMap Turn.asked?, choices ≠ []) ∧
      (turns.filterMap Turn.asked?).length = (turns.filterMap Turn.entered?).length := by
  induction h with
  | done l s => exact ⟨nofun, rfl⟩
  | back hnone hrest ih => exact ih
  | @pass l p path s turns final d ds hsome hrest ih =>
    refine ⟨fun choices hchoices => ?_, congrArg Nat.succ ih.2⟩
    rcases List.mem_cons.1 hchoices with rfl | hlater
    · exact List.cons_ne_nil d ds
    · exact ih.1 choices hlater

/-- In every turn a cell is entered, or one is left for good. -/
theorem length_eq (h : Carves choose l path s turns final) :
    turns.length =
      (turns.filterMap Turn.entered?).length + (turns.filterMap Turn.left?).length := by
  induction h with
  | done l s => rfl
  | back hnone hrest ih =>
    simp only [List.filterMap_cons, Turn.entered?, Turn.left?, List.length_cons, ih]
    omega
  | pass hsome hrest ih =>
    simp only [List.filterMap_cons, Turn.entered?, Turn.left?, List.length_cons, ih]
    omega

end Carves

end Layout

/-! ### What is dug out -/

/-- What is dug out in several turns, after which the path has been traced back: every lattice cell
that has been solid is entered once, and no cell is dug out that has been dug out before. -/
structure Sweep (n : ℕ) (D : Set Site) (turns : List Turn) : Prop where
  entered : ∀ p, p ∈ turns.filterMap Turn.entered? ↔ p ∈ Lattice n ∧ p ∉ D
  entered_once : (turns.filterMap Turn.entered?).Nodup
  opened : ∀ p ∈ turns.flatMap Turn.opened, p ∉ D
  opened_once : (turns.flatMap Turn.opened).Nodup

namespace Sweep

variable {n : ℕ} {D : Set Site} {p : Site} {d : Door} {turns : List Turn}

/-- Nothing is left to be done when the path has been traced back. -/
theorem done (h : Carved n D []) : Sweep n D [] where
  entered p := by
    refine iff_of_false List.not_mem_nil ?_
    rintro ⟨hlattice, hsolid⟩
    exact hsolid (h.lattice_subset hlattice)
  entered_once := .nil
  opened := nofun
  opened_once := .nil

/-- A door is passed before. -/
theorem pass (choices : List Door) (hbetween : d.between ∉ D) (hoff : d.between ∉ Lattice n)
    (htarget : d.target ∈ Lattice n) (hsolid : d.target ∉ D)
    (h : Sweep n (insert d.target (insert d.between D)) turns) :
    Sweep n D (.pass choices d :: turns) where
  entered p := by
    simp only [List.filterMap_cons, Turn.entered?, List.mem_cons, h.entered, Set.mem_insert_iff,
      not_or]
    constructor
    · rintro (rfl | ⟨hlattice, -, -, hp⟩)
      · exact ⟨htarget, hsolid⟩
      · exact ⟨hlattice, hp⟩
    · rintro ⟨hlattice, hp⟩
      by_cases heq : p = d.target
      · exact .inl heq
      · exact .inr ⟨hlattice, heq, fun h => hoff (h ▸ hlattice), hp⟩
  entered_once := by
    simp only [List.filterMap_cons, Turn.entered?, List.nodup_cons, h.entered]
    exact ⟨fun hmem => hmem.2 (.inl rfl), h.entered_once⟩
  opened p hp := by
    simp only [List.flatMap_cons, Turn.opened, List.cons_append, List.nil_append,
      List.mem_cons] at hp
    rcases hp with rfl | rfl | hlater
    · exact hbetween
    · exact hsolid
    · exact fun hmem => h.opened p hlater (.inr (.inr hmem))
  opened_once := by
    simp only [List.flatMap_cons, Turn.opened, List.cons_append, List.nil_append,
      List.nodup_cons, List.mem_cons, not_or]
    refine ⟨⟨fun heq => hoff (heq ▸ htarget), fun hlater => ?_⟩, fun hlater => ?_, h.opened_once⟩
    · exact h.opened _ hlater (.inr (.inl rfl))
    · exact h.opened _ hlater (.inl rfl)

end Sweep

/-- However the doors are picked, a walk digs out all that is left of the lattice. -/
theorem Layout.Carves.sweep {σ : Type} {choose : Chooser σ} {l : Layout} {path : List Site} {s : σ}
    {turns : List Turn} {final : Layout × σ} (h : l.Carves choose path s turns final)
    (hcarved : Carved l.side l.dugSites path) : Sweep l.side l.dugSites turns := by
  induction h with
  | done l s => exact .done hcarved
  | back hnone hrest ih =>
    obtain ⟨hentered, hentered_once, hopened, hopened_once⟩ := ih (carved_back hcarved hnone)
    exact ⟨hentered, hentered_once, hopened, hopened_once⟩
  | @pass l p path s turns final d ds hsome hrest ih =>
    have hmem : (d :: ds).get (choose ds.length s).1 ∈ l.frontier p := by
      rw [hsome]
      exact List.get_mem _ _
    obtain ⟨hdoor, htarget, hsolid⟩ := mem_frontier.1 hmem
    obtain ⟨-, hp⟩ := hcarved.path_dug p List.mem_cons_self
    specialize ih (carved_pass hcarved hmem)
    rw [side_pass, dugSites_pass hp hdoor htarget] at ih
    exact .pass (d :: ds) (hcarved.between_notMem hp hdoor htarget hsolid)
      (between_notMem_lattice hp hdoor htarget) htarget hsolid ih

/-- However the doors are picked, carving a maze takes the same number of turns and asks for the
same number of picks, each of them from at least one door, and leaves the chooser where these picks
have led. Every lattice cell is put on the path once and taken off it once, and no cell is dug out
twice. -/
theorem turns_carve {σ : Type} (choose : Chooser σ) (size : UInt32) (s : σ) :
    let n := max size.toNat 5
    let k := (n - 1) / 2
    let l := (Layout.ofSize (mazeSize size) (five_le_mazeSize size)).dig Layout.startSite
    ∃ turns carved, l.Carves choose [Layout.startSite] s turns carved ∧
      carveMaze choose size s = (carved.1.linkExit, carved.2) ∧
      turns.length = 2 * (k * k) - 1 ∧
      (turns.filterMap Turn.asked?).length = k * k - 1 ∧
      (∀ choices ∈ turns.filterMap Turn.asked?, choices ≠ []) ∧
      carved.2 = (turns.filterMap Turn.asked?).foldl
        (fun s choices => (choose (choices.length - 1) s).2) s ∧
      (Layout.startSite :: turns.filterMap Turn.entered?).Nodup ∧
      (∀ p, p ∈ Layout.startSite :: turns.filterMap Turn.entered? ↔ p ∈ Lattice n) ∧
      (turns.filterMap Turn.left?).Nodup ∧
      (∀ p, p ∈ turns.filterMap Turn.left? ↔ p ∈ Lattice n) ∧
      (Layout.startSite :: turns.flatMap Turn.opened).Nodup := by
  intro n k l
  have hside : l.side = n := (Layout.side_dig _ _).trans (toNat_mazeSize size)
  have hcarved := Layout.carved_start (mazeSize size) (five_le_mazeSize size)
  obtain ⟨turns, hturns⟩ := l.exists_carves choose [Layout.startSite] s
  have hsweep := hturns.sweep hcarved
  rw [hside, Layout.dugSites_start] at hsweep
  have hstart : Layout.startSite ∈ Lattice n := hside ▸ (hcarved.path_dug _ List.mem_cons_self).2
  have honce : (Layout.startSite :: turns.filterMap Turn.entered?).Nodup := by
    rw [List.nodup_cons, hsweep.entered]
    exact ⟨fun hmem => hmem.2 rfl, hsweep.entered_once⟩
  have hall (p : Site) :
      p ∈ Layout.startSite :: turns.filterMap Turn.entered? ↔ p ∈ Lattice n := by
    rw [List.mem_cons, hsweep.entered]
    constructor
    · rintro (rfl | ⟨hlattice, -⟩)
      · exact hstart
      · exact hlattice
    · intro hlattice
      by_cases heq : p = Layout.startSite
      · exact .inl heq
      · exact .inr ⟨hlattice, heq⟩
  have hcount : (turns.filterMap Turn.entered?).length + 1 = k * k := by
    have hlattice : Lattice n = (Layout.startSite :: turns.filterMap Turn.entered?).toFinset := by
      ext p
      rw [List.coe_toFinset, Set.mem_ofPred_eq, hall]
    rw [← ncard_lattice, hlattice, Set.ncard_coe_finset, List.toFinset_card_of_nodup honce,
      List.length_cons]
  have hperm := hturns.perm_left
  obtain ⟨hnonempty, hasked⟩ := hturns.asked
  refine ⟨turns, _, hturns, rfl, ?_, ?_, hnonempty, hturns.snd_final, honce, hall,
    hperm.nodup_iff.2 honce, fun p => ?_, ?_⟩
  · rw [hturns.length_eq, hperm.length_eq, List.singleton_append, List.length_cons]
    omega
  · omega
  · exact hperm.mem_iff.trans (hall p)
  · rw [List.nodup_cons]
    exact ⟨fun hmem => hsweep.opened _ hmem rfl, hsweep.opened_once⟩

end Labyrinth
