import Labyrinth.Maze.Layout
import Labyrinth.Proofs.Maze.Growth

/-!
# What carving leaves behind

The sites that have been dug out are at all times a tree that has grown from the start: a door that
is passed adds the cell between two lattice cells and the lattice cell behind it, neither of which
touches any other one. When the path has been traced back, the whole lattice has been dug out. Where
the exit is no lattice cell, it is linked to the lattice by one more cell.

All of this is said of the set of dug sites alone. Where that set comes from is a matter of the
first section.

## Main results

* `Carved.pass`, `Carved.back`: what the two steps of carving preserve.
* `Layout.carved_carve`: what a whole walk preserves, however its doors are chosen.
* `Carved.lattice_subset`: the whole lattice has been dug out at the end.
* `Carved.ncard_add_one`: how many sites have been dug out at the end.
-/

namespace Labyrinth

namespace Layout

/-! ### Dug sites -/

/-- The set of the sites that have been dug out. -/
def dugSites (l : Layout) : Set Site := {p | l.isDug p = true}

theorem contains_iff {l : Layout} {p : Site} :
    l.contains p = true ↔ p.1 < l.side ∧ p.2 < l.side := by
  simp [contains]

theorem index_inj {l : Layout} {p q : Site} (hp : l.contains p = true) (hq : l.contains q = true)
    (h : l.index p = l.index q) : p = q := by
  obtain ⟨hp₁, -⟩ := contains_iff.1 hp
  obtain ⟨hq₁, -⟩ := contains_iff.1 hq
  simp only [index] at h
  have hcolumn : p.1 = q.1 := by
    have hmod := congrArg (· % l.side) h
    simpa only [Nat.mul_add_mod_of_lt hp₁, Nat.mul_add_mod_of_lt hq₁] using hmod
  rw [hcolumn, Nat.add_right_cancel_iff] at h
  exact Prod.ext hcolumn (Nat.eq_of_mul_eq_mul_right (Nat.zero_lt_of_lt hp₁) h)

theorem side_dig (l : Layout) (p : Site) : (l.dig p).side = l.side := by
  rw [side, size_dig, side]

theorem isDug_dig {l : Layout} {p : Site} (h : l.contains p = true) (q : Site) :
    (l.dig p).isDug q = true ↔ q = p ∨ l.isDug q = true := by
  have hcontains : (l.dig p).contains q = l.contains q := by
    rw [contains, contains, side_dig]
  have hindex : (l.dig p).index q = l.index q := by rw [index, index, side_dig]
  have hdug : (l.dig p).dug = l.dug.set (l.index p) true (index_lt h) := by
    simp [dig, h, Array.setIfInBounds_def, index_lt h]
  cases hq : l.contains q with
  | false =>
    have hne : q ≠ p := by
      rintro rfl
      rw [h] at hq
      cases hq
    simp [isDug, hcontains, hq, hne]
  | true =>
    simp only [isDug, hcontains, hq, hindex, hdug, Bool.true_and, Array.getD_eq_getD_getElem?]
    by_cases heq : q = p
    · simp [heq, index_lt h]
    · have hne : l.index p ≠ l.index q := fun hindex => heq (index_inj hq h hindex.symm)
      simp [heq, Array.getElem?_set_ne _ hne]

/-- Digging out a site adds it to the dug ones. -/
theorem dugSites_dig {l : Layout} {p : Site} (h : l.contains p = true) :
    (l.dig p).dugSites = insert p l.dugSites := by
  ext q
  exact isDug_dig h q

theorem dugSites_ofSize (size : UInt32) (h : 5 ≤ size.toNat) : (ofSize size h).dugSites = ∅ := by
  ext p
  simp [dugSites, isDug, ofSize, Array.getD]

theorem side_carve {σ : Type} (choose : Chooser σ) (l : Layout) (path : List Site) (s : σ) :
    (l.carve choose path s).1.side = l.side := by
  fun_induction carve choose l path s with
  | case1 => rfl
  | case2 _ _ _ _ _ ih => exact ih
  | case3 _ _ _ _ _ _ _ _ _ ih =>
    rw [ih, pass, side_dig, side_dig]

end Layout

/-! ### The plane and the lattice -/

/-- Two sites **side by side**: in the same row or column, and one apart in the other. -/
def Beside (p q : Site) : Prop :=
  p.1 = q.1 ∧ (p.2 + 1 = q.2 ∨ q.2 + 1 = p.2) ∨ p.2 = q.2 ∧ (p.1 + 1 = q.1 ∨ q.1 + 1 = p.1)

/-- The **plane**: all sites, with edges between those side by side. -/
def plane : SimpleGraph Site where
  Adj := Beside
  symm := ⟨fun _ _ h => by unfold Beside at *; omega⟩
  loopless := ⟨fun _ h => by unfold Beside at h; omega⟩

/-- The **lattice** of a square with side `n`: two odd coordinates, off the outermost cells. -/
def Lattice (n : Nat) : Set Site := {p | p.1 % 2 = 1 ∧ p.2 % 2 = 1 ∧ p.1 + 2 ≤ n ∧ p.2 + 2 ≤ n}

theorem mem_lattice {n : Nat} {p : Site} :
    p ∈ Lattice n ↔ p.1 % 2 = 1 ∧ p.2 % 2 = 1 ∧ p.1 + 2 ≤ n ∧ p.2 + 2 ≤ n := Iff.rfl

theorem Layout.onLattice_iff {l : Layout} {p : Site} :
    l.onLattice p = true ↔ p ∈ Lattice l.side := by
  have h5 : 5 ≤ l.side := l.five_le_size
  simp only [onLattice, isInterior, Bool.and_eq_true, beq_iff_eq, decide_eq_true_eq,
    mem_lattice]
  omega

/-- A site lies right **between** two others, the first of which is above or to the left. -/
def Between (p b q : Site) : Prop :=
  p.1 = b.1 ∧ b.1 = q.1 ∧ p.2 + 1 = b.2 ∧ b.2 + 1 = q.2 ∨
    p.2 = b.2 ∧ b.2 = q.2 ∧ p.1 + 1 = b.1 ∧ b.1 + 1 = q.1

/-- A **doorway** of a set of sites: between two lattice cells of the set. -/
def IsDoorway (n : Nat) (D : Set Site) (b : Site) : Prop :=
  ∃ p q, p ∈ D ∧ p ∈ Lattice n ∧ q ∈ D ∧ q ∈ Lattice n ∧ Between p b q

section Lattice

variable {n : Nat} {D : Set Site} {b p q : Site} {d : Door}

/-- A door leads from a lattice cell to the next but one. -/
theorem between_of_mem_doors (hp : p ∈ Lattice n) (hd : d ∈ Layout.doors p)
    (htarget : d.target ∈ Lattice n) :
    Between p d.between d.target ∨ Between d.target d.between p := by
  simp only [Layout.doors, List.mem_cons, List.not_mem_nil, or_false] at hd
  simp only [mem_lattice] at hp htarget
  unfold Between
  rcases hd with rfl | rfl | rfl | rfl
  all_goals
    dsimp only at htarget ⊢
    omega

/-- The cells on both sides of a doorway belong to the set. -/
theorem IsDoorway.mem (h : IsDoorway n D b) (hp : p ∈ Lattice n)
    (hbeside : Beside p b) : p ∈ D := by
  obtain ⟨q, r, hqD, hq, hrD, hr, hbetween⟩ := h
  have heither : p = q ∨ p = r := by
    simp only [mem_lattice] at hp hq hr
    simp only [Between, Beside] at hbetween hbeside
    rw [Prod.ext_iff, Prod.ext_iff]
    omega
  rcases heither with rfl | rfl
  · exact hqD
  · exact hrD

theorem IsDoorway.mono {E : Set Site} (h : IsDoorway n D b) (hsub : D ⊆ E) : IsDoorway n E b := by
  obtain ⟨p, q, hpD, hp, hqD, hq, hbetween⟩ := h
  exact ⟨p, q, hsub hpD, hp, hsub hqD, hq, hbetween⟩

/-- A doorway has one odd and one even coordinate. -/
theorem IsDoorway.parity (h : IsDoorway n D b) : (b.1 + b.2) % 2 = 1 := by
  obtain ⟨p, q, -, hp, -, -, hbetween⟩ := h
  simp only [mem_lattice] at hp
  simp only [Between] at hbetween
  omega

/-- A doorway lies as far off the outermost cells as the lattice. -/
theorem IsDoorway.interior (h : IsDoorway n D b) :
    1 ≤ b.1 ∧ 1 ≤ b.2 ∧ b.1 + 2 ≤ n ∧ b.2 + 2 ≤ n := by
  obtain ⟨p, q, -, hp, -, hq, hbetween⟩ := h
  simp only [mem_lattice] at hp hq
  simp only [Between] at hbetween
  omega

theorem parity_of_beside (h : Beside p q) : (p.1 + p.2) % 2 ≠ (q.1 + q.2) % 2 := by
  simp only [Beside] at h
  omega

theorem parity_of_mem_lattice (h : p ∈ Lattice n) : (p.1 + p.2) % 2 = 0 := by
  simp only [mem_lattice] at h
  omega

/-- The cell between two lattice cells is no lattice cell. -/
theorem between_notMem_lattice (hp : p ∈ Lattice n) (hd : d ∈ Layout.doors p)
    (htarget : d.target ∈ Lattice n) : d.between ∉ Lattice n := by
  intro hlattice
  have hbetween := between_of_mem_doors hp hd htarget
  have := parity_of_mem_lattice hp
  have := parity_of_mem_lattice hlattice
  simp only [Between] at hbetween
  omega

end Lattice

/-! ### Steps of carving -/

/-- What carving has made of the set of dug sites, while it stands at the head of a path. -/
structure Carved (n : Nat) (D : Set Site) (path : List Site) : Prop where
  grown : Grown plane Layout.startSite D
  /-- Only lattice cells and doorways have been dug out. -/
  parts : ∀ p ∈ D, p ∈ Lattice n ∨ IsDoorway n D p
  path_dug : ∀ p ∈ path, p ∈ D ∧ p ∈ Lattice n
  /-- No door leads to solid rock from where the walk has turned back. -/
  explored : ∀ p ∈ D, p ∈ Lattice n → p ∉ path →
    ∀ d ∈ Layout.doors p, d.target ∈ Lattice n → d.target ∈ D
  /-- Every lattice cell but the first one has come with a doorway. -/
  count : D.ncard + 1 = 2 * (D ∩ Lattice n).ncard

namespace Carved

variable {n : Nat} {D : Set Site} {p : Site} {path : List Site} {d : Door}

/-- The start alone has been dug out. -/
theorem start (h5 : 5 ≤ n) : Carved n {Layout.startSite} [Layout.startSite] := by
  have hstart : Layout.startSite ∈ Lattice n := by
    simp only [mem_lattice, Layout.startSite, true_and]
    omega
  refine ⟨.root, ?_, ?_, ?_, ?_⟩
  · rintro _ rfl
    exact .inl hstart
  · intro p hp
    rw [List.mem_singleton.1 hp]
    exact ⟨rfl, hstart⟩
  · intro p hp _ hpath
    exact absurd (List.mem_singleton.2 hp) hpath
  · rw [Set.inter_eq_left.2 (Set.singleton_subset_iff.2 hstart), Set.ncard_singleton]

section Pass

variable (h : Carved n D path) (hpD : p ∈ D) (hp : p ∈ Lattice n) (hd : d ∈ Layout.doors p)
  (htarget : d.target ∈ Lattice n) (hsolid : d.target ∉ D)
include h htarget hsolid

/-- The cell behind touches no dug cell. -/
theorem target_touches {r : Site} (hr : r ∈ D) : ¬Beside r d.target := by
  intro hbeside
  rcases h.parts r hr with hlattice | hdoorway
  · have := parity_of_beside hbeside
    have := parity_of_mem_lattice hlattice
    have := parity_of_mem_lattice htarget
    omega
  · exact hsolid (hdoorway.mem htarget (plane.symm.symm _ _ hbeside))

include hp hd

/-- The cell between is solid as long as the cell behind it is. -/
theorem between_notMem : d.between ∉ D := by
  intro hmem
  have hbetween := between_of_mem_doors hp hd htarget
  have hbeside : Beside d.target d.between := by
    simp only [Between, Beside] at *
    omega
  rcases h.parts _ hmem with hlattice | hdoorway
  · have := parity_of_beside hbeside
    have := parity_of_mem_lattice htarget
    have := parity_of_mem_lattice hlattice
    omega
  · exact hsolid (hdoorway.mem htarget hbeside)

/-- The cell between touches no dug cell but the one from which the door leads. -/
theorem between_touches {r : Site} (hr : r ∈ D) (hbeside : Beside r d.between) : r = p := by
  have hbetween := between_of_mem_doors hp hd htarget
  have hparity : (d.between.1 + d.between.2) % 2 = 1 := by
    have := parity_of_mem_lattice hp
    simp only [Between] at hbetween
    omega
  rcases h.parts r hr with hlattice | hdoorway
  · have hne : r ≠ d.target := fun heq => hsolid (heq ▸ hr)
    simp only [mem_lattice] at hp htarget hlattice
    simp only [Between, Beside] at hbetween hbeside
    rw [Ne, Prod.ext_iff] at hne
    rw [Prod.ext_iff]
    omega
  · have := parity_of_beside hbeside
    have := hdoorway.parity
    omega

include hpD

/-- A door is passed. -/
theorem pass : Carved n (insert d.target (insert d.between D)) (d.target :: path) := by
  have hbetween := between_of_mem_doors hp hd htarget
  have hfirst : Beside p d.between := by
    simp only [Between, Beside] at *
    omega
  have hsecond : Beside d.between d.target := by
    simp only [Between, Beside] at *
    omega
  have hnew := h.between_notMem hp hd htarget hsolid
  have hoff := between_notMem_lattice hp hd htarget
  have hsub : D ⊆ insert d.target (insert d.between D) :=
    (Set.subset_insert _ _).trans (Set.subset_insert _ _)
  have hsolid' : d.target ∉ insert d.between D := by
    rintro (heq | hmem)
    · exact hoff (heq ▸ htarget)
    · exact hsolid hmem
  refine ⟨?_, ?_, ?_, ?_, ?_⟩
  · refine .sprout (.sprout h.grown hnew hpD hfirst ?_) hsolid' (.inl rfl) hsecond ?_
    · exact fun r hr hbeside => h.between_touches hp hd htarget hsolid hr hbeside
    · rintro r (rfl | hr) hbeside
      · rfl
      · exact absurd hbeside (h.target_touches htarget hsolid hr)
  · rintro r (rfl | rfl | hr)
    · exact .inl htarget
    · right
      rcases hbetween with hbetween | hbetween
      · exact ⟨p, d.target, hsub hpD, hp, .inl rfl, htarget, hbetween⟩
      · exact ⟨d.target, p, .inl rfl, htarget, hsub hpD, hp, hbetween⟩
    · exact (h.parts r hr).imp_right fun hdoorway => hdoorway.mono hsub
  · intro r hr
    rcases List.mem_cons.1 hr with rfl | hr
    · exact ⟨.inl rfl, htarget⟩
    · obtain ⟨hrD, hrL⟩ := h.path_dug r hr
      exact ⟨hsub hrD, hrL⟩
  · rintro r (rfl | rfl | hr) hlattice hpath e he hetarget
    · exact absurd List.mem_cons_self hpath
    · exact absurd hlattice hoff
    · have hpath' : r ∉ path := fun hmem => hpath (List.mem_cons_of_mem _ hmem)
      exact hsub (h.explored r hr hlattice hpath' e he hetarget)
  · have hinter : insert d.target (insert d.between D) ∩ Lattice n =
        insert d.target (D ∩ Lattice n) := by
      rw [Set.insert_inter_of_mem htarget, Set.insert_inter_of_notMem hoff]
    have hfinite := h.grown.finite
    rw [hinter, Set.ncard_insert_of_notMem hsolid' (hfinite.insert _),
      Set.ncard_insert_of_notMem hnew hfinite,
      Set.ncard_insert_of_notMem (fun hmem => hsolid hmem.1) (hfinite.inter_of_left _)]
    have := h.count
    omega

end Pass

/-- The walk turns back where no door leads to solid rock. -/
theorem back (h : Carved n D (p :: path))
    (hnone : ∀ d ∈ Layout.doors p, d.target ∈ Lattice n → d.target ∈ D) : Carved n D path where
  grown := h.grown
  parts := h.parts
  path_dug q hq := h.path_dug q (List.mem_cons_of_mem _ hq)
  explored q hq hlattice hpath := by
    by_cases heq : q = p
    · exact heq ▸ hnone
    · refine h.explored q hq hlattice fun hmem => ?_
      exact (List.mem_cons.1 hmem).elim heq hpath
  count := h.count

end Carved

/-! ### The whole walk -/

namespace Layout

theorem contains_of_mem_lattice {l : Layout} {p : Site} (h : p ∈ Lattice l.side) :
    l.contains p = true := contains_of_onLattice (onLattice_iff.2 h)

theorem mem_frontier {l : Layout} {p : Site} {d : Door} :
    d ∈ l.frontier p ↔ d ∈ doors p ∧ d.target ∈ Lattice l.side ∧ d.target ∉ l.dugSites := by
  simp only [frontier, List.mem_filter, Bool.and_eq_true, onLattice_iff, Bool.not_eq_true',
    dugSites, Set.mem_ofPred_eq, Bool.not_eq_true]

theorem dugSites_pass {l : Layout} {p : Site} {d : Door} (hp : p ∈ Lattice l.side)
    (hd : d ∈ doors p) (htarget : d.target ∈ Lattice l.side) :
    (l.pass d).dugSites = insert d.target (insert d.between l.dugSites) := by
  have hbetween : (l.dig d.target).contains d.between = true := by
    have hbetween := between_of_mem_doors hp hd htarget
    simp only [mem_lattice] at hp htarget
    rw [contains_iff, side_dig]
    simp only [Between] at hbetween
    omega
  rw [pass, dugSites_dig hbetween, dugSites_dig (contains_of_mem_lattice htarget),
    Set.insert_comm]

theorem side_pass (l : Layout) (d : Door) : (l.pass d).side = l.side := by
  rw [pass, side_dig, side_dig]

section Step

variable {l : Layout} {p : Site} {path : List Site} {d : Door}
variable (h : Carved l.side l.dugSites (p :: path))
include h

/-- The walk turns back where the frontier is empty. -/
theorem carved_back (hnone : l.frontier p = []) : Carved l.side l.dugSites path := by
  refine h.back fun d hd htarget => ?_
  by_contra hsolid
  have hmem := mem_frontier.2 ⟨hd, htarget, hsolid⟩
  rw [hnone] at hmem
  cases hmem

/-- A door of the frontier is passed. -/
theorem carved_pass (hd : d ∈ l.frontier p) :
    Carved (l.pass d).side (l.pass d).dugSites (d.target :: p :: path) := by
  obtain ⟨hdoor, htarget, hsolid⟩ := mem_frontier.1 hd
  obtain ⟨hpD, hp⟩ := h.path_dug p List.mem_cons_self
  rw [side_pass, dugSites_pass hp hdoor htarget]
  exact h.pass hpD hp hdoor htarget hsolid

end Step

section Start

variable (size : UInt32) (h5 : 5 ≤ size.toNat)

theorem dugSites_start : ((ofSize size h5).dig startSite).dugSites = {startSite} := by
  have hstart : (ofSize size h5).contains startSite = true := by
    have hside : (ofSize size h5).side = size.toNat := rfl
    rw [contains_iff, hside]
    simp only [startSite]
    omega
  rw [dugSites_dig hstart, dugSites_ofSize, insert_empty_eq]

/-- Carving begins when the start has been dug out. -/
theorem carved_start :
    Carved ((ofSize size h5).dig startSite).side ((ofSize size h5).dig startSite).dugSites
      [startSite] := by
  rw [dugSites_start, side_dig]
  exact .start h5

end Start

/-- However the doors are chosen, the whole path is traced back. -/
theorem carved_carve {σ : Type} (choose : Chooser σ) {l : Layout} {path : List Site}
    (h : Carved l.side l.dugSites path) (s : σ) :
    Carved l.side (l.carve choose path s).1.dugSites [] := by
  fun_induction carve choose l path s with
  | case1 => exact h
  | case2 l s p before hnone ih => exact ih (carved_back h hnone)
  | case3 l s p before d ds hfrontier pick door ih =>
    have hmem : door ∈ l.frontier p := hfrontier ▸ List.get_mem _ _
    rw [side_pass] at ih
    exact ih (l.side_pass door ▸ carved_pass h hmem)

end Layout

/-! ### The whole lattice -/

/-- The lattice has as many rows and columns as there are odd numbers to choose from. -/
theorem ncard_lattice (n : Nat) : (Lattice n).ncard = (n - 1) / 2 * ((n - 1) / 2) := by
  have himage : Lattice n = (fun p : Nat × Nat => (2 * p.1 + 1, 2 * p.2 + 1)) ''
      (Finset.range ((n - 1) / 2) ×ˢ Finset.range ((n - 1) / 2) : Finset (Nat × Nat)) := by
    ext ⟨a, b⟩
    simp only [mem_lattice, Set.mem_image, Finset.mem_coe, Finset.mem_product,
      Finset.mem_range, Prod.mk.injEq, Prod.exists]
    constructor
    · intro h
      exact ⟨a / 2, b / 2, by omega, by omega, by omega⟩
    · rintro ⟨i, j, hij, rfl, rfl⟩
      omega
  have hinj : Function.Injective fun p : Nat × Nat => (2 * p.1 + 1, 2 * p.2 + 1) := by
    rintro ⟨a, b⟩ ⟨c, d⟩ heq
    simp only [Prod.mk.injEq] at heq ⊢
    omega
  rw [himage, Set.ncard_image_of_injective _ hinj, Set.ncard_coe_finset, Finset.card_product,
    Finset.card_range]

namespace Carved

variable {n : Nat} {D : Set Site} (h : Carved n D [])
include h

theorem mem_right {a b : Nat} (hmem : (a, b) ∈ D) (hfrom : (a, b) ∈ Lattice n)
    (hto : (a + 2, b) ∈ Lattice n) : (a + 2, b) ∈ D :=
  h.explored _ hmem hfrom List.not_mem_nil ⟨(a + 1, b), (a + 2, b)⟩ (by simp [Layout.doors]) hto

theorem mem_below {a b : Nat} (hmem : (a, b) ∈ D) (hfrom : (a, b) ∈ Lattice n)
    (hto : (a, b + 2) ∈ Lattice n) : (a, b + 2) ∈ D :=
  h.explored _ hmem hfrom List.not_mem_nil ⟨(a, b + 1), (a, b + 2)⟩ (by simp [Layout.doors]) hto

/-- The whole lattice has been dug out: one cell after the other to the right in the first row, and
from there downwards. -/
theorem lattice_subset : Lattice n ⊆ D := by
  have hrow : ∀ i, (2 * i + 1, 1) ∈ Lattice n → (2 * i + 1, 1) ∈ D := by
    intro i
    induction i with
    | zero => exact fun _ => h.grown.root_mem
    | succ i ih =>
      intro hlattice
      have hleft : (2 * i + 1, 1) ∈ Lattice n := by
        simp only [mem_lattice, true_and] at hlattice ⊢
        omega
      exact h.mem_right (ih hleft) hleft hlattice
  have hall : ∀ j i, (2 * i + 1, 2 * j + 1) ∈ Lattice n → (2 * i + 1, 2 * j + 1) ∈ D := by
    intro j
    induction j with
    | zero => exact hrow
    | succ j ih =>
      intro i hlattice
      have habove : (2 * i + 1, 2 * j + 1) ∈ Lattice n := by
        simp only [mem_lattice] at hlattice ⊢
        omega
      exact h.mem_below (ih i habove) habove hlattice
  rintro ⟨a, b⟩ hlattice
  obtain ⟨i, rfl⟩ : ∃ i, a = 2 * i + 1 := ⟨a / 2, by have := hlattice.1; dsimp only at this; omega⟩
  obtain ⟨j, rfl⟩ : ∃ j, b = 2 * j + 1 :=
    ⟨b / 2, by have := hlattice.2.1; dsimp only at this; omega⟩
  exact hall j i hlattice

theorem ncard_add_one : D.ncard + 1 = 2 * ((n - 1) / 2 * ((n - 1) / 2)) := by
  rw [h.count, Set.inter_eq_right.2 h.lattice_subset, ncard_lattice]

theorem interior {p : Site} (hp : p ∈ D) : 1 ≤ p.1 ∧ 1 ≤ p.2 ∧ p.1 + 2 ≤ n ∧ p.2 + 2 ≤ n := by
  rcases h.parts p hp with hlattice | hdoorway
  · simp only [mem_lattice] at hlattice
    omega
  · exact hdoorway.interior

end Carved

end Labyrinth
