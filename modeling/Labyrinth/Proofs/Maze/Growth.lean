import Mathlib.Combinatorics.SimpleGraph.Acyclic
import Mathlib.Data.Set.Card

/-!
# Trees that have grown

A set of vertices has **grown** in a graph if it began as a single vertex and every other vertex
was added where it touched exactly one of those before. However large such a set is, the part of the
graph that lies within it is a tree.

## Main results

* `Grown.reachable`, `Grown.isAcyclic`: what has grown is connected and has no cycles.
* `Grown.existsUnique_path`: any two of its vertices are joined by exactly one path.
* `Grown.isTree_induce`: the graph that it induces is a tree.
* `Grown.ncard_edgeSet`: it has one edge less than it has vertices.
* `Grown.image`: what has grown in one graph has grown in every graph that looks the same there.
-/

namespace Labyrinth

open SimpleGraph

variable {V W : Type*}

/-- The part of a graph that lies **within** a set; all other vertices are on their own. -/
def within (G : SimpleGraph V) (s : Set V) : SimpleGraph V where
  Adj a b := a ∈ s ∧ b ∈ s ∧ G.Adj a b
  symm := ⟨fun _ _ h => ⟨h.2.1, h.1, h.2.2.symm⟩⟩
  loopless := ⟨fun _ h => h.2.2.ne rfl⟩

/-- A set of vertices that has grown from a root, by a neighbour of a single vertex at a time. -/
inductive Grown (G : SimpleGraph V) (root : V) : Set V → Prop
  | root : Grown G root {root}
  | sprout {s : Set V} {p q : V} (hs : Grown G root s) (hp : p ∉ s) (hq : q ∈ s)
      (hadj : G.Adj q p) (honly : ∀ r ∈ s, G.Adj r p → r = q) : Grown G root (insert p s)

variable {G : SimpleGraph V} {s : Set V} {root p q : V}

theorem mem_of_reachable_within (h : (within G s).Reachable p q) (hne : p ≠ q) : q ∈ s := by
  obtain ⟨walk⟩ := h
  have hnil : ¬walk.Nil := Walk.not_nil_of_ne hne
  exact (walk.adj_penultimate hnil).2.1

theorem within_mono {t : Set V} (h : s ⊆ t) : within G s ≤ within G t :=
  fun _ _ hadj => ⟨h hadj.1, h hadj.2.1, hadj.2.2⟩

theorem within_singleton : within G {p} = ⊥ := by
  ext a b
  simp only [within, Set.mem_singleton_iff, bot_adj, iff_false]
  rintro ⟨rfl, rfl, hab⟩
  exact hab.ne rfl

/-- A vertex that touches one other vertex adds one edge. -/
theorem within_insert (hp : p ∉ s) (hq : q ∈ s) (hadj : G.Adj q p)
    (honly : ∀ r ∈ s, G.Adj r p → r = q) : within G (insert p s) = within G s ⊔ edge q p := by
  ext a b
  simp only [within, Set.mem_insert_iff, sup_adj, edge_adj]
  constructor
  · rintro ⟨rfl | ha, rfl | hb, hab⟩
    · exact absurd rfl hab.ne
    · exact .inr ⟨.inr ⟨rfl, honly b hb hab.symm⟩, hab.ne⟩
    · exact .inr ⟨.inl ⟨honly a ha hab, rfl⟩, hab.ne⟩
    · exact .inl ⟨ha, hb, hab⟩
  · rintro (⟨ha, hb, hab⟩ | ⟨⟨rfl, rfl⟩ | ⟨rfl, rfl⟩, -⟩)
    · exact ⟨.inr ha, .inr hb, hab⟩
    · exact ⟨.inr hq, .inl rfl, hadj⟩
    · exact ⟨.inl rfl, .inr hq, hadj.symm⟩

namespace Grown

theorem root_mem (h : Grown G root s) : root ∈ s := by
  induction h with
  | root => exact rfl
  | sprout _ _ _ _ _ ih => exact .inr ih

theorem finite (h : Grown G root s) : s.Finite := by
  induction h with
  | root => exact Set.finite_singleton root
  | sprout _ _ _ _ _ ih => exact ih.insert _

/-- Every vertex is joined to the root. -/
theorem reachable (h : Grown G root s) (hp : p ∈ s) : (within G s).Reachable root p := by
  induction h generalizing p with
  | root => rw [Set.mem_singleton_iff.1 hp]
  | @sprout s p' q hs hp' hq hadj _ ih =>
    have hmono : within G s ≤ within G (insert p' s) := within_mono (Set.subset_insert _ _)
    rcases Set.mem_insert_iff.1 hp with rfl | hp
    · have hlast : (within G (insert p s)).Adj q p := ⟨.inr hq, .inl rfl, hadj⟩
      exact ((ih hq).mono hmono).trans hlast.reachable
    · exact (ih hp).mono hmono

theorem isAcyclic (h : Grown G root s) : (within G s).IsAcyclic := by
  induction h with
  | root =>
    rw [within_singleton]
    exact isAcyclic_bot
  | sprout _ hp hq hadj honly ih =>
    rw [within_insert hp hq hadj honly]
    exact ih.sup_edge_of_not_reachable fun hreach => hp (mem_of_reachable_within hreach hadj.ne)

/-- Any two vertices are joined by exactly one path. -/
theorem existsUnique_path (h : Grown G root s) (hp : p ∈ s) (hq : q ∈ s) :
    ∃! walk : (within G s).Walk p q, walk.IsPath := by
  classical
  obtain ⟨walk⟩ := (h.reachable hp).symm.trans (h.reachable hq)
  refine ⟨walk.toPath, walk.toPath.isPath, fun other hother => ?_⟩
  have hpaths := h.isAcyclic.subsingleton_path p q
  exact congrArg Subtype.val (hpaths.elim ⟨other, hother⟩ walk.toPath)

/-- Vertices that are joined within a set are joined in the graph that the set induces. -/
theorem reachable_induce (walk : (within G s).Walk p q) (hp : p ∈ s) (hq : q ∈ s) :
    (G.induce s).Reachable ⟨p, hp⟩ ⟨q, hq⟩ := by
  induction walk with
  | nil => rfl
  | cons hadj _ ih =>
    have hfirst : (G.induce s).Adj ⟨_, hp⟩ ⟨_, hadj.2.1⟩ := hadj.2.2
    exact hfirst.reachable.trans (ih hadj.2.1 hq)

/-- The graph that is induced is a tree. -/
theorem isTree_induce (h : Grown G root s) : (G.induce s).IsTree := by
  have hconnected : (G.induce s).Connected := by
    refine (connected_iff_exists_forall_reachable _).2 ⟨⟨root, h.root_mem⟩, fun q => ?_⟩
    obtain ⟨walk⟩ := h.reachable q.2
    exact reachable_induce walk h.root_mem q.2
  let inclusion : G.induce s →g within G s := ⟨Subtype.val, fun {a b} hab => ⟨a.2, b.2, hab⟩⟩
  exact ⟨hconnected, h.isAcyclic.comap inclusion Subtype.val_injective⟩

theorem edgeSet_insert (hp : p ∉ s) (hq : q ∈ s) (hadj : G.Adj q p)
    (honly : ∀ r ∈ s, G.Adj r p → r = q) :
    (within G (insert p s)).edgeSet = insert s(q, p) (within G s).edgeSet := by
  rw [within_insert hp hq hadj honly, edgeSet_sup, edgeSet_edge_of_ne hadj.ne, Set.union_singleton]

theorem finite_edgeSet (h : Grown G root s) : (within G s).edgeSet.Finite := by
  induction h with
  | root =>
    rw [within_singleton, edgeSet_bot]
    exact Set.finite_empty
  | sprout _ hp hq hadj honly ih =>
    rw [edgeSet_insert hp hq hadj honly]
    exact ih.insert _

/-- There is one edge less than there are vertices. -/
theorem ncard_edgeSet (h : Grown G root s) : (within G s).edgeSet.ncard + 1 = s.ncard := by
  induction h with
  | root => rw [within_singleton, edgeSet_bot, Set.ncard_empty, Set.ncard_singleton]
  | @sprout s p q hs hp hq hadj honly ih =>
    have hnew : s(q, p) ∉ (within G s).edgeSet := fun hmem => hp hmem.2.1
    rw [edgeSet_insert hp hq hadj honly, Set.ncard_insert_of_notMem hnew hs.finite_edgeSet, ih,
      Set.ncard_insert_of_notMem hp hs.finite]

/-- Every vertex but the root touches another one. -/
theorem exists_adj (h : Grown G root s) (hp : p ∈ s) (hne : p ≠ root) : ∃ q ∈ s, G.Adj q p := by
  obtain ⟨walk⟩ := h.reachable hp
  have hadj := walk.adj_penultimate (Walk.not_nil_of_ne hne.symm)
  exact ⟨walk.penultimate, hadj.1, hadj.2.2⟩

/-- What has grown in one graph has grown in every graph that looks the same there. -/
theorem image {H : SimpleGraph W} {f : V → W} (h : Grown G root s) (hf : Set.InjOn f s)
    (hadj : ∀ a ∈ s, ∀ b ∈ s, H.Adj (f a) (f b) ↔ G.Adj a b) : Grown H (f root) (f '' s) := by
  induction h with
  | root =>
    rw [Set.image_singleton]
    exact .root
  | @sprout s p q hs hp hq hqp honly ih =>
    have hsub : s ⊆ insert p s := Set.subset_insert p s
    have hp' : p ∈ insert p s := Set.mem_insert p s
    have hgrown := ih (hf.mono hsub) fun a ha b hb => hadj a (hsub ha) b (hsub hb)
    rw [Set.image_insert_eq]
    refine .sprout hgrown ?_ (Set.mem_image_of_mem f hq) ((hadj q (hsub hq) p hp').2 hqp) ?_
    · rintro ⟨a, ha, heq⟩
      exact hp (hf (hsub ha) hp' heq ▸ ha)
    · rintro _ ⟨a, ha, rfl⟩ hap
      rw [honly a ha ((hadj a (hsub ha) p hp').1 hap)]

end Grown

end Labyrinth
