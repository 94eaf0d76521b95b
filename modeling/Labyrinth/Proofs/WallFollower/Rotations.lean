import Mathlib.Combinatorics.SimpleGraph.Acyclic
import Mathlib.Combinatorics.SimpleGraph.DegreeSum
import Mathlib.Dynamics.PeriodicPts.Lemmas

/-!
# Tours of trees

An edge that is passed in one of its two directions is a **dart**. A **rotation** arranges the darts
that leave a vertex in a circle. Whoever comes to a vertex, turns from the edge just passed to the
next one in the circle, and leaves through that one, takes a **tour**. In a tree every tour passes
every edge once in each direction before it starts again.

A tour is never merged with another one, so it comes back to its first dart. On the way back from
the far end of an edge of a tree it has no other way than through that edge. So a tour takes the
reverse of each of its darts, too, with each dart all those that leave the same vertex, and so all
darts.

## Main results

* `Rotation.exists_iterate_symm`: a tour of a tree comes back through every edge that it passes.
* `Rotation.exists_iterate_lt`: a tour of a tree takes every dart, in time.
-/

namespace Labyrinth

variable {V : Type} {G : SimpleGraph V}

/-- A **rotation**: the darts that leave a vertex are arranged in a circle. -/
structure Rotation (G : SimpleGraph V) where
  /-- The next dart in the circle. -/
  turn : G.Dart → G.Dart
  fst_turn : ∀ d, (turn d).fst = d.fst
  injective_turn : Function.Injective turn
  /-- There is only one circle for every vertex. -/
  exists_iterate_turn : ∀ d e : G.Dart, d.fst = e.fst → ∃ n, turn^[n] d = e

namespace Rotation

variable (r : Rotation G)

/-- The dart that a **tour** takes after another one. -/
def next (d : G.Dart) : G.Dart := r.turn d.symm

theorem fst_next (d : G.Dart) : (r.next d).fst = d.snd := r.fst_turn d.symm

theorem injective_next : Function.Injective r.next :=
  r.injective_turn.comp SimpleGraph.Dart.symm_involutive.injective

theorem next_symm (d : G.Dart) : r.next d.symm = r.turn d := by rw [next, d.symm_symm]

/-- As long as a tour does not pass an edge again, its vertices are joined without the edge. -/
theorem reachable_iterate {d : G.Dart} {n : Nat}
    (h : ∀ i < n, (r.next^[i + 1] d).edge ≠ d.edge) :
    (G.deleteEdges {d.edge}).Reachable d.snd (r.next^[n] d).snd := by
  induction n with
  | zero => rfl
  | succ n ih =>
    refine (ih fun i hi => h i (Nat.lt_succ_of_lt hi)).trans (SimpleGraph.Adj.reachable ?_)
    rw [SimpleGraph.deleteEdges_adj, Set.mem_singleton_iff]
    have hfst : (r.next^[n + 1] d).fst = (r.next^[n] d).snd := by
      rw [Function.iterate_succ_apply', fst_next]
    exact hfst ▸ ⟨(r.next^[n + 1] d).adj, h n (Nat.lt_succ_self n)⟩

section Finite

variable [Finite V]

/-- A tour comes back to its first dart. -/
theorem exists_iterate_eq (d : G.Dart) : ∃ n, r.next^[n + 1] d = d := by
  have : Finite G.Dart := Finite.of_injective _ SimpleGraph.Dart.toProd_injective
  obtain ⟨n, hpos, hn⟩ := r.injective_next.mem_periodicPts d
  obtain ⟨n, rfl⟩ := Nat.exists_eq_succ_of_ne_zero hpos.ne'
  exact ⟨n, hn⟩

/-- A tour of a tree comes back through every edge that it passes. -/
theorem exists_iterate_symm (hG : G.IsAcyclic) (d : G.Dart) : ∃ n, r.next^[n] d = d.symm := by
  -- The first time that the tour passes the edge again.
  have hagain : ∃ n, (r.next^[n + 1] d).edge = d.edge :=
    (r.exists_iterate_eq d).imp fun n hn => congrArg SimpleGraph.Dart.edge hn
  classical
  have hfirst := Nat.find_spec hagain
  have hjoined := r.reachable_iterate fun i hi => Nat.find_min hagain hi
  rcases (SimpleGraph.dart_edge_eq_iff _ _).1 hfirst with hsame | hsymm
  · have hbridge : ¬(G.deleteEdges {d.edge}).Reachable d.fst d.snd :=
      SimpleGraph.isBridge_iff.1 (SimpleGraph.isAcyclic_iff_forall_adj_isBridge.1 hG d.adj)
    have hback : (r.next^[Nat.find hagain] d).snd = d.fst := by
      rw [← r.fst_next, ← Function.iterate_succ_apply' r.next, hsame]
    exact absurd (hback ▸ hjoined).symm hbridge
  · exact ⟨_, hsymm⟩

/-- A tour of a tree takes every dart. -/
theorem exists_iterate (hG : G.IsTree) (d e : G.Dart) : ∃ n, r.next^[n] d = e := by
  have hreverse {f : G.Dart} (hf : ∃ n, r.next^[n] d = f) : ∃ n, r.next^[n] d = f.symm := by
    obtain ⟨m, rfl⟩ := hf
    obtain ⟨n, hn⟩ := r.exists_iterate_symm hG.isAcyclic (r.next^[m] d)
    exact ⟨n + m, by rw [Function.iterate_add_apply, hn]⟩
  have haround {f f' : G.Dart} (hf : ∃ n, r.next^[n] d = f) (hfst : f.fst = f'.fst) :
      ∃ n, r.next^[n] d = f' := by
    obtain ⟨k, rfl⟩ := r.exists_iterate_turn f f' hfst
    clear hfst
    induction k with
    | zero => exact hf
    | succ k ih =>
      obtain ⟨n, hn⟩ := hreverse ih
      rw [Function.iterate_succ_apply']
      exact ⟨n + 1, by rw [Function.iterate_succ_apply', hn, next_symm]⟩
  -- From a vertex all of whose darts are taken this spreads to all others.
  have hspread {u v : V} (walk : G.Walk u v)
    (hu : ∀ f : G.Dart, f.fst = u → ∃ n, r.next^[n] d = f) :
      ∀ f : G.Dart, f.fst = v → ∃ n, r.next^[n] d = f := by
    induction walk with
    | nil => exact hu
    | cons hadj _ ih =>
      exact ih fun f hf => haround (hreverse (hu ⟨(_, _), hadj⟩ rfl)) hf.symm
  obtain ⟨walk⟩ := hG.connected d.fst e.fst
  exact hspread walk (fun f hf => haround ⟨0, rfl⟩ hf.symm) e rfl

/-- A tree has two darts for every vertex but one. -/
theorem card_dart (hG : G.IsTree) : Nat.card G.Dart = 2 * (Nat.card V - 1) := by
  classical
  have := Fintype.ofFinite V
  rw [Nat.card_eq_fintype_card, G.dart_card_eq_twice_card_edges, Nat.card_eq_fintype_card,
    ← hG.card_edgeFinset, Nat.add_sub_cancel]

/-- A tour of a tree takes every dart, at the latest when it has taken all the others. -/
theorem exists_iterate_lt (hG : G.IsTree) (d e : G.Dart) :
    ∃ n < 2 * (Nat.card V - 1), r.next^[n] d = e := by
  have : Finite G.Dart := Finite.of_injective _ SimpleGraph.Dart.toProd_injective
  have := Fintype.ofFinite G.Dart
  obtain ⟨m, hm⟩ := r.exists_iterate hG d e
  have hpos := Function.minimalPeriod_pos_of_mem_periodicPts (r.injective_next.mem_periodicPts d)
  refine ⟨m % Function.minimalPeriod r.next d, ?_, ?_⟩
  · rw [← card_dart hG, Nat.card_eq_fintype_card]
    exact (Nat.mod_lt m hpos).trans_le Function.minimalPeriod_le_card
  · rw [Function.iterate_mod_minimalPeriod_eq, hm]

end Finite

end Rotation

end Labyrinth
