import Mathlib.Combinatorics.SimpleGraph.Metric
import Mathlib.Data.Set.Card

/-!
# Breadth-first search

A search of a graph that goes on from all nodes at one distance before it goes on from those at
the next. What it has found is a list of nodes with their distances: `Explored` is what is known
of it between two rounds, `Exploring` within a round, while the nodes of `done` have been gone on
from.
-/

namespace AimeeMemory.Lib

variable {V : Type*} {G : SimpleGraph V} {s x y : V} {n : ℕ} {done : List V} {found : List (V × ℕ)}

/-! ## Distances -/

/-- A step goes at most one further. -/
theorem edist_le_of_adj (hx : G.edist s x = n) (h : G.Adj x y) : G.edist s y ≤ (n + 1 : ℕ) :=
  calc G.edist s y ≤ G.edist s x + G.edist x y := G.edist_triangle
    _ = (n + 1 : ℕ) := by rw [hx, SimpleGraph.edist_eq_one_iff_adj.2 h, Nat.cast_add, Nat.cast_one]

/-- A node within a distance has one. -/
theorem exists_edist_eq (h : G.edist s x ≤ n) : ∃ m ≤ n, G.edist s x = m := by
  obtain ⟨m, hm⟩ := ENat.ne_top_iff_exists.1 (ne_top_of_le_ne_top (ENat.natCast_ne_top n) h)
  rw [← hm, Nat.cast_le] at h
  exact ⟨m, h, hm.symm⟩

/-- A node at a distance is one step from a node that is one nearer. -/
theorem exists_adj_of_edist (h : G.edist s y = (n + 1 : ℕ)) : ∃ x, G.edist s x = n ∧ G.Adj x y := by
  obtain ⟨p, hp⟩ := SimpleGraph.exists_walk_of_edist_eq_coe (SimpleGraph.edist_comm.trans h)
  cases p with
  | nil => cases hp
  | @cons _ x _ hadj p =>
    rw [SimpleGraph.Walk.length_cons, Nat.add_right_cancel_iff] at hp
    have hnear : G.edist s x ≤ n := by
      rw [SimpleGraph.edist_comm, ← hp]
      exact SimpleGraph.edist_le p
    obtain ⟨m, hmn, hm⟩ := exists_edist_eq hnear
    have hfar : (n + 1 : ℕ) ≤ ((m + 1 : ℕ) : ℕ∞) := h ▸ edist_le_of_adj hm hadj.symm
    rw [Nat.cast_le] at hfar
    exact ⟨x, by rw [hm, show m = n by omega], hadj.symm⟩

/-- Where no node is at a distance, none is further. -/
theorem edist_ne_of_forall_ne (h : ∀ x, G.edist s x ≠ n) {m : ℕ} : n ≤ m → ∀ x, G.edist s x ≠ m := by
  intro hm
  induction m, hm using Nat.le_induction with
  | base => exact h
  | succ m _ ih =>
    intro y hy
    obtain ⟨x, hx, -⟩ := exists_adj_of_edist hy
    exact ih x hx

/-! ## What is found -/

/-- Nodes are found each once and with its distance, and all of them up to a distance. -/
structure Finds (G : SimpleGraph V) (s : V) (n : ℕ) (found : List (V × ℕ)) : Prop where
  nodup : (found.map Prod.fst).Nodup
  edist_eq : ∀ p ∈ found, G.edist s p.1 = p.2
  complete : ∀ x, G.edist s x ≤ n → x ∈ found.map Prod.fst

/-- Just the nodes up to a distance are found. -/
structure Explored (G : SimpleGraph V) (s : V) (n : ℕ) (found : List (V × ℕ)) : Prop extends Finds G s n found where
  le : ∀ p ∈ found, p.2 ≤ n

/-- Of the nodes one further, all are found that the nodes of `done` lead to. -/
structure Exploring (G : SimpleGraph V) (s : V) (n : ℕ) (done : List V) (found : List (V × ℕ)) : Prop
    extends Finds G s n found where
  le : ∀ p ∈ found, p.2 ≤ n + 1
  expanded : ∀ x ∈ done, ∀ y, G.Adj x y → y ∈ found.map Prod.fst

/-- At first the start is found. -/
theorem Explored.start : Explored G s 0 [(s, 0)] where
  nodup := List.nodup_singleton s
  edist_eq := by
    intro p hp
    rw [List.mem_singleton.1 hp]
    exact SimpleGraph.edist_self
  le := by
    intro p hp
    rw [List.mem_singleton.1 hp]
  complete := by
    intro x hx
    rw [Nat.cast_zero, nonpos_iff_eq_zero, SimpleGraph.edist_eq_zero_iff] at hx
    rw [← hx]
    exact List.mem_singleton.2 rfl

/-- A round begins. -/
theorem Explored.exploring (h : Explored G s n found) : Exploring G s n [] found where
  toFinds := h.toFinds
  le := fun p hp => (h.le p hp).trans (Nat.le_succ n)
  expanded := fun _ hx => absurd hx List.not_mem_nil

theorem Explored.mem_iff (h : Explored G s n found) : x ∈ found.map Prod.fst ↔ G.edist s x ≤ n := by
  refine ⟨fun hx => ?_, h.complete x⟩
  obtain ⟨p, hp, rfl⟩ := List.mem_map.1 hx
  rw [h.edist_eq p hp, Nat.cast_le]
  exact h.le p hp

/-- Where a distance has no node, the search is at its end. -/
theorem Explored.mono (h : Explored G s n found) (hnone : ∀ x, G.edist s x ≠ n) {m : ℕ} (hm : n ≤ m) :
    Explored G s m found where
  nodup := h.nodup
  edist_eq := h.edist_eq
  le := fun p hp => (h.le p hp).trans hm
  complete := by
    intro x hx
    obtain ⟨k, -, hk⟩ := exists_edist_eq hx
    refine h.complete x ?_
    by_contra hfar
    rw [hk, Nat.cast_le] at hfar
    exact edist_ne_of_forall_ne hnone (Nat.le_of_not_le hfar) x hk

/-- A node that is not found yet is found, from one at the distance of the round. -/
theorem Exploring.find (h : Exploring G s n done found) (hx : G.edist s x = n) (hadj : G.Adj x y)
    (hnew : y ∉ found.map Prod.fst) : Exploring G s n done (found ++ [(y, n + 1)]) where
  nodup := by
    rw [List.map_append, List.map_singleton, List.nodup_append_comm]
    exact List.nodup_cons.2 ⟨hnew, h.nodup⟩
  edist_eq := by
    intro p hp
    rcases List.mem_append.1 hp with hp | hp
    · exact h.edist_eq p hp
    · rw [List.mem_singleton.1 hp]
      refine le_antisymm (edist_le_of_adj hx hadj) ?_
      by_contra hnear
      refine hnew (h.complete y (ENat.lt_natCast_add_one_iff.1 ?_))
      rwa [not_le, Nat.cast_add, Nat.cast_one] at hnear
  le := by
    intro p hp
    rcases List.mem_append.1 hp with hp | hp
    · exact h.le p hp
    · rw [List.mem_singleton.1 hp]
  complete := by
    intro x hx
    rw [List.map_append]
    exact List.mem_append_left _ (h.complete x hx)
  expanded := by
    intro x hx y hadj
    rw [List.map_append]
    exact List.mem_append_left _ (h.expanded x hx y hadj)

/-- A node has been gone on from. -/
theorem Exploring.expand (h : Exploring G s n done found) (hx : ∀ y, G.Adj x y → y ∈ found.map Prod.fst) :
    Exploring G s n (x :: done) found where
  toFinds := h.toFinds
  le := h.le
  expanded := by
    intro z hz
    rcases List.mem_cons.1 hz with rfl | hz
    · exact hx
    · exact h.expanded z hz

/-- A round ends when all nodes at its distance have been gone on from. -/
theorem Exploring.finish (h : Exploring G s n done found) (hdone : ∀ x, G.edist s x = n → x ∈ done) :
    Explored G s (n + 1) found where
  nodup := h.nodup
  edist_eq := h.edist_eq
  le := h.le
  complete := by
    intro y hy
    rcases hy.lt_or_eq with hlt | heq
    · exact h.complete y (ENat.lt_natCast_add_one_iff.1 (by rwa [Nat.cast_add, Nat.cast_one] at hlt))
    · obtain ⟨x, hx, hadj⟩ := exists_adj_of_edist heq
      exact h.expanded x (hdone x hx) y hadj

/-- No more nodes are found than there are up to the distance that the round goes to. -/
theorem Exploring.length_le (h : Exploring G s n done found) {m k : ℕ} (hm : n < m)
    (hk : {x | G.edist s x ≤ m}.encard ≤ k) : found.length ≤ k := by
  classical
  have hsub : ((found.map Prod.fst).toFinset : Set V) ⊆ {x | G.edist s x ≤ m} := by
    intro x hx
    obtain ⟨p, hp, rfl⟩ := List.mem_map.1 (List.mem_toFinset.1 hx)
    change G.edist s p.1 ≤ m
    rw [h.edist_eq p hp, Nat.cast_le]
    exact (h.le p hp).trans hm
  have hcard := (Set.encard_le_encard hsub).trans hk
  rw [Set.encard_coe_eq_coe_finsetCard, Nat.cast_le, List.toFinset_card_of_nodup h.nodup, List.length_map] at hcard
  exact hcard

end AimeeMemory.Lib
