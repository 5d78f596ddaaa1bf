import Mathlib.Data.List.Nodup
import Mathlib.Logic.Relation

/-!
# Forests that grow by leaves

A list of edges, each with a parent, a child and a depth. Where no two edges have the same child and
every edge is one deeper than the edge above it, the depth of a node grows along every path, so no
path returns to where it started. A new edge to a node that no edge has yet keeps this.

## Main definitions

* `Forest.depthOf`: the depth of a node, 0 for a root
* `Forest.Graded`: one edge per child, each one deeper than the one above it
* `Forest.ParentOf`: the relation on nodes

## Main results

* `Forest.Graded.acyclic`: no node is its own ancestor
* `Forest.Graded.add_leaf`: an edge to a fresh node keeps the forest
-/

namespace Forest

variable {α ι : Type} [DecidableEq α] (parent child : ι → α) (depth : ι → Nat)

/-- The depth of a node: that of the edge to it, 0 where there is none. -/
def depthOf (edges : List ι) (a : α) : Nat := ((edges.find? (child · = a)).map depth).getD 0

/-- No two edges have the same child, and every edge is one deeper than the edge above it. -/
structure Graded (edges : List ι) : Prop where
  unique : (edges.map child).Nodup
  graded : ∀ e ∈ edges, depth e = 1 + depthOf child depth edges (parent e)

/-- There is an edge from one node to the other. -/
def ParentOf (edges : List ι) (a b : α) : Prop := ∃ e ∈ edges, parent e = a ∧ child e = b

variable {parent child depth} {edges : List ι} {e : ι} {a b : α}

theorem find?_child (h : (edges.map child).Nodup) (he : e ∈ edges) :
    edges.find? (child · = child e) = some e := by
  cases hfound : edges.find? (child · = child e) with
  | none =>
    have hnone := List.find?_eq_none.mp hfound e he
    simp at hnone
  | some other =>
    have hchild : child other = child e := by simpa using List.find?_some hfound
    rw [List.inj_on_of_nodup_map h (List.mem_of_find?_eq_some hfound) he hchild]

theorem depthOf_child (h : (edges.map child).Nodup) (he : e ∈ edges) :
    depthOf child depth edges (child e) = depth e := by
  rw [depthOf, find?_child h he]
  rfl

theorem depthOf_root (h : ∀ e ∈ edges, child e ≠ a) : depthOf child depth edges a = 0 := by
  rw [depthOf, List.find?_eq_none.mpr fun e he => by simpa using h e he]
  rfl

theorem Graded.nil : Graded parent child depth [] where
  unique := List.nodup_nil
  graded := by simp

/-- The depth of an edge, by whether there is one above it. -/
theorem Graded.depth_eq (h : Graded parent child depth edges) (he : e ∈ edges) :
    (∃ up ∈ edges, child up = parent e ∧ depth e = 1 + depth up) ∨
      (∀ up ∈ edges, child up ≠ parent e) ∧ depth e = 1 := by
  have hdepth := h.graded e he
  by_cases hup : ∃ up ∈ edges, child up = parent e
  · obtain ⟨up, hmem, hchild⟩ := hup
    rw [← hchild, depthOf_child h.unique hmem] at hdepth
    exact .inl ⟨up, hmem, hchild, hdepth⟩
  · have hroot : ∀ up ∈ edges, child up ≠ parent e := fun up hmem heq => hup ⟨up, hmem, heq⟩
    rw [depthOf_root hroot] at hdepth
    exact .inr ⟨hroot, hdepth⟩

theorem Graded.depthOf_lt (h : Graded parent child depth edges)
    (hab : ParentOf parent child edges a b) :
    depthOf child depth edges a < depthOf child depth edges b := by
  obtain ⟨e, he, rfl, rfl⟩ := hab
  rw [depthOf_child h.unique he, h.graded e he]
  omega

/-- **No node is its own ancestor.** -/
theorem Graded.acyclic (h : Graded parent child depth edges) (a : α) :
    ¬ Relation.TransGen (ParentOf parent child edges) a a := by
  -- the depth grows along every path
  have hlt : ∀ {a b}, Relation.TransGen (ParentOf parent child edges) a b →
      depthOf child depth edges a < depthOf child depth edges b := by
    intro a b hab
    induction hab with
    | single hab => exact h.depthOf_lt hab
    | tail _ hbc ih => exact Nat.lt_trans ih (h.depthOf_lt hbc)
  intro ha
  exact Nat.lt_irrefl _ (hlt ha)

/-- A node that no edge has keeps its depth out of everything else. -/
theorem depthOf_append_of_ne (hne : child e ≠ a) :
    depthOf child depth (edges ++ [e]) a = depthOf child depth edges a := by
  rw [depthOf, List.find?_append]
  simp [hne, depthOf]

/-- **An edge to a fresh node keeps the forest.** -/
theorem Graded.add_leaf (h : Graded parent child depth edges)
    (hfresh : ∀ other ∈ edges, child other ≠ child e ∧ parent other ≠ child e)
    (hself : parent e ≠ child e) (hdepth : depth e = 1 + depthOf child depth edges (parent e)) :
    Graded parent child depth (edges ++ [e]) where
  unique := by
    rw [List.map_append, List.nodup_append]
    refine ⟨h.unique, by simp, ?_⟩
    intro b hb b' hb'
    obtain ⟨other, hother, rfl⟩ := List.mem_map.mp hb
    rw [List.map_singleton, List.mem_singleton] at hb'
    rw [hb']
    exact (hfresh other hother).1
  graded := by
    intro other hother
    rw [List.mem_append, List.mem_singleton] at hother
    rcases hother with hother | rfl
    · rw [depthOf_append_of_ne (hfresh other hother).2.symm]
      exact h.graded other hother
    · rw [depthOf_append_of_ne hself.symm]
      exact hdepth

end Forest
