import Mathlib.Data.Set.Insert
import Mathlib.Logic.Function.Iterate
import Mathlib.Tactic

/-!
Rooted trees given by a parent function.

* `Rooted root parent nodes`: the nodes, a set closed under `parent`, all lead up to `root`,
  which is its own parent.
* `Rooted.insert`, `Rooted.erase`: a new leaf under a node, and the removal of a leaf.
* `Rooted.eq_root_of_cycle`: a node that is an ancestor of itself is the root.
-/

namespace Forest

variable {α : Type*} {root : α} {parent parent' : α → α} {nodes : Set α}

/-- From every node the parents lead, inside the nodes, up to the root. -/
structure Rooted (root : α) (parent : α → α) (nodes : Set α) : Prop where
  root_mem : root ∈ nodes
  parent_root : parent root = root
  parent_mem : ∀ x ∈ nodes, parent x ∈ nodes
  reaches : ∀ x ∈ nodes, ∃ k, parent^[k] x = root

namespace Rooted

lemma iterate_mem (h : Rooted root parent nodes) {x : α} (hx : x ∈ nodes) (k : ℕ) :
    parent^[k] x ∈ nodes := by
  induction k with
  | zero => exact hx
  | succ k ih =>
      rw [Function.iterate_succ_apply']
      exact h.parent_mem _ ih

/-- The ancestors of a node depend on the parents of the nodes only. -/
lemma iterate_congr (h : Rooted root parent nodes) (heq : ∀ x ∈ nodes, parent' x = parent x)
    {x : α} (hx : x ∈ nodes) (k : ℕ) : parent'^[k] x = parent^[k] x := by
  induction k with
  | zero => rfl
  | succ k ih =>
      rw [Function.iterate_succ_apply', Function.iterate_succ_apply', ih]
      exact heq _ (h.iterate_mem hx k)

/-- The tree depends on the parents of the nodes only. -/
lemma congr (h : Rooted root parent nodes) (heq : ∀ x ∈ nodes, parent' x = parent x) :
    Rooted root parent' nodes where
  root_mem := h.root_mem
  parent_root := (heq root h.root_mem).trans h.parent_root
  parent_mem x hx := by
    rw [heq x hx]
    exact h.parent_mem x hx
  reaches x hx := by
    obtain ⟨k, hk⟩ := h.reaches x hx
    exact ⟨k, (h.iterate_congr heq hx k).trans hk⟩

/-- **A new leaf**: a value that is not a node becomes one under a node. -/
theorem insert (h : Rooted root parent nodes) {x : α} (hx : x ∉ nodes)
    (hpar : parent' x ∈ nodes) (heq : ∀ y ∈ nodes, parent' y = parent y) :
    Rooted root parent' (insert x nodes) := by
  have h' : Rooted root parent' nodes := h.congr heq
  refine ⟨Or.inr h.root_mem, h'.parent_root, ?_, ?_⟩
  · rintro y (rfl | hy)
    · exact Or.inr hpar
    · exact Or.inr (h'.parent_mem y hy)
  · rintro y (rfl | hy)
    · obtain ⟨k, hk⟩ := h'.reaches _ hpar
      exact ⟨k + 1, hk⟩
    · exact h'.reaches y hy

/-- **The removal of a leaf**: a node that is no node's parent. -/
theorem erase (h : Rooted root parent nodes) {x : α} (hleaf : ∀ y ∈ nodes, parent y ≠ x)
    (heq : ∀ y ∈ nodes, y ≠ x → parent' y = parent y) :
    Rooted root parent' (nodes \ {x}) := by
  have hroot : root ≠ x := h.parent_root ▸ hleaf root h.root_mem
  have hkeep : Rooted root parent (nodes \ {x}) :=
    { root_mem := ⟨h.root_mem, hroot⟩
      parent_root := h.parent_root
      parent_mem := fun y hy => ⟨h.parent_mem y hy.1, hleaf y hy.1⟩
      reaches := fun y hy => h.reaches y hy.1 }
  exact hkeep.congr fun y hy => heq y hy.1 hy.2

/-- A node that is its own ancestor is the root. -/
theorem eq_root_of_cycle (h : Rooted root parent nodes) {x : α} (hx : x ∈ nodes) {k : ℕ}
    (hk : 0 < k) (hcycle : parent^[k] x = x) : x = root := by
  obtain ⟨n, hn⟩ := h.reaches x hx
  -- going round the cycle `n` times leads past the root
  have hround : parent^[k * n] x = x := by
    rw [Function.iterate_mul]
    exact Function.iterate_fixed hcycle n
  have hsplit : k * n = (k * n - n) + n := by
    have : n ≤ k * n := Nat.le_mul_of_pos_left n hk
    omega
  rw [hsplit, Function.iterate_add_apply, hn, Function.iterate_fixed h.parent_root] at hround
  exact hround.symm

end Rooted

end Forest
