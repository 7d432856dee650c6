import Mathlib.Tactic

/-!
Chains of linked blocks.

* `follow next a n`: the block reached from `a` over `n` links, if the chain is that long.
* `cell next w a m`: cell `m` of a chain of blocks of `w` cells, as a block and a place in it.
* `advance next w`: the step of a cursor from cell to cell.
* `cell_succ`: the cells are those that the cursor goes through; the last one is the last of a
  block (`cell_last`).
* `HasLength.cell_eq_none_iff`: a chain of `L` blocks has `w * L` cells.
-/

namespace Linked

variable {α : Type*}

/-- The block reached over `n` links. -/
def follow (next : α → Option α) (a : α) : ℕ → Option α
  | 0 => some a
  | n + 1 => (follow next a n).bind next

/-- Cell `m` of a chain of blocks of `w` cells. -/
def cell (next : α → Option α) (w : ℕ) (a : α) (m : ℕ) : Option (α × ℕ) :=
  (follow next a (m / w)).map fun b => (b, m % w)

/-- The step of a cursor: on in the block, or to the front of the next one. -/
def advance (next : α → Option α) (w : ℕ) (p : α × ℕ) : Option (α × ℕ) :=
  if p.2 + 1 < w then some (p.1, p.2 + 1) else (next p.1).map fun b => (b, 0)

variable {next : α → Option α} {a b : α} {w : ℕ}

lemma follow_zero : follow next a 0 = some a := rfl

lemma follow_succ_of_some {n : ℕ} (h : follow next a n = some b) :
    follow next a (n + 1) = next b := by
  rw [follow, h, Option.bind_some]

/-- Behind the end of a chain there is nothing. -/
lemma follow_none_of_le {m n : ℕ} (h : follow next a m = none) (hmn : m ≤ n) :
    follow next a n = none := by
  induction n, hmn using Nat.le_induction with
  | base => exact h
  | succ n _ ih => rw [follow, ih, Option.bind_none]

lemma cell_of_some {m : ℕ} (h : follow next a (m / w) = some b) :
    cell next w a m = some (b, m % w) := by
  rw [cell, h, Option.map_some]

lemma cell_eq_none_iff_follow {m : ℕ} : cell next w a m = none ↔ follow next a (m / w) = none := by
  rw [cell, Option.map_eq_none_iff]

lemma cell_zero : cell next w a 0 = some (a, 0) := by
  rw [cell_of_some (by rw [Nat.zero_div]; exact follow_zero), Nat.zero_mod]

lemma cell_none_of_le {m n : ℕ} (h : cell next w a m = none) (hmn : m ≤ n) :
    cell next w a n = none := by
  rw [cell_eq_none_iff_follow] at h ⊢
  exact follow_none_of_le h (Nat.div_le_div_right hmn)

/-- Inside a block. -/
lemma div_succ_of_lt {m : ℕ} (h : m % w + 1 < w) :
    (m + 1) / w = m / w ∧ (m + 1) % w = m % w + 1 := by
  have hsplit : m + 1 = w * (m / w) + (m % w + 1) := by
    have := Nat.div_add_mod m w
    omega
  rw [hsplit, Nat.mul_add_div (by omega), Nat.mul_add_mod, Nat.div_eq_of_lt h, Nat.mod_eq_of_lt h]
  exact ⟨Nat.add_zero _, rfl⟩

/-- At the end of a block. -/
lemma succ_div_mul_of_le {m : ℕ} (hw : 0 < w) (h : w ≤ m % w + 1) : (m / w + 1) * w = m + 1 := by
  have hlt := Nat.mod_lt m hw
  have hsplit := Nat.div_add_mod' m w
  rw [Nat.add_mul, Nat.one_mul]
  omega

lemma div_succ_of_le {m : ℕ} (hw : 0 < w) (h : w ≤ m % w + 1) :
    (m + 1) / w = m / w + 1 ∧ (m + 1) % w = 0 := by
  rw [← succ_div_mul_of_le hw h, Nat.mul_div_cancel _ hw, Nat.mul_mod_left]
  exact ⟨rfl, rfl⟩

/-- **The cells of a chain** are those that the cursor goes through. -/
theorem cell_succ (hw : 0 < w) (m : ℕ) :
    cell next w a (m + 1) = (cell next w a m).bind (advance next w) := by
  by_cases h : m % w + 1 < w
  · obtain ⟨hdiv, hmod⟩ := div_succ_of_lt h
    rw [cell, cell, hdiv, hmod]
    cases follow next a (m / w) with
    | none => rfl
    | some b => exact (if_pos h).symm
  · obtain ⟨hdiv, hmod⟩ := div_succ_of_le hw (not_lt.mp h)
    rw [cell, cell, hdiv, hmod, follow]
    cases follow next a (m / w) with
    | none => rfl
    | some b => exact (if_neg h).symm

/-- A chain that ends behind a cell ends behind the last cell of a block. -/
lemma cell_last (hw : 0 < w) {m k : ℕ} (h : cell next w a m = some (b, k))
    (hnone : cell next w a (m + 1) = none) : w ≤ k + 1 ∧ next b = none := by
  rw [cell_succ hw, h, Option.bind_some, advance] at hnone
  split_ifs at hnone with hlt
  exact ⟨not_lt.mp hlt, Option.map_eq_none_iff.mp hnone⟩

/-- The chain from `a` has `L` blocks. -/
structure HasLength (next : α → Option α) (a : α) (L : ℕ) : Prop where
  some_of_lt : ∀ j < L, follow next a j ≠ none
  none_at : follow next a L = none

/-- **A chain of `L` blocks** has `w * L` cells. -/
theorem HasLength.cell_eq_none_iff {L : ℕ} (h : HasLength next a L) (hw : 0 < w) {m : ℕ} :
    cell next w a m = none ↔ w * L ≤ m := by
  rw [cell_eq_none_iff_follow, Nat.mul_comm, ← Nat.le_div_iff_mul_le hw]
  constructor
  · intro hnone
    by_contra hlt
    exact h.some_of_lt _ (not_le.mp hlt) hnone
  · exact follow_none_of_le h.none_at

end Linked
