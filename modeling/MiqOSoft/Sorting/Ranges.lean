import Mathlib.Tactic
import Mathlib.Data.List.FinRange

/-!
Sorting ranges of an array in place, with a comparison function.

* `TotalPreorder c`: the signs of `c x y` order the elements, all of which are comparable.
* `PermOn l r e e'`: the elements from place `l` up to place `r` are permuted, and the others stay.
* `SortedOn c l r e`: the elements from place `l` up to place `r` do not decrease.
* `Split c p l r i j e`: the state of a partition with two pointers.  What is below `i` is at most
  `p`, and what is above `j` at least `p`; `Split.swap` exchanges a pair that is out of order.
* `SortedOn.join`: two sorted ranges, the lower one at most `p` and the upper one at least `p`.
-/

namespace Sorting

variable {α : Type*}

/-! ### Comparison functions -/

/-- The signs of a comparison function are those of a total preorder. -/
structure TotalPreorder (c : α → α → ℤ) : Prop where
  neg_iff : ∀ x y, c x y < 0 ↔ 0 < c y x
  trans : ∀ x y z, c x y ≤ 0 → c y z ≤ 0 → c x z ≤ 0

namespace TotalPreorder

variable {c : α → α → ℤ} {x y z : α}

lemma not_neg_iff (h : TotalPreorder c) : ¬c x y < 0 ↔ c y x ≤ 0 := by
  rw [h.neg_iff, not_lt]

lemma self_eq_zero (h : TotalPreorder c) (x : α) : c x x = 0 := by
  have hsigns := h.neg_iff x x
  omega

/-- Differences of integer keys. -/
lemma sub (f : α → ℤ) : TotalPreorder fun x y => f x - f y where
  neg_iff x y := by rw [sub_neg, sub_pos]
  trans x y z hxy hyz := by
    rw [sub_nonpos] at hxy hyz ⊢
    exact hxy.trans hyz

end TotalPreorder

/-! ### Permuted ranges -/

/-- The elements from place `l` up to place `r` are permuted. -/
def PermOn (l r : ℕ) (e e' : ℕ → α) : Prop :=
  ∃ σ : Equiv.Perm ℕ, (∀ k, k < l ∨ r ≤ k → σ k = k) ∧ ∀ k, e' k = e (σ k)

namespace PermOn

variable {l r : ℕ} {e e' e'' : ℕ → α}

lemma refl (l r : ℕ) (e : ℕ → α) : PermOn l r e e :=
  ⟨1, fun _ _ => rfl, fun _ => rfl⟩

lemma trans (h : PermOn l r e e') (h' : PermOn l r e' e'') : PermOn l r e e'' := by
  obtain ⟨σ, hσ, he⟩ := h
  obtain ⟨τ, hτ, he'⟩ := h'
  refine ⟨σ * τ, fun k hk => ?_, fun k => ?_⟩
  · rw [Equiv.Perm.mul_apply, hτ k hk, hσ k hk]
  · rw [he', he, Equiv.Perm.mul_apply]

/-- A wider range. -/
lemma mono {l' r' : ℕ} (h : PermOn l r e e') (hl : l' ≤ l) (hr : r ≤ r') : PermOn l' r' e e' := by
  obtain ⟨σ, hσ, he⟩ := h
  exact ⟨σ, fun k hk => hσ k (by omega), he⟩

/-- The others stay. -/
lemma eq_of_notMem (h : PermOn l r e e') {k : ℕ} (hk : k < l ∨ r ≤ k) : e' k = e k := by
  obtain ⟨σ, hσ, he⟩ := h
  rw [he, hσ k hk]

/-- What holds of all elements of the range still does. -/
lemma forall_of_forall (h : PermOn l r e e') {P : α → Prop} (hP : ∀ k, l ≤ k → k < r → P (e k)) :
    ∀ k, l ≤ k → k < r → P (e' k) := by
  obtain ⟨σ, hσ, he⟩ := h
  intro k hlk hkr
  rw [he]
  by_contra hnot
  have hout : σ k < l ∨ r ≤ σ k := by
    by_contra hin
    exact hnot (hP (σ k) (by omega) (by omega))
  -- a place that is fixed is not the image of another one
  have hfix : σ (σ k) = σ k := hσ _ hout
  have hk : σ k = k := σ.injective hfix
  omega

/-- Two elements are exchanged. -/
lemma swap {i j : ℕ} (e : ℕ → α) (hi : l ≤ i ∧ i < r) (hj : l ≤ j ∧ j < r) :
    PermOn l r e fun k => e (Equiv.swap i j k) :=
  ⟨Equiv.swap i j, fun k hk => Equiv.swap_apply_of_ne_of_ne (by omega) (by omega), fun _ => rfl⟩

/-- The first elements as a list. -/
lemma map_range_perm {n : ℕ} (h : PermOn 0 n e e') :
    ((List.range n).map e').Perm ((List.range n).map e) := by
  obtain ⟨σ, hσ, he⟩ := h
  have hmem : ∀ k, k ∈ (List.range n).map σ ↔ k ∈ List.range n := by
    intro k
    rw [List.mem_map]
    constructor
    · rintro ⟨i, hi, rfl⟩
      rw [List.mem_range] at hi ⊢
      by_contra hout
      have hfix : σ (σ i) = σ i := hσ _ (by omega)
      have hi' : σ i = i := σ.injective hfix
      omega
    · intro hk
      refine ⟨σ.symm k, ?_, σ.apply_symm_apply k⟩
      rw [List.mem_range] at hk ⊢
      by_contra hout
      have hfix : σ (σ.symm k) = σ.symm k := hσ _ (by omega)
      rw [σ.apply_symm_apply] at hfix
      omega
  have hperm : ((List.range n).map σ).Perm (List.range n) :=
    (List.perm_ext_iff_of_nodup (List.nodup_range.map σ.injective) List.nodup_range).mpr hmem
  have hcomp : (List.range n).map e' = ((List.range n).map σ).map e := by
    rw [List.map_map]
    exact List.map_congr_left fun k _ => he k
  rw [hcomp]
  exact hperm.map e

end PermOn

/-! ### Sorted ranges -/

/-- The elements from place `l` up to place `r` do not decrease. -/
def SortedOn (c : α → α → ℤ) (l r : ℕ) (e : ℕ → α) : Prop :=
  ∀ x y, l ≤ x → x ≤ y → y < r → c (e x) (e y) ≤ 0

namespace SortedOn

variable {c : α → α → ℤ} {l r : ℕ} {e e' : ℕ → α}

/-- A range of one element at most. -/
lemma of_le (h : TotalPreorder c) (hr : r ≤ l + 1) (e : ℕ → α) : SortedOn c l r e := by
  intro x y hx hxy hy
  obtain rfl : x = y := by omega
  exact (h.self_eq_zero _).le

lemma congr (h : SortedOn c l r e) (heq : ∀ k, l ≤ k → k < r → e' k = e k) :
    SortedOn c l r e' := by
  intro x y hx hxy hy
  rw [heq x hx (by omega), heq y (by omega) hy]
  exact h x y hx hxy hy

/-- **Two sorted ranges**, around elements that are neither less nor greater than `p`. -/
theorem join {i j : ℕ} {p : α} (h : TotalPreorder c) (hlow : SortedOn c l i e)
    (hhigh : SortedOn c j r e) (hle : ∀ k, l ≤ k → k < j → c (e k) p ≤ 0)
    (hge : ∀ k, i ≤ k → k < r → c p (e k) ≤ 0) : SortedOn c l r e := by
  intro x y hx hxy hy
  rcases Nat.lt_or_ge y i with hyi | hyi
  · exact hlow x y hx hxy hyi
  · rcases Nat.lt_or_ge x j with hxj | hxj
    · exact h.trans _ _ _ (hle x hx hxj) (hge y hyi hy)
    · exact hhigh x y hxj hxy hy

/-- The first elements as a list. -/
lemma map_range_pairwise {n : ℕ} (h : SortedOn c 0 n e) :
    ((List.range n).map e).Pairwise fun x y => c x y ≤ 0 := by
  rw [List.pairwise_map]
  refine List.pairwise_lt_range.imp_of_mem fun {x y} _ hy hxy => ?_
  exact h x y (Nat.zero_le x) hxy.le (List.mem_range.mp hy)

end SortedOn

/-! ### Partitions -/

/-- What is below `i` is at most `p`, and what is above `j` at least `p`. -/
structure Split (c : α → α → ℤ) (p : α) (l r i j : ℕ) (e : ℕ → α) : Prop where
  low : ∀ k, l ≤ k → k < i → c (e k) p ≤ 0
  high : ∀ k, j < k → k < r → c p (e k) ≤ 0

namespace Split

variable {c : α → α → ℤ} {p : α} {l r i j : ℕ} {e : ℕ → α}

/-- The pointers move over elements that are where they belong. -/
lemma scan {i' j' : ℕ} (h : Split c p l r i j e) (hlow : ∀ k, i ≤ k → k < i' → c (e k) p ≤ 0)
    (hhigh : ∀ k, j' < k → k ≤ j → c p (e k) ≤ 0) : Split c p l r i' j' e where
  low k hl hk := by
    rcases Nat.lt_or_ge k i with hki | hki
    · exact h.low k hl hki
    · exact hlow k hki hk
  high k hk hr := by
    rcases Nat.lt_or_ge j k with hjk | hjk
    · exact h.high k hjk hr
    · exact hhigh k hk hjk

/-- A pair that is out of order is exchanged. -/
lemma swap (h : Split c p l r i j e) (hij : i < j) (hi : c p (e i) ≤ 0) (hj : c (e j) p ≤ 0) :
    Split c p l r (i + 1) (j - 1) fun k => e (Equiv.swap i j k) where
  low k hl hk := by
    rcases Nat.lt_succ_iff_lt_or_eq.mp hk with hlt | rfl
    · rw [Equiv.swap_apply_of_ne_of_ne (by omega) (by omega)]
      exact h.low k hl hlt
    · rwa [Equiv.swap_apply_left]
  high k hk hr := by
    rcases Nat.lt_or_ge j k with hlt | hge
    · rw [Equiv.swap_apply_of_ne_of_ne (by omega) (by omega)]
      exact h.high k hlt hr
    · obtain rfl : k = j := by omega
      rwa [Equiv.swap_apply_right]

end Split

end Sorting
