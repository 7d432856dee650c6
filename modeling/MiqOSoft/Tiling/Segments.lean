import Mathlib.Tactic
import Mathlib.Data.Set.Lattice
import Mathlib.Order.CompletePartialOrder

/-!
Lists of segments tiling an interval.

An interval is cut into segments, each a header of fixed length `h` followed by a payload;
the segment list records the payload lengths and which segments are free, and the addresses
follow from the order.

* `extent`, `placed`: the length of the tiled interval, and the segments with the addresses
  of their headers.  Placed segments lie in the interval (`bounds_of_mem_placed`), two of
  them never overlap (`disjoint_of_mem_placed`), and the address determines the segment
  (`eq_of_mem_placed`).
* `used`: the header addresses and payload lengths of the segments that are not free.
* `Coalesced`: no two neighbours are both free.  A coalesced tiling without used segments is
  a single free segment (`eq_singleton_of_coalesced`).
-/

namespace Tiling

/-- A segment: the length of its payload, and whether it is free. -/
structure Seg where
  len : ℕ
  free : Bool
deriving DecidableEq

/-! ### Extent and placement -/

/-- The length of the interval a segment list tiles, headers of length `h` included. -/
def extent (h : ℕ) : List Seg → ℕ
  | [] => 0
  | s :: l => h + s.len + extent h l

/-- The segments with the addresses of their headers, the first one at `a`. -/
def placed (h : ℕ) : ℕ → List Seg → List (ℕ × Seg)
  | _, [] => []
  | a, s :: l => (a, s) :: placed h (a + h + s.len) l

variable {h a : ℕ} {l : List Seg}

@[simp] lemma extent_nil : extent h [] = 0 := rfl

@[simp] lemma extent_cons (s : Seg) (l : List Seg) :
    extent h (s :: l) = h + s.len + extent h l := rfl

@[simp] lemma placed_nil : placed h a [] = [] := rfl

@[simp] lemma placed_cons (s : Seg) (l : List Seg) :
    placed h a (s :: l) = (a, s) :: placed h (a + h + s.len) l := rfl

lemma mem_placed_cons {s : Seg} {p : ℕ × Seg} :
    p ∈ placed h a (s :: l) ↔ p = (a, s) ∨ p ∈ placed h (a + h + s.len) l := by
  rw [placed_cons, List.mem_cons]

/-- The segments of a list are the placed ones. -/
lemma exists_placed_of_mem {s : Seg} (hs : s ∈ l) : ∃ x, (x, s) ∈ placed h a l := by
  induction l generalizing a with
  | nil => simp at hs
  | cons t l ih =>
      rcases List.mem_cons.mp hs with rfl | hs
      · exact ⟨a, mem_placed_cons.mpr (Or.inl rfl)⟩
      · obtain ⟨x, hx⟩ := ih (a := a + h + t.len) hs
        exact ⟨x, mem_placed_cons.mpr (Or.inr hx)⟩

lemma mem_of_mem_placed {x : ℕ} {s : Seg} (hx : (x, s) ∈ placed h a l) : s ∈ l := by
  induction l generalizing a with
  | nil => simp at hx
  | cons t l ih =>
      rcases mem_placed_cons.mp hx with hx | hx
      · obtain ⟨rfl, rfl⟩ := Prod.mk.injEq .. ▸ hx
        exact List.mem_cons_self
      · exact List.mem_cons_of_mem _ (ih hx)

/-- A placed segment lies in the tiled interval. -/
lemma bounds_of_mem_placed {x : ℕ} {s : Seg} (hx : (x, s) ∈ placed h a l) :
    a ≤ x ∧ x + h + s.len ≤ a + extent h l := by
  induction l generalizing a with
  | nil => simp at hx
  | cons t l ih =>
      rw [extent_cons]
      rcases mem_placed_cons.mp hx with hx | hx
      · obtain ⟨rfl, rfl⟩ := Prod.mk.injEq .. ▸ hx
        omega
      · have := ih hx
        omega

/-- Two placed segments are the same or do not overlap. -/
lemma disjoint_of_mem_placed {x y : ℕ} {s t : Seg} (hx : (x, s) ∈ placed h a l)
    (hy : (y, t) ∈ placed h a l) :
    (x, s) = (y, t) ∨ x + h + s.len ≤ y ∨ y + h + t.len ≤ x := by
  induction l generalizing a with
  | nil => simp at hx
  | cons u l ih =>
      rcases mem_placed_cons.mp hx with hx | hx <;> rcases mem_placed_cons.mp hy with hy | hy
      · exact Or.inl (hx.trans hy.symm)
      · have := bounds_of_mem_placed hy
        obtain ⟨rfl, rfl⟩ := Prod.mk.injEq .. ▸ hx
        exact Or.inr (Or.inl this.1)
      · have := bounds_of_mem_placed hx
        obtain ⟨rfl, rfl⟩ := Prod.mk.injEq .. ▸ hy
        exact Or.inr (Or.inr this.1)
      · exact ih hx hy

/-- With headers of positive length, the address of a placed segment determines it. -/
lemma eq_of_mem_placed (hh : 0 < h) {x : ℕ} {s t : Seg} (hs : (x, s) ∈ placed h a l)
    (ht : (x, t) ∈ placed h a l) : s = t := by
  rcases disjoint_of_mem_placed hs ht with heq | hlt | hlt
  · exact (Prod.mk.injEq .. ▸ heq).2
  · omega
  · omega

/-- Every segment takes at least its header. -/
lemma length_mul_le_extent : l.length * h ≤ extent h l := by
  induction l with
  | nil => simp
  | cons s l ih =>
      rw [List.length_cons, extent_cons, Nat.succ_mul]
      omega

/-! ### Used segments -/

/-- Header address and payload length of the segments that are not free. -/
def used (h a : ℕ) (l : List Seg) : Set (ℕ × ℕ) :=
  {p | (p.1, ⟨p.2, false⟩) ∈ placed h a l}

lemma mem_used {x n : ℕ} : (x, n) ∈ used h a l ↔ (x, (⟨n, false⟩ : Seg)) ∈ placed h a l :=
  Iff.rfl

@[simp] lemma used_nil : used h a [] = ∅ := by
  ext ⟨x, n⟩
  simp [mem_used]

lemma used_cons_free (n : ℕ) (l : List Seg) :
    used h a (⟨n, true⟩ :: l) = used h (a + h + n) l := by
  ext ⟨x, k⟩
  simp [mem_used]

lemma used_cons_used (n : ℕ) (l : List Seg) :
    used h a (⟨n, false⟩ :: l) = insert (a, n) (used h (a + h + n) l) := by
  ext ⟨x, k⟩
  simp [mem_used]

/-! ### Coalesced lists -/

/-- No two neighbours are both free. -/
def Coalesced (l : List Seg) : Prop :=
  l.IsChain fun s t => ¬(s.free = true ∧ t.free = true)

@[simp] lemma coalesced_singleton (s : Seg) : Coalesced [s] := by simp [Coalesced]

@[simp] lemma coalesced_cons_cons {s t : Seg} {l : List Seg} :
    Coalesced (s :: t :: l) ↔ ¬(s.free = true ∧ t.free = true) ∧ Coalesced (t :: l) :=
  List.isChain_cons_cons

lemma Coalesced.tail {s : Seg} {l : List Seg} (hl : Coalesced (s :: l)) : Coalesced l :=
  List.IsChain.tail hl

/-- Whether a list may follow a segment depends on the free flags only. -/
lemma Coalesced.congr_head {s s' : Seg} {l : List Seg} (hs : s.free = s'.free)
    (hl : Coalesced (s :: l)) : Coalesced (s' :: l) := by
  cases l with
  | nil => simp
  | cons t l =>
      rw [coalesced_cons_cons] at hl ⊢
      rwa [← hs]

/-- A used segment may precede any coalesced list. -/
lemma Coalesced.cons_used {s : Seg} {l : List Seg} (hs : s.free = false) (hl : Coalesced l) :
    Coalesced (s :: l) := by
  cases l with
  | nil => simp
  | cons t l => exact coalesced_cons_cons.mpr ⟨by simp [hs], hl⟩

/-- A nonempty coalesced tiling without used segments is a single free segment. -/
lemma eq_singleton_of_coalesced (hl : Coalesced l) (hne : l ≠ []) (hu : used h a l = ∅) :
    ∃ n, l = [⟨n, true⟩] := by
  match l, hne with
  | ⟨n, false⟩ :: l, _ =>
      rw [used_cons_used] at hu
      exact absurd hu (Set.insert_nonempty _ _).ne_empty
  | [⟨n, true⟩], _ => exact ⟨n, rfl⟩
  | ⟨n, true⟩ :: ⟨k, true⟩ :: l, _ => exact absurd ⟨rfl, rfl⟩ (coalesced_cons_cons.mp hl).1
  | ⟨n, true⟩ :: ⟨k, false⟩ :: l, _ =>
      rw [used_cons_free, used_cons_used] at hu
      exact absurd hu (Set.insert_nonempty _ _).ne_empty

end Tiling
