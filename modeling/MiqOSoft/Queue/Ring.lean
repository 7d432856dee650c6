import Mathlib.Tactic

/-!
A queue in a ring of `n` slots, one of which is kept free.

* `Ring α n`: the slots, the place the next element is stored at (`head`), and the place of the
  oldest element (`tail`).
* `count`, `slot`, `contents`: how many elements are queued, where they are, and what they are,
  oldest first.
* `contents_put`, `contents_advance`: storing an element appends it to the queue, as long as a slot
  is kept free; moving the tail drops the oldest.
* `put_slots_of_lt`: storing an element leaves the slots of the queued ones alone.
* `next_head_eq_tail_iff`: the ring is full when it holds `n - 1` elements.
-/

namespace Queue

/-- A ring of `n` slots with two places in it. -/
structure Ring (α : Type*) (n : ℕ) where
  slots : Fin n → α
  head : Fin n
  tail : Fin n

/-- The place after `i`, the first one following the last. -/
def next {n : ℕ} (i : Fin n) : Fin n := ⟨(i + 1) % n, Nat.mod_lt _ i.pos⟩

/-- Going around the ring at most once. -/
lemma mod_eq_ite {n x : ℕ} (hx : x < 2 * n) : x % n = if x < n then x else x - n := by
  split_ifs with h
  · exact Nat.mod_eq_of_lt h
  · rw [Nat.mod_eq_sub_mod (Nat.le_of_not_lt h), Nat.mod_eq_of_lt (by omega)]

namespace Ring

variable {α : Type*} {n : ℕ}

/-- The number of elements queued. -/
def count (r : Ring α n) : ℕ := (r.head + (n - r.tail)) % n

/-- The place of the element that is `k`-th in the queue. -/
def slot (r : Ring α n) (k : ℕ) : Fin n := ⟨(r.tail + k) % n, Nat.mod_lt _ r.tail.pos⟩

/-- The elements queued, oldest first. -/
def contents (r : Ring α n) : List α := (List.range r.count).map fun k => r.slots (r.slot k)

/-- An element is stored at the head, which moves on. -/
def put (c : α) (r : Ring α n) : Ring α n :=
  { r with slots := Function.update r.slots r.head c, head := next r.head }

/-- The tail moves on. -/
def advance (r : Ring α n) : Ring α n := { r with tail := next r.tail }

section Places

variable (r : Ring α n)

lemma count_lt : r.count < n := Nat.mod_lt _ r.tail.pos

@[simp] lemma length_contents : r.contents.length = r.count := by
  rw [contents, List.length_map, List.length_range]

lemma count_eq_ite :
    r.count = if r.tail ≤ r.head then (r.head : ℕ) - r.tail else r.head + n - r.tail := by
  have hhead := r.head.isLt
  have htail := r.tail.isLt
  rw [count, mod_eq_ite (by omega)]
  simp only [Fin.le_def]
  split_ifs <;> omega

/-- The next element goes behind those that are queued. -/
lemma slot_count : r.slot r.count = r.head := by
  have hhead := r.head.isLt
  have htail := r.tail.isLt
  refine Fin.ext ?_
  change ((r.tail : ℕ) + r.count) % n = r.head
  rw [mod_eq_ite (by have := r.count_lt; omega), r.count_eq_ite]
  simp only [Fin.le_def]
  split_ifs <;> omega

@[simp] lemma slot_zero : r.slot 0 = r.tail :=
  Fin.ext (Nat.mod_eq_of_lt r.tail.isLt)

/-- Different elements are in different slots. -/
lemma slot_ne {j k : ℕ} (hjk : j < k) (hk : k < n) : r.slot j ≠ r.slot k := by
  have htail := r.tail.isLt
  intro heq
  have hval : ((r.tail : ℕ) + j) % n = ((r.tail : ℕ) + k) % n := congrArg Fin.val heq
  rw [mod_eq_ite (by omega), mod_eq_ite (by omega)] at hval
  split_ifs at hval <;> omega

/-- The ring is empty when head and tail meet. -/
lemma count_eq_zero_iff : r.count = 0 ↔ r.head = r.tail := by
  rw [r.count_eq_ite, Fin.ext_iff]
  simp only [Fin.le_def]
  have hhead := r.head.isLt
  have htail := r.tail.isLt
  split_ifs <;> omega

lemma val_next (i : Fin n) : (next i : ℕ) = if (i : ℕ) + 1 < n then (i : ℕ) + 1 else 0 := by
  have hi := i.isLt
  change ((i : ℕ) + 1) % n = _
  rw [mod_eq_ite (by omega)]
  split_ifs <;> omega

/-- The ring is full when all slots but one are taken. -/
lemma next_head_eq_tail_iff : next r.head = r.tail ↔ r.count + 1 = n := by
  rw [Fin.ext_iff, val_next, r.count_eq_ite]
  simp only [Fin.le_def]
  have hhead := r.head.isLt
  have htail := r.tail.isLt
  split_ifs <;> omega

lemma slot_advance (k : ℕ) : r.advance.slot k = r.slot (k + 1) := by
  refine Fin.ext ?_
  change ((r.tail + 1) % n + k) % n = (r.tail + (k + 1)) % n
  rw [Nat.mod_add_mod]
  congr 1
  omega

end Places

section Operations

variable {r : Ring α n}

lemma count_put (c : α) (hroom : next r.head ≠ r.tail) : (r.put c).count = r.count + 1 := by
  have hcount : r.count + 1 ≠ n := mt r.next_head_eq_tail_iff.mpr hroom
  have hhead := r.head.isLt
  have htail := r.tail.isLt
  rw [count_eq_ite] at hcount
  rw [count_eq_ite, count_eq_ite]
  simp only [put, Fin.le_def, val_next] at hcount ⊢
  split_ifs at hcount ⊢ <;> omega

lemma count_advance (hne : r.head ≠ r.tail) : r.count = r.advance.count + 1 := by
  have hval : (r.head : ℕ) ≠ r.tail := mt Fin.ext hne
  have hhead := r.head.isLt
  have htail := r.tail.isLt
  rw [count_eq_ite, count_eq_ite]
  simp only [advance, Fin.le_def, val_next]
  split_ifs <;> omega

/-- **No queued element is overwritten.** -/
theorem put_slots_of_lt (c : α) {k : ℕ} (hk : k < r.count) :
    (r.put c).slots (r.slot k) = r.slots (r.slot k) := by
  have hne : r.slot k ≠ r.head := by
    rw [← r.slot_count]
    exact r.slot_ne hk r.count_lt
  exact Function.update_of_ne hne _ _

/-- **Storing an element** appends it to the queue. -/
theorem contents_put (c : α) (hroom : next r.head ≠ r.tail) :
    (r.put c).contents = r.contents ++ [c] := by
  rw [contents, count_put c hroom, List.range_succ, List.map_append, List.map_singleton]
  congr 1
  · refine List.map_congr_left ?_
    intro k hk
    exact put_slots_of_lt c (List.mem_range.mp hk)
  · have hslot : (r.put c).slot r.count = r.head := r.slot_count
    rw [hslot]
    exact congrArg (fun x => [x]) (Function.update_self _ _ _)

/-- **Moving the tail** drops the oldest element. -/
theorem contents_advance (hne : r.head ≠ r.tail) :
    r.contents = r.slots r.tail :: r.advance.contents := by
  rw [contents, count_advance hne, List.range_succ_eq_map, List.map_cons, slot_zero, List.map_map,
    contents]
  congr 1
  refine List.map_congr_left ?_
  intro k _
  exact congrArg r.slots (r.slot_advance k).symm

lemma contents_eq_nil_iff : r.contents = [] ↔ r.head = r.tail := by
  rw [← List.length_eq_zero_iff, length_contents, count_eq_zero_iff]

end Operations

end Ring

end Queue
