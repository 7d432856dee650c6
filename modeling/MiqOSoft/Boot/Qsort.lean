import MiqOSoft.Machine.Memory
import MiqOSoft.Editing.Line
import MiqOSoft.Sorting.Ranges

/-!
`qsort` of `stdlib.c`, on the bytes of the array.

* `qsortInternal`, `qsort`: the functions with all their accesses.  They are undefined where they
  leave the array, where an `int` overflows, and where a loop or the recursion needs more turns
  than there are.
* `elem`: the elements of the array.
* `qsortInternal_spec`: a range is sorted, unless it starts at the first element and this element is
  less than all others of the range.
* `Sorts`, `sorts_iff`: the call sorts the array exactly if there is one element, or one behind the
  first that is not greater, and the indices fit into an `int`.
-/

namespace MiqOSoft

open Machine Editing Sorting

/-- An element of so many bytes. -/
abbrev Element (size : Word) := Vector Byte size.toNat

/-! ### The functions -/

/-- `i++` on an `int`. -/
def intSucc (i : Word) : Option Word :=
  if i = 0x7FFFFFFF#32 then none else some (i + 1#32)

/-- `i--` on an `int`. -/
def intPred (i : Word) : Option Word :=
  if i = 0x80000000#32 then none else some (i - 1#32)

section Model

variable {m : ℕ} {size : Word} (compar : Element size → Element size → ℤ)

/-- The element at an offset from the base of the array. -/
def elementAt (a : Vector Byte m) (p : Word) : Option (Element size) :=
  if p.toNat + size.toNat ≤ m then some (Vector.ofFn fun b => (a[p.toNat + b]?).getD 0#8)
  else none

/-- `(*compar)(p, q)`. -/
def comparAt (a : Vector Byte m) (p q : Word) : Option ℤ := do
  let x ← elementAt a p
  let y ← elementAt a q
  some (compar x y)

/-- A loop that moves an index as long as a comparison is negative, with so many turns at most. -/
def scan (order : Word → Option ℤ) (move : Word → Option Word) : ℕ → Word → Option Word
  | 0, _ => none
  | turns + 1, i => do
      let c ← order i
      if c < 0 then
        let i ← move i
        scan order move turns i
      else some i

/-- The loop that moves `i` up. -/
def scanUp (a : Vector Byte m) (pivot : Word) : ℕ → Word → Option Word :=
  scan (fun i => comparAt compar a (i * size) pivot) intSucc

/-- The loop that moves `j` down. -/
def scanDown (a : Vector Byte m) (pivot : Word) : ℕ → Word → Option Word :=
  scan (fun j => comparAt compar a pivot (j * size)) intPred

/-- The loop that exchanges two elements, from byte `k` on. -/
def swapBytes (size p q : Word) : ℕ → Word → Vector Byte m → Option (Vector Byte m)
  | 0, _, _ => none
  | turns + 1, k, a =>
      if k < size then do
        let temp ← a[(p + k).toNat]?
        let c ← a[(q + k).toNat]?
        let a ← store a (p + k).toNat c
        let a ← store a (q + k).toNat temp
        let k ← intSucc k
        swapBytes size p q turns k a
      else some a

/-- The outer loop of `qsort_internal`, in which every inner loop has `turns` turns: where `i` and
`j` stand in the end, and the array. -/
def partitionLoop (turns : ℕ) (pivot : Word) :
    ℕ → Word → Word → Vector Byte m → Option (Word × Word × Vector Byte m)
  | 0, _, _, _ => none
  | n + 1, i, j, a => do
      let i ← scanUp compar a pivot turns i
      let j ← scanDown compar a pivot turns j
      if j.sle i then some (i, j, a)
      else
        let a ← swapBytes size (i * size) (j * size) turns 0#32 a
        let i ← intSucc i
        let j ← intPred j
        partitionLoop turns pivot n i j a

/-- `qsort_internal`, with so many nested calls at most. -/
def qsortInternal (turns : ℕ) : ℕ → Word → Word → Vector Byte m → Option (Vector Byte m)
  | 0, _, _, _ => none
  | n + 1, left, right, a =>
      if left ≥ right then some a
      else do
        let pivot := left * size
        let (i, j, a) ← partitionLoop compar turns pivot turns left right a
        let i ← intPred i
        let a ← qsortInternal turns n left i a
        let j ← intSucc j
        qsortInternal turns n j right a

/-- `qsort`, with so many turns of every loop and so many nested calls at most. -/
def qsort (fuel : ℕ) (num : Word) (a : Vector Byte m) : Option (Vector Byte m) :=
  qsortInternal compar fuel fuel 0#32 (num - 1#32) a

end Model

/-! ### Indices -/

lemma intSucc_ofNat {i : ℕ} (hi : i + 1 < 2 ^ 31) :
    intSucc (BitVec.ofNat 32 i) = some (BitVec.ofNat 32 (i + 1)) := by
  have hne : BitVec.ofNat 32 i ≠ 0x7FFFFFFF#32 := by
    rw [ne_eq, ← BitVec.toNat_inj, BitVec.toNat_ofNat]
    exact fun h => absurd (show i % 2 ^ 32 = 0x7FFFFFFF from h) (by omega)
  rw [intSucc, if_neg hne, BitVec.ofNat_add]

lemma ofNat_sub_one {i : ℕ} (hi : 0 < i) :
    BitVec.ofNat 32 i - 1#32 = BitVec.ofNat 32 (i - 1) := by
  obtain ⟨i, rfl⟩ := Nat.exists_eq_succ_of_ne_zero (Nat.ne_of_gt hi)
  rw [Nat.succ_sub_one, Nat.succ_eq_add_one, BitVec.ofNat_add, BitVec.add_sub_cancel]

lemma intPred_ofNat {i : ℕ} (hpos : 0 < i) (hi : i < 2 ^ 31) :
    intPred (BitVec.ofNat 32 i) = some (BitVec.ofNat 32 (i - 1)) := by
  have hne : BitVec.ofNat 32 i ≠ 0x80000000#32 := by
    rw [ne_eq, ← BitVec.toNat_inj, BitVec.toNat_ofNat]
    exact fun h => absurd (show i % 2 ^ 32 = 0x80000000 from h) (by omega)
  rw [intPred, if_neg hne, ofNat_sub_one hpos]

/-- **A scan** stops at the first index whose comparison is not negative. -/
theorem scan_eq {f : Word → Option ℤ} {g : Word → Option Word} {t : ℕ → Word} {o : ℕ → ℤ} {d : ℕ}
    (horder : ∀ k ≤ d, f (t k) = some (o k)) (hmove : ∀ k < d, g (t k) = some (t (k + 1)))
    (hstop : ¬o d < 0) :
    ∃ k ≤ d, ¬o k < 0 ∧ (∀ k' < k, o k' < 0) ∧
      ∀ turns, scan f g turns (t 0) = if k < turns then some (t k) else none := by
  have hex : ∃ k, ¬o k < 0 := ⟨d, hstop⟩
  have hle : Nat.find hex ≤ d := Nat.find_min' hex hstop
  have hbefore : ∀ k' < Nat.find hex, o k' < 0 := fun k' hk' => not_not.mp (Nat.find_min hex hk')
  refine ⟨Nat.find hex, hle, Nat.find_spec hex, hbefore, fun turns => ?_⟩
  suffices h : ∀ i ≤ Nat.find hex, scan f g turns (t i)
      = if Nat.find hex - i < turns then some (t (Nat.find hex)) else none by
    rw [h 0 (Nat.zero_le _), Nat.sub_zero]
  induction turns with
  | zero =>
      intro i _
      rw [scan, if_neg (Nat.not_lt_zero _)]
  | succ turns ih =>
      intro i hi
      rw [scan, horder i (hi.trans hle), Option.bind_eq_bind, Option.bind_some]
      rcases Nat.eq_or_lt_of_le hi with heq | hlt
      · rw [heq, if_neg (Nat.find_spec hex), if_pos (by omega)]
      · rw [if_pos (hbefore i hlt), hmove i (by omega), Option.bind_eq_bind, Option.bind_some,
          ih (i + 1) hlt]
        exact if_congr (by omega) rfl rfl

/-! ### Elements -/

/-- A byte of the array. -/
def byteAt {m : ℕ} (a : Vector Byte m) (x : ℕ) : Byte := (a[x]?).getD 0#8

/-- An element of the array. -/
def elem {m : ℕ} (size : Word) (a : Vector Byte m) (k : ℕ) : Element size :=
  Vector.ofFn fun b => byteAt a (k * size.toNat + b)

lemma getElem?_eq_byteAt {m : ℕ} (a : Vector Byte m) {x : ℕ} (hx : x < m) :
    a[x]? = some (byteAt a x) := by
  rw [byteAt, Vector.getElem?_eq_getElem hx, Option.getD_some]

lemma byteAt_set {m : ℕ} (a : Vector Byte m) {i : ℕ} (hi : i < m) (c : Byte) (x : ℕ) :
    byteAt (a.set i c) x = if x = i then c else byteAt a x := by
  rw [byteAt, Vector.getElem?_set]
  by_cases hx : x = i
  · rw [if_pos hx, if_pos hx.symm]
    rfl
  · rw [if_neg hx, if_neg (Ne.symm hx), byteAt]

/-- The bytes behind byte `k` of two elements are exchanged. -/
lemma swapBytes_eq {m : ℕ} {size p q : Word} (hm : m < 2 ^ 32) (hsize : size.toNat < 2 ^ 31)
    (hp : p.toNat + size.toNat ≤ q.toNat) (hq : q.toNat + size.toNat ≤ m) {d k turns : ℕ}
    (hk : k + d = size.toNat) (hturns : d < turns) (a : Vector Byte m) :
    ∃ a', swapBytes size p q turns (BitVec.ofNat 32 k) a = some a' ∧
      ∀ x, byteAt a' x =
        if p.toNat + k ≤ x ∧ x < p.toNat + size.toNat then byteAt a (q.toNat + (x - p.toNat))
        else if q.toNat + k ≤ x ∧ x < q.toNat + size.toNat then byteAt a (p.toNat + (x - q.toNat))
        else byteAt a x := by
  induction d generalizing k turns a with
  | zero =>
      obtain ⟨turns, rfl⟩ := Nat.exists_eq_succ_of_ne_zero (Nat.ne_of_gt hturns)
      have hend : ¬BitVec.ofNat 32 k < size := by
        rw [BitVec.lt_def, BitVec.toNat_ofNat]
        omega
      refine ⟨a, by rw [swapBytes, if_neg hend], fun x => ?_⟩
      rw [if_neg (by omega), if_neg (by omega)]
  | succ d ih =>
      obtain ⟨turns, rfl⟩ := Nat.exists_eq_succ_of_ne_zero (n := turns) (by omega)
      have hval : (BitVec.ofNat 32 k).toNat = k := toNat_ofNat_of_lt (by omega)
      have hgo : BitVec.ofNat 32 k < size := by
        rw [BitVec.lt_def, hval]
        omega
      have hpk : (p + BitVec.ofNat 32 k).toNat = p.toNat + k := by
        rw [BitVec.toNat_add, hval]
        omega
      have hqk : (q + BitVec.ofNat 32 k).toNat = q.toNat + k := by
        rw [BitVec.toNat_add, hval]
        omega
      have hpm : p.toNat + k < m := by omega
      have hqm : q.toNat + k < m := by omega
      have hnext : d < turns := by omega
      obtain ⟨a', hrun, hbytes⟩ := ih (k := k + 1) (by omega) hnext
        ((a.set (p.toNat + k) (byteAt a (q.toNat + k))).set (q.toNat + k) (byteAt a (p.toNat + k)))
      refine ⟨a', ?_, fun x => ?_⟩
      · simp only [swapBytes, if_pos hgo, hpk, hqk, getElem?_eq_byteAt a hpm,
          getElem?_eq_byteAt a hqm, store_of_lt _ _ hpm, store_of_lt _ _ hqm,
          intSucc_ofNat (show k + 1 < 2 ^ 31 by omega), Option.bind_eq_bind, Option.bind_some]
        exact hrun
      · simp only [hbytes, byteAt_set]
        -- where both places have moved past `x`, the bytes agree; elsewhere the conditions clash
        split_ifs <;> first | rfl | omega | (congr 1; omega)

/-- A byte of an element is in no other element. -/
lemma not_mem_element {s k i b : ℕ} (hne : k ≠ i) (hb : b < s) :
    ¬(i * s ≤ k * s + b ∧ k * s + b < i * s + s) := by
  rintro ⟨hle, hlt⟩
  rcases Nat.lt_or_gt_of_ne hne with h | h
  · have hmul : (k + 1) * s ≤ i * s := Nat.mul_le_mul_right _ h
    rw [Nat.add_mul, Nat.one_mul] at hmul
    omega
  · have hmul : (i + 1) * s ≤ k * s := Nat.mul_le_mul_right _ h
    rw [Nat.add_mul, Nat.one_mul] at hmul
    omega

section Elements

variable {num size : Word} {a : Vector Byte (num.toNat * size.toNat)}
  {compar : Element size → Element size → ℤ} {i j k l : ℕ}

lemma toNat_elementOffset (hfit : num.toNat * size.toNat < 2 ^ 32) (hk : k < num.toNat) :
    (BitVec.ofNat 32 k * size).toNat = k * size.toNat := by
  have hle : k * size.toNat ≤ num.toNat * size.toNat := Nat.mul_le_mul_right _ hk.le
  rw [BitVec.toNat_mul, toNat_ofNat_of_lt (hk.trans num.isLt),
    Nat.mod_eq_of_lt (by omega)]

lemma offset_add_le (hk : k < num.toNat) :
    k * size.toNat + size.toNat ≤ num.toNat * size.toNat := by
  rw [← Nat.succ_mul]
  exact Nat.mul_le_mul_right _ hk

lemma elementAt_offset (hfit : num.toNat * size.toNat < 2 ^ 32) (hk : k < num.toNat) :
    elementAt a (BitVec.ofNat 32 k * size) = some (elem size a k) := by
  rw [elementAt, toNat_elementOffset hfit hk, if_pos (offset_add_le hk)]
  rfl

lemma comparAt_offset (hfit : num.toNat * size.toNat < 2 ^ 32) (hi : i < num.toNat)
    (hj : j < num.toNat) :
    comparAt compar a (BitVec.ofNat 32 i * size) (BitVec.ofNat 32 j * size)
      = some (compar (elem size a i) (elem size a j)) := by
  rw [comparAt, elementAt_offset hfit hi, elementAt_offset hfit hj]
  rfl

/-- `i` moves up to the first element that is not less than the pivot. -/
lemma scanUp_eq {s : ℕ} (hfit : num.toNat * size.toNat < 2 ^ 32) (hint : num.toNat ≤ 2 ^ 31)
    (hl : l < num.toNat) (his : i ≤ s) (hs : s < num.toNat)
    (hstop : ¬compar (elem size a s) (elem size a l) < 0) :
    ∃ i', i ≤ i' ∧ i' ≤ s ∧ ¬compar (elem size a i') (elem size a l) < 0 ∧
      (∀ k, i ≤ k → k < i' → compar (elem size a k) (elem size a l) < 0) ∧
      ∀ turns, scanUp compar a (BitVec.ofNat 32 l * size) turns (BitVec.ofNat 32 i)
        = if i' - i < turns then some (BitVec.ofNat 32 i') else none := by
  obtain ⟨d, hd, hnot, hbefore, hrun⟩ := scan_eq (d := s - i)
    (f := fun i => comparAt compar a (i * size) (BitVec.ofNat 32 l * size)) (g := intSucc)
    (t := fun k => BitVec.ofNat 32 (i + k))
    (o := fun k => compar (elem size a (i + k)) (elem size a l))
    (fun k hk => comparAt_offset hfit (by omega) hl) (fun k hk => intSucc_ofNat (by omega))
    (by rwa [Nat.add_sub_cancel' his])
  refine ⟨i + d, by omega, by omega, hnot, fun k hik hk => ?_, fun turns => ?_⟩
  · have hneg := hbefore (k - i) (by omega)
    rwa [Nat.add_sub_cancel' hik] at hneg
  · rw [Nat.add_sub_cancel_left]
    exact hrun turns

/-- `j` moves down to the first element that is not greater than the pivot. -/
lemma scanDown_eq {s : ℕ} (hfit : num.toNat * size.toNat < 2 ^ 32) (hint : num.toNat ≤ 2 ^ 31)
    (hl : l < num.toNat) (hsj : s ≤ j) (hj : j < num.toNat)
    (hstop : ¬compar (elem size a l) (elem size a s) < 0) :
    ∃ j', s ≤ j' ∧ j' ≤ j ∧ ¬compar (elem size a l) (elem size a j') < 0 ∧
      (∀ k, j' < k → k ≤ j → compar (elem size a l) (elem size a k) < 0) ∧
      ∀ turns, scanDown compar a (BitVec.ofNat 32 l * size) turns (BitVec.ofNat 32 j)
        = if j - j' < turns then some (BitVec.ofNat 32 j') else none := by
  obtain ⟨d, hd, hnot, hbefore, hrun⟩ := scan_eq (d := j - s)
    (f := fun j => comparAt compar a (BitVec.ofNat 32 l * size) (j * size)) (g := intPred)
    (t := fun k => BitVec.ofNat 32 (j - k))
    (o := fun k => compar (elem size a l) (elem size a (j - k)))
    (fun k hk => comparAt_offset hfit hl (by omega))
    (fun k hk => by rw [intPred_ofNat (by omega) (by omega), Nat.sub_sub])
    (by rwa [Nat.sub_sub_self hsj])
  refine ⟨j - d, by omega, by omega, hnot, fun k hjk hk => ?_, fun turns => ?_⟩
  · have hneg := hbefore (j - k) (by omega)
    rwa [Nat.sub_sub_self hk] at hneg
  · rw [Nat.sub_sub_self (by omega)]
    exact hrun turns

/-- **Two elements** are exchanged. -/
theorem swapBytes_elem (hfit : num.toNat * size.toNat < 2 ^ 32) (hij : i < j) (hj : j < num.toNat)
    {turns : ℕ} (hturns : size.toNat < turns) :
    ∃ a', swapBytes size (BitVec.ofNat 32 i * size) (BitVec.ofNat 32 j * size) turns 0#32 a
        = some a' ∧
      elem size a' = fun k => elem size a (Equiv.swap i j k) := by
  have hi : i < num.toNat := hij.trans hj
  have hp := toNat_elementOffset hfit hi
  have hq := toNat_elementOffset hfit hj
  have hbehind : i * size.toNat + size.toNat ≤ j * size.toNat := by
    rw [← Nat.succ_mul]
    exact Nat.mul_le_mul_right _ hij
  have hend : j * size.toNat + size.toNat ≤ num.toNat * size.toNat := offset_add_le hj
  obtain ⟨a', hrun, hbytes⟩ := swapBytes_eq (k := 0) (d := size.toNat) hfit (by omega)
    (p := BitVec.ofNat 32 i * size) (q := BitVec.ofNat 32 j * size)
    (by rwa [hp, hq]) (by rwa [hq]) (Nat.zero_add _) hturns a
  refine ⟨a', hrun, funext fun k => ?_⟩
  rw [hp, hq, Nat.add_zero, Nat.add_zero] at hbytes
  rw [elem, elem]
  congr 1
  funext b
  rw [hbytes]
  have hb := b.isLt
  rcases eq_or_ne k i with rfl | hki
  · rw [Equiv.swap_apply_left, if_pos (by omega), Nat.add_sub_cancel_left]
  · rcases eq_or_ne k j with rfl | hkj
    · rw [Equiv.swap_apply_right, if_neg (by omega), if_pos (by omega), Nat.add_sub_cancel_left]
    · rw [Equiv.swap_apply_of_ne_of_ne hki hkj, if_neg (not_mem_element hki hb),
        if_neg (not_mem_element hkj hb)]

/-! ### The outer loop -/

/-- What the outer loop leaves of the elements from place `l` up to place `r`: the pivot, the
element at `l`, stands between those up to `j` and those from `i` on. -/
structure Partitioned (c : Element size → Element size → ℤ) (l r : ℕ) (e e' : ℕ → Element size)
    (i j : ℕ) : Prop where
  perm : PermOn l r e e'
  le_left : l ≤ i
  left_lt : i < r
  le_right : l ≤ j
  right_lt : j + 1 < r
  le_succ : i ≤ j + 1
  right_le : j ≤ i
  low : ∀ k, l ≤ k → k ≤ j → c (e' k) (e' l) ≤ 0
  high : ∀ k, i ≤ k → k < r → c (e' l) (e' k) ≤ 0

/-- The pointers have met. -/
lemma Partitioned.of_split {e : ℕ → Element size} {r : ℕ} (h : Split compar (e l) l r i j e)
    (hli : l ≤ i) (hir : i < r) (hlj : l ≤ j) (hjr : j + 1 < r) (hij : i ≤ j + 1) (hji : j ≤ i)
    (hi : compar (e l) (e i) ≤ 0) (hj : compar (e j) (e l) ≤ 0) :
    Partitioned compar l r e e i j where
  perm := .refl l r e
  le_left := hli
  left_lt := hir
  le_right := hlj
  right_lt := hjr
  le_succ := hij
  right_le := hji
  low k hlk hk := by
    rcases Nat.eq_or_lt_of_le hk with rfl | hlt
    · exact hj
    · exact h.low k hlk (by omega)
  high k hk hkr := by
    rcases Nat.eq_or_lt_of_le hk with rfl | hlt
    · exact hi
    · exact h.high k (by omega) hkr

/-- A partition behind an exchange. -/
lemma Partitioned.of_swap {e e' : ℕ → Element size} {r s t : ℕ}
    (h : Partitioned compar l r (fun k => e (Equiv.swap s t k)) e' i j) (hs : l ≤ s ∧ s < r)
    (ht : l ≤ t ∧ t < r) : Partitioned compar l r e e' i j :=
  { h with perm := (PermOn.swap e hs ht).trans h.perm }

/-- A partition whose two sides are sorted one after the other. -/
lemma Partitioned.sortedOn {e e₁ e₂ e₃ : ℕ → Element size} {r : ℕ} (h : TotalPreorder compar)
    (hpart : Partitioned compar l r e e₁ i j) (hperm₂ : PermOn l i e₁ e₂)
    (hperm₃ : PermOn (j + 1) r e₂ e₃) (hsorted₂ : SortedOn compar l i e₂)
    (hsorted₃ : SortedOn compar (j + 1) r e₃) : SortedOn compar l r e₃ := by
  have hlower : ∀ k, k < j + 1 → e₃ k = e₂ k := fun k hk => hperm₃.eq_of_notMem (Or.inl hk)
  have hupper : ∀ k, i ≤ k → e₂ k = e₁ k := fun k hk => hperm₂.eq_of_notMem (Or.inr hk)
  have hle : ∀ k, l ≤ k → k < j + 1 → compar (e₃ k) (e₁ l) ≤ 0 := by
    intro k hlk hk
    rw [hlower k hk]
    exact (hperm₂.mono le_rfl hpart.le_succ).forall_of_forall (P := fun x => compar x (e₁ l) ≤ 0)
      (fun k hlk hk => hpart.low k hlk (Nat.lt_succ_iff.mp hk)) k hlk hk
  have hge : ∀ k, i ≤ k → k < r → compar (e₁ l) (e₃ k) ≤ 0 :=
    (hperm₃.mono hpart.le_succ le_rfl).forall_of_forall (P := fun x => compar (e₁ l) x ≤ 0)
      fun k hik hk => by
        rw [hupper k hik]
        exact hpart.high k hik hk
  have hlow : SortedOn compar l i e₃ :=
    hsorted₂.congr fun k _ hk => hlower k (hk.trans_le hpart.le_succ)
  exact .join h hlow hsorted₃ hle hge

/-- A turn in which the pointers have met. -/
lemma partitionLoop_of_met {turns n : ℕ} {pivot i j i' j' : Word}
    (hup : scanUp compar a pivot turns i = some i')
    (hdown : scanDown compar a pivot turns j = some j') (hmet : j'.sle i') :
    partitionLoop compar turns pivot (n + 1) i j a = some (i', j', a) := by
  simp only [partitionLoop, hup, hdown, Option.bind_eq_bind, Option.bind_some, if_pos hmet]

/-- A turn that exchanges two elements. -/
lemma partitionLoop_of_not_met {turns n : ℕ} {pivot i j : Word} {i' j' : ℕ}
    {a' : Vector Byte (num.toNat * size.toNat)}
    (hup : scanUp compar a pivot turns i = some (BitVec.ofNat 32 i'))
    (hdown : scanDown compar a pivot turns j = some (BitVec.ofNat 32 j')) (hmet : i' < j')
    (hj' : j' < 2 ^ 31)
    (hswap : swapBytes size (BitVec.ofNat 32 i' * size) (BitVec.ofNat 32 j' * size) turns 0#32 a
      = some a') :
    partitionLoop compar turns pivot (n + 1) i j a
      = partitionLoop compar turns pivot n (BitVec.ofNat 32 (i' + 1)) (BitVec.ofNat 32 (j' - 1))
          a' := by
  have hgo : ¬(BitVec.ofNat 32 j').sle (BitVec.ofNat 32 i') := by
    rw [sle_ofNat hj' (hmet.trans hj')]
    exact Nat.not_le.mpr hmet
  simp only [partitionLoop, hup, hdown, Option.bind_eq_bind, Option.bind_some, if_neg hgo, hswap,
    intSucc_ofNat (show i' + 1 < 2 ^ 31 by omega), intPred_ofNat (show 0 < j' by omega) hj']

section Sorted

variable {turns : ℕ} (h : TotalPreorder compar) (hfit : num.toNat * size.toNat < 2 ^ 32)
  (hint : num.toNat ≤ 2 ^ 31) (hturns : num.toNat < turns) (hsize : size.toNat < turns)

include h hfit hint hturns hsize

/-- The loop behind its first turn, in which the pivot stays where it is. -/
lemma partitionLoop_eq {r n : ℕ} (hr : r ≤ num.toNat) (hn : j + 1 - i < n) (hli : l < i)
    (hij : i ≤ j + 1) (hjr : j + 1 < r)
    (hsplit : Split compar (elem size a l) l r i j (elem size a)) :
    ∃ i' j' a', partitionLoop compar turns (BitVec.ofNat 32 l * size) n (BitVec.ofNat 32 i)
        (BitVec.ofNat 32 j) a = some (BitVec.ofNat 32 i', BitVec.ofNat 32 j', a') ∧
      l < i' ∧ Partitioned compar l r (elem size a) (elem size a') i' j' := by
  induction n generalizing i j a with
  | zero => exact absurd hn (Nat.not_lt_zero _)
  | succ n ih =>
      have hstop : ¬compar (elem size a (j + 1)) (elem size a l) < 0 :=
        h.not_neg_iff.mpr (hsplit.high (j + 1) (by omega) hjr)
      obtain ⟨i', hii', hi'j, hi', hbelow, hup⟩ :=
        scanUp_eq hfit hint (by omega) hij (by omega) hstop
      have hstop' : ¬compar (elem size a l) (elem size a (i - 1)) < 0 :=
        h.not_neg_iff.mpr (hsplit.low (i - 1) (by omega) (by omega))
      obtain ⟨j', hij', hj'j, hj', habove, hdown⟩ :=
        scanDown_eq hfit hint (by omega) (show i - 1 ≤ j by omega) (by omega) hstop'
      have hscan : Split compar (elem size a l) l r i' j' (elem size a) :=
        hsplit.scan (fun k hk hk' => (hbelow k hk hk').le) fun k hk hk' => (habove k hk hk').le
      have hup' := (hup turns).trans (if_pos (by omega))
      have hdown' := (hdown turns).trans (if_pos (by omega))
      by_cases hcross : j' ≤ i'
      · refine ⟨i', j', a, ?_, by omega, ?_⟩
        · exact partitionLoop_of_met hup' hdown' ((sle_ofNat (by omega) (by omega)).mpr hcross)
        · have hmeet : i' ≤ j' + 1 := by
            by_contra hpast
            have hneg := hbelow (j' + 1) (by omega) (by omega)
            exact lt_asymm (habove (j' + 1) (by omega) (by omega)) ((h.neg_iff _ _).mp hneg)
          exact .of_split hscan (by omega) (by omega) (by omega) (by omega) hmeet hcross
            (h.not_neg_iff.mp hi') (h.not_neg_iff.mp hj')
      · obtain ⟨a', hswap, helem⟩ :=
          swapBytes_elem hfit (a := a) (show i' < j' by omega) (by omega) hsize
        have hpivot : elem size a' l = elem size a l := by
          rw [helem]
          exact congrArg _ (Equiv.swap_apply_of_ne_of_ne (by omega) (by omega))
        have hnext : Split compar (elem size a' l) l r (i' + 1) (j' - 1) (elem size a') := by
          rw [hpivot, helem]
          exact hscan.swap (by omega) (h.not_neg_iff.mp hi') (h.not_neg_iff.mp hj')
        obtain ⟨i'', j'', a'', hrun, hlt, hpart⟩ :=
          ih (by omega) (by omega) (by omega) (by omega) hnext
        refine ⟨i'', j'', a'', ?_, hlt, ?_⟩
        · rw [partitionLoop_of_not_met hup' hdown' (by omega) (by omega) hswap]
          exact hrun
        · rw [helem] at hpart
          exact hpart.of_swap (by omega) (by omega)

/-- **The outer loop** partitions a range of two elements at least.  It stops at the first element
only if this is less than all others. -/
theorem partitionLoop_spec {r n : ℕ} (hr : r ≤ num.toNat) (hlr : l + 1 < r) (hn : r - l ≤ n) :
    ∃ i j a', partitionLoop compar turns (BitVec.ofNat 32 l * size) n (BitVec.ofNat 32 l)
        (BitVec.ofNat 32 (r - 1)) a = some (BitVec.ofNat 32 i, BitVec.ofNat 32 j, a') ∧
      Partitioned compar l r (elem size a) (elem size a') i j ∧
      (i = l → ∀ k, l < k → k < r → compar (elem size a l) (elem size a k) < 0) := by
  obtain ⟨n, rfl⟩ := Nat.exists_eq_succ_of_ne_zero (n := n) (by omega)
  have hself : ¬compar (elem size a l) (elem size a l) < 0 := by
    rw [h.self_eq_zero]
    exact lt_irrefl 0
  obtain ⟨i', hli', hi'l, -, -, hup⟩ := scanUp_eq hfit hint (by omega) le_rfl (by omega) hself
  obtain rfl : l = i' := by omega
  obtain ⟨j', hlj', hj'r, hj', habove, hdown⟩ :=
    scanDown_eq hfit hint (by omega) (show l ≤ r - 1 by omega) (by omega) hself
  have hup' := (hup turns).trans (if_pos (by omega))
  have hdown' := (hdown turns).trans (if_pos (by omega))
  by_cases hstay : j' ≤ l
  · obtain rfl : j' = l := by omega
    refine ⟨j', j', a, ?_, ?_, fun _ k hk hkr => habove k hk (by omega)⟩
    · exact partitionLoop_of_met hup' hdown' ((sle_ofNat (by omega) (by omega)).mpr le_rfl)
    · have hsplit : Split compar (elem size a j') j' r j' j' (elem size a) :=
        ⟨fun k hk hk' => absurd hk' (by omega), fun k hk hkr => (habove k hk (by omega)).le⟩
      have hzero : compar (elem size a j') (elem size a j') ≤ 0 := (h.self_eq_zero _).le
      exact .of_split hsplit le_rfl (by omega) le_rfl hlr (by omega) le_rfl hzero hzero
  · obtain ⟨a', hswap, helem⟩ :=
      swapBytes_elem hfit (a := a) (show l < j' by omega) (by omega) hsize
    have hpivot : elem size a' l = elem size a j' := by
      rw [helem]
      exact congrArg _ (Equiv.swap_apply_left _ _)
    have hold : elem size a' j' = elem size a l := by
      rw [helem]
      exact congrArg _ (Equiv.swap_apply_right _ _)
    have hle : compar (elem size a j') (elem size a l) ≤ 0 := h.not_neg_iff.mp hj'
    -- the pivot is now the element that came from the place of `j`
    have hnext : Split compar (elem size a' l) l r (l + 1) (j' - 1) (elem size a') := by
      refine ⟨fun k hk hk' => ?_, fun k hk hkr => ?_⟩
      · obtain rfl : k = l := by omega
        exact (h.self_eq_zero _).le
      · rcases Nat.eq_or_lt_of_le (show j' ≤ k by omega) with rfl | hlt
        · rwa [hpivot, hold]
        · have hstay : elem size a' k = elem size a k := by
            rw [helem]
            exact congrArg _ (Equiv.swap_apply_of_ne_of_ne (by omega) (by omega))
          rw [hpivot, hstay]
          exact h.trans _ _ _ hle (habove k hlt (by omega)).le
    obtain ⟨i'', j'', a'', hrun, hlt, hpart⟩ := partitionLoop_eq h hfit hint hturns hsize hr
      (n := n) (by omega) (Nat.lt_succ_self l) (by omega) (by omega) hnext
    refine ⟨i'', j'', a'', ?_, ?_, fun hl => absurd hl (Nat.ne_of_gt hlt)⟩
    · rw [partitionLoop_of_not_met hup' hdown' (by omega) (by omega) hswap]
      exact hrun
    · rw [helem] at hpart
      exact hpart.of_swap (by omega) (by omega)

/-! ### The recursion -/

/-- The range does not start at the first element of the array, or its first element is not less
than all others. -/
def SafeRange (c : Element size → Element size → ℤ) (l r : ℕ) (e : ℕ → Element size) : Prop :=
  0 < l ∨ r ≤ l + 1 ∨ ∃ k, l < k ∧ k < r ∧ c (e k) (e l) ≤ 0

/-- **`qsort_internal`** sorts the range up to place `r`, if it is safe, and leaves the others. -/
theorem qsortInternal_spec {r n : ℕ} (hpos : 0 < r) (hr : r ≤ num.toNat) (hlr : l ≤ r)
    (hn : r - l < n) (hsafe : SafeRange compar l r (elem size a)) :
    ∃ a', qsortInternal compar turns n (BitVec.ofNat 32 l) (BitVec.ofNat 32 (r - 1)) a = some a' ∧
      PermOn l r (elem size a) (elem size a') ∧ SortedOn compar l r (elem size a') := by
  induction n generalizing l r a with
  | zero => exact absurd hn (Nat.not_lt_zero _)
  | succ n ih =>
      have hge : BitVec.ofNat 32 l ≥ BitVec.ofNat 32 (r - 1) ↔ r ≤ l + 1 := by
        rw [ge_iff_le, BitVec.le_def, BitVec.toNat_ofNat, BitVec.toNat_ofNat]
        omega
      by_cases hshort : r ≤ l + 1
      · exact ⟨a, by rw [qsortInternal, if_pos (hge.mpr hshort)], .refl l r _, .of_le h hshort _⟩
      obtain ⟨i, j, a₁, hloop, hpart, hstays⟩ :=
        partitionLoop_spec (a := a) h hfit hint hturns hsize hr (by omega)
          (show r - l ≤ turns by omega)
      have hli := hpart.le_left
      have hir := hpart.left_lt
      have hlj := hpart.le_right
      have hjr := hpart.right_lt
      have hij := hpart.le_succ
      have hi : 0 < i := by
        rcases hsafe with hl | hle | ⟨k, hlk, hkr, hk⟩
        · omega
        · exact absurd hle hshort
        · by_contra hzero
          exact absurd ((h.neg_iff _ _).mp (hstays (by omega) k hlk hkr)) (by omega)
      -- the pivot is the greatest element of the lower range, and stands first in it
      have hleft : SafeRange compar l i (elem size a₁) := by
        rcases Nat.lt_or_ge (l + 1) i with hlong | hle
        · exact Or.inr (Or.inr ⟨l + 1, by omega, hlong, hpart.low (l + 1) (by omega) (by omega)⟩)
        · exact Or.inr (Or.inl hle)
      obtain ⟨a₂, hrun₂, hperm₂, hsorted₂⟩ :=
        ih hi (show i ≤ num.toNat by omega) hli (by omega) hleft
      obtain ⟨a₃, hrun₃, hperm₃, hsorted₃⟩ :=
        ih hpos hr (show j + 1 ≤ r by omega) (by omega) (a := a₂) (Or.inl (Nat.succ_pos j))
      refine ⟨a₃, ?_, ?_, ?_⟩
      · simp only [qsortInternal, if_neg (mt hge.mp hshort), hloop, Option.bind_eq_bind,
          Option.bind_some, intPred_ofNat hi (show i < 2 ^ 31 by omega), hrun₂,
          intSucc_ofNat (show j + 1 < 2 ^ 31 by omega), hrun₃]
      · exact (hpart.perm.trans (hperm₂.mono le_rfl hir.le)).trans (hperm₃.mono (by omega) le_rfl)
      · exact hpart.sortedOn h hperm₂ hperm₃ hsorted₂ hsorted₃

end Sorted

/-- The elements of the array, in order. -/
def elements (num size : Word) (a : Vector Byte (num.toNat * size.toNat)) : List (Element size) :=
  (List.range num.toNat).map (elem size a)

/-- The call returns, and leaves the elements in non-decreasing order. -/
def Sorts (compar : Element size → Element size → ℤ) (num : Word)
    (a : Vector Byte (num.toNat * size.toNat)) : Prop :=
  ∃ fuel a', qsort compar fuel num a = some a' ∧
    (elements num size a').Perm (elements num size a) ∧
    (elements num size a').Pairwise fun x y => compar x y ≤ 0

/-- The array is sorted, if its whole range is safe. -/
lemma sorts_of_safeRange (h : TotalPreorder compar) (hfit : num.toNat * size.toNat < 2 ^ 32)
    (hint : num.toNat ≤ 2 ^ 31) (hpos : 0 < num.toNat)
    (hsafe : SafeRange compar 0 num.toNat (elem size a)) : Sorts compar num a := by
  have hturns : num.toNat < num.toNat + size.toNat + 1 := by omega
  have hsize : size.toNat < num.toNat + size.toNat + 1 := by omega
  obtain ⟨a', hrun, hperm, hsorted⟩ := qsortInternal_spec h hfit hint hturns hsize hpos le_rfl
    (Nat.zero_le _) hturns hsafe
  refine ⟨num.toNat + size.toNat + 1, a', ?_, hperm.map_range_perm, hsorted.map_range_pairwise⟩
  have hright : num - 1#32 = BitVec.ofNat 32 (num.toNat - 1) := by
    rw [← ofNat_sub_one hpos, BitVec.ofNat_toNat, BitVec.setWidth_eq]
  rw [qsort, hright]
  exact hrun

end Elements

/-! ### Where it does not return -/

section Failures

variable {m : ℕ} {size : Word} {compar : Element size → Element size → ℤ}

/-- What a move keeps holds where a scan stops. -/
lemma scan_invariant {P : Word → Prop} {f : Word → Option ℤ} {g : Word → Option Word}
    (hmove : ∀ i i', P i → g i = some i' → P i') {turns : ℕ} {i i' : Word} (hi : P i)
    (h : scan f g turns i = some i') : P i' := by
  induction turns generalizing i with
  | zero => exact absurd h (by simp [scan])
  | succ turns ih =>
      rw [scan] at h
      obtain ⟨c, -, h⟩ := Option.bind_eq_some_iff.mp h
      split_ifs at h with hc
      · obtain ⟨i₁, hi₁, h⟩ := Option.bind_eq_some_iff.mp h
        exact ih (hmove i i₁ hi hi₁) h
      · obtain rfl := Option.some.inj h
        exact hi

/-- A negative index stays negative. -/
lemma le_toNat_of_intPred {i i' : Word} (hi : 2 ^ 31 ≤ i.toNat) (h : intPred i = some i') :
    2 ^ 31 ≤ i'.toNat := by
  rw [intPred] at h
  split_ifs at h with hmin
  obtain rfl := Option.some.inj h
  have hne : i.toNat ≠ 2 ^ 31 := fun heq => hmin (BitVec.eq_of_toNat_eq heq)
  bv_omega

/-- The first element is not less than itself. -/
lemma scanUp_zero (h : TotalPreorder compar) (a : Vector Byte m) (turns : ℕ) :
    scanUp compar a (0#32 * size) turns 0#32 = none ∨
      scanUp compar a (0#32 * size) turns 0#32 = some 0#32 := by
  cases turns with
  | zero => exact Or.inl rfl
  | succ turns =>
      rw [scanUp, scan, comparAt]
      cases elementAt a (0#32 * size) with
      | none => exact Or.inl rfl
      | some x =>
          right
          simp [h.self_eq_zero]

/-- If `j` does not stop behind the first element, the same range is not divided. -/
lemma partitionLoop_zero (h : TotalPreorder compar) {a : Vector Byte m} {turns n : ℕ}
    {right : Word}
    (hstay : ∀ j, scanDown compar a (0#32 * size) turns right = some j → j.sle 0#32) :
    partitionLoop compar turns (0#32 * size) n 0#32 right a = none ∨
      ∃ j, partitionLoop compar turns (0#32 * size) n 0#32 right a = some (0#32, j, a) := by
  cases n with
  | zero => exact Or.inl rfl
  | succ n =>
      rw [partitionLoop]
      rcases scanUp_zero h a turns with hup | hup
      · rw [hup]
        exact Or.inl rfl
      · rw [hup]
        cases hdown : scanDown compar a (0#32 * size) turns right with
        | none => exact Or.inl rfl
        | some j =>
            refine Or.inr ⟨j, ?_⟩
            simp only [Option.bind_eq_bind, Option.bind_some, if_pos (hstay j hdown)]

/-- Then the lower range ends at `i - 1`, which is the greatest `size_t`. -/
lemma qsortInternal_succ_eq_none (h : TotalPreorder compar) {a : Vector Byte m} {turns n : ℕ}
    {right : Word} (hright : 0#32 < right)
    (hstay : ∀ j, scanDown compar a (0#32 * size) turns right = some j → j.sle 0#32)
    (hnone : qsortInternal compar turns n 0#32 (BitVec.allOnes 32) a = none) :
    qsortInternal compar turns (n + 1) 0#32 right a = none := by
  rw [qsortInternal, if_neg (by rw [ge_iff_le, BitVec.not_le]; exact hright)]
  rcases partitionLoop_zero (n := turns) h hstay with hloop | ⟨j, hloop⟩
  · simp only [hloop, Option.bind_eq_bind, Option.bind_none]
  · have hpred : intPred 0#32 = some (BitVec.allOnes 32) := by decide
    simp only [hloop, Option.bind_eq_bind, Option.bind_some, hpred, hnone, Option.bind_none]

/-- **A range from the first element on** that ends beyond the numbers of an `int` is never
sorted: `j` is negative, and the lower range ends at the greatest `size_t`. -/
theorem qsortInternal_eq_none (h : TotalPreorder compar) {right : Word}
    (hright : 2 ^ 31 ≤ right.toNat) (turns n : ℕ) (a : Vector Byte m) :
    qsortInternal compar turns n 0#32 right a = none := by
  induction n generalizing right with
  | zero => rfl
  | succ n ih =>
      refine qsortInternal_succ_eq_none h ?_ (fun j hj => ?_) (ih (by decide))
      · bv_omega
      · have hneg : 2 ^ 31 ≤ j.toNat :=
          scan_invariant (P := fun j => 2 ^ 31 ≤ j.toNat) (fun _ _ => le_toNat_of_intPred) hright hj
        rw [BitVec.sle_iff_toInt_le, BitVec.toInt_eq_toNat_cond, if_neg (by omega)]
        have hlt := j.isLt
        rw [BitVec.toInt_zero]
        omega

/-- An array whose first element is less than all others is not sorted either: `i` and `j` meet
there. -/
theorem qsort_eq_none {num : Word} {a : Vector Byte (num.toNat * size.toNat)}
    (h : TotalPreorder compar) (hfit : num.toNat * size.toNat < 2 ^ 32) (hint : num.toNat ≤ 2 ^ 31)
    (htwo : 1 < num.toNat)
    (hleast : ∀ k, 0 < k → k < num.toNat → compar (elem size a 0) (elem size a k) < 0)
    (fuel : ℕ) : qsort compar fuel num a = none := by
  cases fuel with
  | zero => rfl
  | succ fuel =>
      have hright : num - 1#32 = BitVec.ofNat 32 (num.toNat - 1) := by
        rw [← ofNat_sub_one (Nat.lt_of_succ_lt htwo), BitVec.ofNat_toNat, BitVec.setWidth_eq]
      refine qsortInternal_succ_eq_none h (by bv_omega) (fun j hj => ?_)
        (qsortInternal_eq_none h (by decide) _ _ _)
      have hself : ¬compar (elem size a 0) (elem size a 0) < 0 := by
        rw [h.self_eq_zero]
        exact lt_irrefl 0
      obtain ⟨j', -, hj', hnot, -, hdown⟩ := scanDown_eq hfit hint (Nat.lt_of_succ_lt htwo)
        (Nat.zero_le (num.toNat - 1)) (Nat.sub_one_lt_of_lt htwo) hself
      obtain rfl : j' = 0 := by
        by_contra hpos
        exact hnot (hleast j' (Nat.pos_of_ne_zero hpos) (by omega))
      rw [hright] at hj
      obtain ⟨-, hzero⟩ := Option.ite_none_right_eq_some.mp ((hdown (fuel + 1)).symm.trans hj)
      rw [← Option.some.inj hzero]
      rfl

end Failures

/-! ### Which arrays are sorted -/

/-- **`qsort`** sorts an array exactly if its indices fit into an `int` and it has one element, or
one behind the first that is not greater.  Otherwise it leaves the array and does not return. -/
theorem sorts_iff {num size : Word} {compar : Element size → Element size → ℤ}
    (h : TotalPreorder compar) (hfit : num.toNat * size.toNat < 2 ^ 32)
    (a : Vector Byte (num.toNat * size.toNat)) :
    Sorts compar num a ↔ num.toNat ≤ 2 ^ 31 ∧
      (num.toNat = 1 ∨
        ∃ k, 0 < k ∧ k < num.toNat ∧ compar (elem size a k) (elem size a 0) ≤ 0) := by
  constructor
  · rintro ⟨fuel, a', hrun, -⟩
    have hright : ¬2 ^ 31 ≤ (num - 1#32).toNat := fun hge =>
      Option.some_ne_none a' (hrun.symm.trans (qsortInternal_eq_none h hge fuel fuel a))
    have hint : num.toNat ≤ 2 ^ 31 := by bv_omega
    have hpos : 0 < num.toNat := by bv_omega
    refine ⟨hint, ?_⟩
    by_contra hnot
    obtain ⟨hone, hleast⟩ := not_or.mp hnot
    have hless : ∀ k, 0 < k → k < num.toNat → compar (elem size a 0) (elem size a k) < 0 := by
      intro k hk hlt
      by_contra hle
      exact hleast ⟨k, hk, hlt, h.not_neg_iff.mp hle⟩
    exact Option.some_ne_none a'
      (hrun.symm.trans (qsort_eq_none h hfit hint (by omega) hless fuel))
  · rintro ⟨hint, hone | ⟨k, hpos, hk, hle⟩⟩
    · exact sorts_of_safeRange h hfit hint (by omega) (Or.inr (Or.inl (by omega)))
    · exact sorts_of_safeRange h hfit hint (by omega) (Or.inr (Or.inr ⟨k, hpos, hk, hle⟩))

/-- The comparison of two bytes by their difference. -/
def compareBytes (x y : Element 1#32) : ℤ :=
  ((x.get ⟨0, by decide⟩).toNat : ℤ) - (y.get ⟨0, by decide⟩).toNat

lemma totalPreorder_compareBytes : TotalPreorder compareBytes :=
  .sub fun x : Element 1#32 => ((x.get ⟨0, by decide⟩).toNat : ℤ)

/-- Two bytes that have to be exchanged. -/
theorem sorts_descending : Sorts compareBytes 2#32 #v[2#8, 1#8] := by
  have hfit : (2#32).toNat * (1#32).toNat < 2 ^ 32 := by decide
  exact (sorts_iff totalPreorder_compareBytes hfit #v[2#8, 1#8]).mpr
    ⟨by decide, Or.inr ⟨1, by decide, by decide, by decide⟩⟩

/-- Two bytes that are in order. -/
theorem not_sorts_ascending : ¬Sorts compareBytes 2#32 #v[1#8, 2#8] := by
  rintro ⟨fuel, a', hrun, -⟩
  rw [qsort_eq_none totalPreorder_compareBytes (by decide) (by decide) (by decide)] at hrun
  · exact Option.some_ne_none a' hrun.symm
  · intro k hpos hk
    obtain rfl : k = 1 := Nat.le_antisymm (Nat.lt_succ_iff.mp hk) hpos
    decide

end MiqOSoft
