import MiqOSoft.Kernel.Heap
import MiqOSoft.Tiling.FirstFit

/-!
The block list in memory represents a segment list, and the loops of the handlers refine the
operations on segment lists.

* `Represents m a l`: the headers in `m` from address `a` on are those of the segment list
  `l`.  It depends on the header bytes only (`Represents.congr`).
* `mallocLoop_refines`, `mergeLoop_refines`: the search loop computes `Tiling.allocate` and
  the merge loop `Tiling.coalesce`, and both change header bytes only.
-/

namespace MiqOSoft

open Machine Tiling

/-! ### Representation -/

/-- The pointer to a segment list placed at `a`. -/
def listPtr (a : ℕ) : List Seg → Addr
  | [] => NULL
  | _ :: _ => BitVec.ofNat 32 a

/-- The value of `is_free`. -/
def freeFlag (b : Bool) : Word := if b then 1#32 else 0#32

/-- The headers in `m` from `a` on are those of the segment list. -/
def Represents (m : Memory) : ℕ → List Seg → Prop
  | _, [] => True
  | a, s :: l =>
      blockSize m (BitVec.ofNat 32 a) = BitVec.ofNat 32 s.len
        ∧ blockIsFree m (BitVec.ofNat 32 a) = freeFlag s.free
        ∧ blockNext m (BitVec.ofNat 32 a) = listPtr (a + 12 + s.len) l
        ∧ Represents m (a + 12 + s.len) l

/-- The bytes of the headers of a segment list placed at `a`. -/
def headerBytes (a : ℕ) (l : List Seg) : Set Addr :=
  {x | ∃ p ∈ placed 12 a l, x ∈ span (BitVec.ofNat 32 p.1) 12}

variable {m m' : Memory} {a f : ℕ} {l : List Seg} {s : Seg}

lemma listPtr_ne_null (ha : 0 < a) (hlt : a < 2 ^ 32) (hl : l ≠ []) : listPtr a l ≠ NULL := by
  cases l with
  | nil => exact absurd rfl hl
  | cons s l =>
      rw [listPtr, NULL]
      bv_omega

@[simp] lemma freeFlag_ne_zero {b : Bool} : freeFlag b ≠ 0#32 ↔ b = true := by
  cases b <;> simp [freeFlag]

lemma headerBytes_cons : headerBytes a (s :: l)
    = span (BitVec.ofNat 32 a) 12 ∪ headerBytes (a + 12 + s.len) l := by
  ext x
  simp [headerBytes]

/-- The pieces of a header lie in the header. -/
lemma headerWord_subset {k : ℕ} (hk : k + 4 ≤ 12) :
    span (BitVec.ofNat 32 a + BitVec.ofNat 32 k) 4 ⊆ span (BitVec.ofNat 32 a) 12 := by
  intro x hx
  rw [mem_span] at hx ⊢
  bv_omega

/-- The words of a header depend on its bytes only. -/
lemma blockWords_congr (hx : ∀ x ∈ span (BitVec.ofNat 32 a) 12, m x = m' x) :
    blockSize m (BitVec.ofNat 32 a) = blockSize m' (BitVec.ofNat 32 a)
      ∧ blockIsFree m (BitVec.ofNat 32 a) = blockIsFree m' (BitVec.ofNat 32 a)
      ∧ blockNext m (BitVec.ofNat 32 a) = blockNext m' (BitVec.ofNat 32 a) := by
  have hword : ∀ k, k + 4 ≤ 12 → load32 m (BitVec.ofNat 32 a + BitVec.ofNat 32 k)
      = load32 m' (BitVec.ofNat 32 a + BitVec.ofNat 32 k) := fun k hk =>
    load32_congr fun x hxs => hx x (headerWord_subset hk hxs)
  have h0 := hword 0 (by omega)
  rw [show BitVec.ofNat 32 a + BitVec.ofNat 32 0 = BitVec.ofNat 32 a by simp] at h0
  exact ⟨h0, hword 4 (by omega), hword 8 (by omega)⟩

/-- The representation depends on the header bytes only. -/
lemma Represents.congr (hx : ∀ x ∈ headerBytes a l, m x = m' x) (hrep : Represents m a l) :
    Represents m' a l := by
  induction l generalizing a with
  | nil => trivial
  | cons s l ih =>
      obtain ⟨hsize, hfree, hnext, hrest⟩ := hrep
      rw [headerBytes_cons] at hx
      obtain ⟨h0, h4, h8⟩ := blockWords_congr fun x hxa => hx x (Or.inl hxa)
      exact ⟨h0.symm.trans hsize, h4.symm.trans hfree, h8.symm.trans hnext,
        ih (fun x hxl => hx x (Or.inr hxl)) hrest⟩

/-- The blocks of a segment list placed at `a`. -/
def blocksOf : ℕ → List Seg → List Block
  | _, [] => []
  | a, s :: l =>
      ⟨BitVec.ofNat 32 a, BitVec.ofNat 32 s.len, freeFlag s.free, listPtr (a + 12 + s.len) l⟩
        :: blocksOf (a + 12 + s.len) l

/-- Following the list meets the blocks of the represented segments. -/
lemma blocksFrom_of_represents {f : ℕ} (hlen : l.length < f) (ha : 0 < a)
    (hext : a + extent 12 l ≤ 2 ^ 31) (hrep : Represents m a l) :
    blocksFrom f (listPtr a l) m = some (blocksOf a l) := by
  induction f generalizing a l with
  | zero => exact absurd hlen (Nat.not_lt_zero _)
  | succ f ih =>
      cases l with
      | nil => rfl
      | cons s l =>
          obtain ⟨hsize, hfree, hnext, hrest⟩ := hrep
          rw [extent_cons] at hext
          rw [List.length_cons] at hlen
          have hne : (listPtr a (s :: l)) ≠ NULL := listPtr_ne_null ha (by omega) (by simp)
          have htail := ih (by omega) (by omega) (by omega) hrest
          rw [blocksFrom, if_neg hne, listPtr, hsize, hfree, hnext, htail, blocksOf,
            Option.map_some]

/-! ### Header bytes -/

/-- Header bytes lie in the tiled interval. -/
lemma bounds_of_mem_headerBytes {x : Addr} (hext : a + extent 12 l ≤ 2 ^ 31)
    (hx : x ∈ headerBytes a l) : a ≤ x.toNat ∧ x.toNat < a + extent 12 l := by
  obtain ⟨⟨y, t⟩, hy, hxy⟩ := hx
  have hb := bounds_of_mem_placed hy
  rw [mem_span_iff (by simp only [BitVec.toNat_ofNat]; omega), BitVec.toNat_ofNat,
    Nat.mod_eq_of_lt (by omega)] at hxy
  omega

/-- The bytes of a header placed at `a` precede those of the list behind it. -/
lemma notMem_header_of_mem_headerBytes {x : Addr} {b : ℕ} (hext : b + extent 12 l ≤ 2 ^ 31)
    (hab : a + 12 ≤ b) (hx : x ∈ headerBytes b l) : x ∉ span (BitVec.ofNat 32 a) 12 := by
  have hb := bounds_of_mem_headerBytes hext hx
  rw [mem_span_iff (by simp only [BitVec.toNat_ofNat]; omega), BitVec.toNat_ofNat,
    Nat.mod_eq_of_lt (by omega)]
  omega

/-- Storing a header word changes the bytes of that header only. -/
lemma store32_of_notMem_header {c : ℕ} (hac : a ≤ c) (hca : c + 4 ≤ a + 12) (w : Word) {x : Addr}
    (hx : x ∉ span (BitVec.ofNat 32 a) 12) : store32 m (BitVec.ofNat 32 c) w x = m x := by
  refine store32_of_notMem w fun h => hx ?_
  obtain ⟨k, rfl⟩ := Nat.exists_eq_add_of_le hac
  rw [BitVec.ofNat_add] at h
  exact headerWord_subset (by omega) h

/-! ### Taking a block -/

/-- The stores of `takeBlock` when the block is split, with numeric addresses. -/
lemma takeBlock_split {n : ℕ} (hsize : blockSize m (BitVec.ofNat 32 a) = BitVec.ofNat 32 s.len)
    (hn : n + 12 + 32 < s.len) (hext : a + 12 + s.len ≤ 2 ^ 31) :
    takeBlock (BitVec.ofNat 32 n) (BitVec.ofNat 32 a) m
      = store32 (store32 (store32 (store32 (store32 (store32 m
          (BitVec.ofNat 32 (a + 4)) 0#32)
          (BitVec.ofNat 32 (a + 12 + n)) (BitVec.ofNat 32 (s.len - n - 12)))
          (BitVec.ofNat 32 (a + 12 + n + 4)) 1#32)
          (BitVec.ofNat 32 (a + 12 + n + 8)) (blockNext m (BitVec.ofNat 32 a)))
          (BitVec.ofNat 32 (a + 8)) (BitVec.ofNat 32 (a + 12 + n)))
          (BitVec.ofNat 32 a) (BitVec.ofNat 32 n) := by
  have hlt : BitVec.ofNat 32 n + sizeofHeapBlock + BLOCK_SIZE < BitVec.ofNat 32 s.len := by
    simp only [sizeofHeapBlock, BLOCK_SIZE]
    bv_omega
  have hsub : BitVec.ofNat 32 s.len - BitVec.ofNat 32 n - sizeofHeapBlock
      = BitVec.ofNat 32 (s.len - n - 12) := by
    simp only [sizeofHeapBlock]
    bv_omega
  have hnew : BitVec.ofNat 32 a + sizeofHeapBlock + BitVec.ofNat 32 n
      = BitVec.ofNat 32 (a + 12 + n) := by
    simp only [sizeofHeapBlock, BitVec.ofNat_add]
  simp only [blockSize] at hsize
  simp (disch := omega) only [takeBlock, setIsFree, setSize, setNext, blockSize, blockNext,
    ← BitVec.ofNat_add, hnew, load32_store32_ofNat, hsize, hlt, hsub, if_true]

/-- The store of `takeBlock` when the block is kept whole. -/
lemma takeBlock_whole {n : ℕ} (hsize : blockSize m (BitVec.ofNat 32 a) = BitVec.ofNat 32 s.len)
    (hle : n ≤ s.len) (hn : ¬n + 12 + 32 < s.len) (hext : a + 12 + s.len ≤ 2 ^ 31) :
    takeBlock (BitVec.ofNat 32 n) (BitVec.ofNat 32 a) m
      = store32 m (BitVec.ofNat 32 (a + 4)) 0#32 := by
  have hlt : ¬BitVec.ofNat 32 n + sizeofHeapBlock + BLOCK_SIZE < BitVec.ofNat 32 s.len := by
    simp only [sizeofHeapBlock, BLOCK_SIZE]
    bv_omega
  simp only [blockSize] at hsize
  simp (disch := omega) only [takeBlock, setIsFree, blockSize, ← BitVec.ofNat_add,
    load32_store32_ofNat, hsize, hlt, if_false]

/-- Taking a block changes its header and, if it is split, the header of the remainder. -/
lemma takeBlock_of_notMem {n : ℕ} {x : Addr}
    (hsize : blockSize m (BitVec.ofNat 32 a) = BitVec.ofNat 32 s.len) (hle : n ≤ s.len)
    (hext : a + 12 + s.len ≤ 2 ^ 31) (hxa : x ∉ span (BitVec.ofNat 32 a) 12)
    (hxn : n + 12 + 32 < s.len → x ∉ span (BitVec.ofNat 32 (a + 12 + n)) 12) :
    takeBlock (BitVec.ofNat 32 n) (BitVec.ofNat 32 a) m x = m x := by
  by_cases hn : n + 12 + 32 < s.len
  · have hxn := hxn hn
    rw [takeBlock_split hsize hn hext,
      store32_of_notMem_header (le_refl a) (by omega) _ hxa,
      store32_of_notMem_header (by omega) (by omega) _ hxa,
      store32_of_notMem_header (by omega) (by omega) _ hxn,
      store32_of_notMem_header (by omega) (by omega) _ hxn,
      store32_of_notMem_header (le_refl _) (by omega) _ hxn,
      store32_of_notMem_header (by omega) (by omega) _ hxa]
  · rw [takeBlock_whole hsize hle hn hext, store32_of_notMem_header (by omega) (by omega) _ hxa]

/-- Bytes outside the headers of the carved list are kept. -/
lemma takeBlock_of_notMem_headerBytes {n : ℕ} {x : Addr}
    (hsize : blockSize m (BitVec.ofNat 32 a) = BitVec.ofNat 32 s.len) (hle : n ≤ s.len)
    (hext : a + 12 + s.len ≤ 2 ^ 31) (hx : x ∉ headerBytes a (carve 12 32 n s ++ l)) :
    takeBlock (BitVec.ofNat 32 n) (BitVec.ofNat 32 a) m x = m x := by
  rw [carve] at hx
  split_ifs at hx with hn
  · rw [List.cons_append, List.cons_append, headerBytes_cons, headerBytes_cons, Set.mem_union,
      Set.mem_union, not_or, not_or] at hx
    exact takeBlock_of_notMem hsize hle hext hx.1 fun _ => hx.2.1
  · rw [List.cons_append, headerBytes_cons, Set.mem_union, not_or] at hx
    exact takeBlock_of_notMem hsize hle hext hx.1 fun h => absurd h hn

/-- Taking the block of the head segment represents the carved list. -/
lemma Represents.takeBlock {n : ℕ} (hrep : Represents m a (s :: l)) (hle : n ≤ s.len)
    (hext : a + extent 12 (s :: l) ≤ 2 ^ 31) :
    Represents (takeBlock (BitVec.ofNat 32 n) (BitVec.ofNat 32 a) m) a (carve 12 32 n s ++ l) := by
  obtain ⟨hsize, -, hnext, hrest⟩ := hrep
  rw [extent_cons] at hext
  have hext' : a + 12 + s.len ≤ 2 ^ 31 := by omega
  have hrest' : Represents (MiqOSoft.takeBlock (BitVec.ofNat 32 n) (BitVec.ofNat 32 a) m)
      (a + 12 + s.len) l := by
    refine Represents.congr
      (fun x hx => (takeBlock_of_notMem hsize hle hext' ?_ fun hn => ?_).symm) hrest
    · exact notMem_header_of_mem_headerBytes (by omega) (by omega) hx
    · exact notMem_header_of_mem_headerBytes (by omega) (by omega) hx
  simp only [blockSize, blockNext, ← BitVec.ofNat_add] at hsize hnext
  rw [carve]
  split_ifs with hn
  · have hend : a + 12 + n + 12 + (s.len - n - 12) = a + 12 + s.len := by omega
    rw [takeBlock_split hsize hn hext'] at hrest' ⊢
    simp only [List.cons_append, List.nil_append, Represents, hend]
    refine ⟨?_, ?_, ?_, ?_, ?_, ?_, hrest'⟩ <;>
      simp (disch := omega) only [blockSize, blockIsFree, blockNext, ← BitVec.ofNat_add,
        load32_store32_self, load32_store32_ofNat, hnext] <;> rfl
  · rw [takeBlock_whole hsize hle hn hext'] at hrest' ⊢
    simp only [List.cons_append, List.nil_append, Represents]
    refine ⟨?_, ?_, ?_, hrest'⟩ <;>
      simp (disch := omega) only [blockSize, blockIsFree, blockNext, ← BitVec.ofNat_add,
        load32_store32_self, load32_store32_ofNat, hnext, hsize]
    rfl

/-! ### The search loop -/

/-- The test of the search loop, on the represented segment. -/
lemma fits_iff {n : ℕ} (hsize : blockSize m (BitVec.ofNat 32 a) = BitVec.ofNat 32 s.len)
    (hfree : blockIsFree m (BitVec.ofNat 32 a) = freeFlag s.free) (hn : n < 2 ^ 32)
    (hlen : s.len < 2 ^ 32) :
    (blockIsFree m (BitVec.ofNat 32 a) ≠ 0#32
        ∧ BitVec.ofNat 32 n ≤ blockSize m (BitVec.ofNat 32 a))
      ↔ (s.free = true ∧ n ≤ s.len) := by
  rw [hsize, hfree, freeFlag_ne_zero, BitVec.le_def, BitVec.toNat_ofNat, BitVec.toNat_ofNat,
    Nat.mod_eq_of_lt hn, Nat.mod_eq_of_lt hlen]

/-- The search loop at a nonempty list. -/
lemma mallocLoop_cons {n : ℕ} (ha : 0 < a) (hext : a + extent 12 (s :: l) ≤ 2 ^ 31)
    (hn : n < 2 ^ 32) (hrep : Represents m a (s :: l)) :
    mallocLoop (BitVec.ofNat 32 n) (f + 1) (listPtr a (s :: l)) m
      = if s.free = true ∧ n ≤ s.len then
          some (BitVec.ofNat 32 (a + 12), takeBlock (BitVec.ofNat 32 n) (BitVec.ofNat 32 a) m)
        else mallocLoop (BitVec.ofNat 32 n) f (listPtr (a + 12 + s.len) l) m := by
  obtain ⟨hsize, hfree, hnext, -⟩ := hrep
  rw [extent_cons] at hext
  have hne : BitVec.ofNat 32 a ≠ NULL := listPtr_ne_null (l := [s]) ha (by omega) (by simp)
  have hadd : BitVec.ofNat 32 a + sizeofHeapBlock = BitVec.ofNat 32 (a + 12) := by
    rw [BitVec.ofNat_add, sizeofHeapBlock]
  rw [listPtr, mallocLoop, if_neg hne, hnext, hadd]
  exact if_congr (fits_iff hsize hfree hn (by omega)) rfl rfl

/-- The search loop fails when first fit does. -/
lemma mallocLoop_of_allocate_none {n f : ℕ} (hn : n < 2 ^ 32) (hlen : l.length < f) (ha : 0 < a)
    (hext : a + extent 12 l ≤ 2 ^ 31) (hrep : Represents m a l)
    (hal : allocate 12 32 n a l = none) :
    mallocLoop (BitVec.ofNat 32 n) f (listPtr a l) m = some (NULL, m) := by
  induction f generalizing a l with
  | zero => exact absurd hlen (Nat.not_lt_zero _)
  | succ f ih =>
      cases l with
      | nil => rfl
      | cons s l =>
          rw [mallocLoop_cons ha hext hn hrep]
          rw [allocate] at hal
          rw [extent_cons] at hext
          rw [List.length_cons] at hlen
          split_ifs at hal with hs
          rw [if_neg hs]
          exact ih (by omega) (by omega) (by omega) hrep.2.2.2 (Option.map_eq_none_iff.mp hal)

/-- **The search loop refines first fit**: it returns the payload of the segment taken, its
memory represents the new list, and it has written header bytes of that list only. -/
theorem mallocLoop_refines {n x f : ℕ} {l' : List Seg} (hn : n < 2 ^ 32) (hlen : l.length < f)
    (ha : 0 < a) (hext : a + extent 12 l ≤ 2 ^ 31) (hrep : Represents m a l)
    (hal : allocate 12 32 n a l = some (x, l')) :
    ∃ m', mallocLoop (BitVec.ofNat 32 n) f (listPtr a l) m = some (BitVec.ofNat 32 (x + 12), m')
      ∧ Represents m' a l' ∧ ∀ y ∉ headerBytes a l', m' y = m y := by
  induction f generalizing a l l' with
  | zero => exact absurd hlen (Nat.not_lt_zero _)
  | succ f ih =>
      cases l with
      | nil => simp [allocate] at hal
      | cons s l =>
          have hcons := mallocLoop_cons (f := f) ha hext hn hrep
          have hext' := hext
          rw [extent_cons] at hext'
          rw [List.length_cons] at hlen
          rw [allocate] at hal
          split_ifs at hal with hs
          · obtain ⟨rfl, rfl⟩ := Prod.mk.injEq .. ▸ Option.some.inj hal
            rw [if_pos hs] at hcons
            exact ⟨_, hcons, hrep.takeBlock hs.2 hext,
              fun y hy => takeBlock_of_notMem_headerBytes hrep.1 hs.2 (by omega) hy⟩
          · obtain ⟨⟨z, r⟩, hr, heq⟩ := Option.map_eq_some_iff.mp hal
            obtain ⟨rfl, rfl⟩ := Prod.mk.injEq .. ▸ heq
            rw [if_neg hs] at hcons
            obtain ⟨hsize, hfree, hnext, hrest⟩ := hrep
            obtain ⟨m', hloop, hrep', hframe⟩ := ih (by omega) (by omega) (by omega) hrest hr
            have hspec := allocate_spec hr
            have hextr : a + 12 + s.len + extent 12 r ≤ 2 ^ 31 := by
              rw [hspec.extent_eq]
              omega
            refine ⟨m', hcons.trans hloop, ?_, ?_⟩
            · -- the header in front is not written, and the list behind it stays nonempty
              obtain ⟨h0, h4, h8⟩ := blockWords_congr (a := a) fun y hy =>
                hframe y fun h => notMem_header_of_mem_headerBytes hextr (by omega) h hy
              obtain ⟨u, u', v, v', rfl, rfl, -⟩ := head_free_of_allocate hr
              exact ⟨h0.trans hsize, h4.trans hfree, h8.trans hnext, hrep'⟩
            · intro y hy
              rw [headerBytes_cons, Set.mem_union, not_or] at hy
              exact hframe y hy.2

/-! ### The merge loop -/

/-- Merging the block at `a` with its free successor. -/
lemma Represents.merge {t : Seg} (hrep : Represents m a (s :: t :: l))
    (hext : a + extent 12 (s :: t :: l) ≤ 2 ^ 31) (hs : s.free = true) :
    Represents (store32 (store32 m (BitVec.ofNat 32 a) (BitVec.ofNat 32 (s.len + t.len + 12)))
      (BitVec.ofNat 32 (a + 8)) (blockNext m (BitVec.ofNat 32 (a + 12 + s.len))))
      a (⟨s.len + t.len + 12, true⟩ :: l) := by
  obtain ⟨-, hfree, -, -, -, hnext', hrest⟩ := hrep
  simp only [extent_cons] at hext
  have hend : a + 12 + (s.len + t.len + 12) = a + 12 + s.len + 12 + t.len := by omega
  rw [hs] at hfree
  simp only [blockIsFree, ← BitVec.ofNat_add] at hfree
  refine ⟨?_, ?_, ?_, ?_⟩
  · simp (disch := omega) only [blockSize, load32_store32_self, load32_store32_ofNat]
  · simp (disch := omega) only [blockIsFree, ← BitVec.ofNat_add, load32_store32_ofNat, hfree]
  · rw [hend, ← hnext']
    simp only [blockNext, ← BitVec.ofNat_add, load32_store32_self]
  · rw [hend]
    refine Represents.congr (fun x hx => ?_) hrest
    have hxa : x ∉ span (BitVec.ofNat 32 a) 12 :=
      notMem_header_of_mem_headerBytes (by omega) (by omega) hx
    rw [store32_of_notMem_header (by omega) (by omega) _ hxa,
      store32_of_notMem_header (le_refl a) (by omega) _ hxa]

/-- The merge loop at a list with two blocks or more. -/
lemma mergeLoop_cons_cons {t : Seg} (ha : 0 < a) (hext : a + extent 12 (s :: t :: l) ≤ 2 ^ 31)
    (hrep : Represents m a (s :: t :: l)) :
    mergeLoop (f + 1) (BitVec.ofNat 32 a) m
      = if s.free = true ∧ t.free = true then
          mergeLoop f (BitVec.ofNat 32 a)
            (store32 (store32 m (BitVec.ofNat 32 a) (BitVec.ofNat 32 (s.len + t.len + 12)))
              (BitVec.ofNat 32 (a + 8)) (blockNext m (BitVec.ofNat 32 (a + 12 + s.len))))
        else mergeLoop f (BitVec.ofNat 32 (a + 12 + s.len)) m := by
  obtain ⟨hsize, hfree, hnext, hsize', hfree', -, -⟩ := hrep
  simp only [extent_cons] at hext
  have hne : BitVec.ofNat 32 a ≠ NULL := listPtr_ne_null (l := [s]) ha (by omega) (by simp)
  have hne' : BitVec.ofNat 32 (a + 12 + s.len) ≠ NULL :=
    listPtr_ne_null (l := [t]) (by omega) (by omega) (by simp)
  have hsum : BitVec.ofNat 32 s.len + (BitVec.ofNat 32 t.len + sizeofHeapBlock)
      = BitVec.ofNat 32 (s.len + t.len + 12) := by
    rw [sizeofHeapBlock]
    bv_omega
  rw [listPtr] at hnext
  rw [mergeLoop, hnext, if_neg (by simp only [hne, hne', or_self, not_false_eq_true])]
  dsimp only
  rw [hfree, hfree', hsize, hsize', hsum]
  refine if_congr (and_congr freeFlag_ne_zero freeFlag_ne_zero) ?_ rfl
  simp only [blockNext, ← BitVec.ofNat_add] at hnext
  simp (disch := omega) only [setSize, setNext, blockNext, ← BitVec.ofNat_add,
    load32_store32_ofNat, hnext]

/-- **The merge loop refines coalescing**, writing header bytes of the list only. -/
theorem mergeLoop_refines : ∀ {f a : ℕ} {s : Seg} {l : List Seg} {m : Memory},
    l.length < f → 0 < a → a + extent 12 (s :: l) ≤ 2 ^ 31 → Represents m a (s :: l) →
      ∃ m', mergeLoop f (BitVec.ofNat 32 a) m = some m'
        ∧ Represents m' a (coalesceFrom 12 s l) ∧ ∀ x ∉ headerBytes a (s :: l), m' x = m x := by
  intro f a s l
  induction l generalizing f a s with
  | nil =>
      intro m hlen _ _ hrep
      obtain ⟨f, rfl⟩ := Nat.exists_eq_add_of_lt hlen
      refine ⟨m, ?_, hrep, fun _ _ => rfl⟩
      have hnext : blockNext m (BitVec.ofNat 32 a) = NULL := hrep.2.2.1
      rw [mergeLoop, if_pos (Or.inr hnext)]
  | cons t l ih =>
      intro m hlen ha hext hrep
      rw [List.length_cons] at hlen
      obtain ⟨f, rfl⟩ := Nat.exists_eq_succ_of_ne_zero (show f ≠ 0 by omega)
      have hcons := mergeLoop_cons_cons (f := f) ha hext hrep
      have hext' := hext
      simp only [extent_cons] at hext'
      rw [coalesceFrom]
      split_ifs with hst
      · rw [if_pos hst] at hcons
        have hrep' := hrep.merge hext hst.1
        obtain ⟨m', hloop, hrep'', hframe⟩ := ih (f := f) (by omega) ha
          (by simp only [extent_cons]; omega) hrep'
        refine ⟨m', hcons.trans hloop, hrep'', fun x hx => ?_⟩
        rw [headerBytes_cons, headerBytes_cons, Set.mem_union, Set.mem_union, not_or, not_or] at hx
        obtain ⟨hxa, -, hxl⟩ := hx
        rw [hframe x ?_, store32_of_notMem_header (by omega) (by omega) _ hxa,
          store32_of_notMem_header (le_refl a) (by omega) _ hxa]
        rw [headerBytes_cons, Set.mem_union, not_or]
        refine ⟨hxa, ?_⟩
        rwa [show a + 12 + (s.len + t.len + 12) = a + 12 + s.len + 12 + t.len by omega]
      · rw [if_neg hst] at hcons
        obtain ⟨hsize, hfree, hnext, hrest⟩ := hrep
        obtain ⟨m', hloop, hrep', hframe⟩ := ih (f := f) (s := t) (by omega) (by omega)
          (by simp only [extent_cons]; omega) hrest
        refine ⟨m', hcons.trans hloop, ?_, fun x hx => ?_⟩
        · obtain ⟨h0, h4, h8⟩ := blockWords_congr (a := a) fun y hy => hframe y fun h =>
            notMem_header_of_mem_headerBytes (by simp only [extent_cons]; omega) (by omega) h hy
          obtain ⟨n, r, hcf⟩ := coalesceFrom_eq_cons (h := 12) t l
          rw [hcf] at hrep' ⊢
          exact ⟨h0.trans hsize, h4.trans hfree, h8.trans hnext, hrep'⟩
        · rw [headerBytes_cons, Set.mem_union, not_or] at hx
          exact hframe x hx.2

end MiqOSoft
