import MiqOSoft.Kernel.HeapRefinement

/-!
What the heap handlers do, on heaps that model an arena.

* `Heap.Models k l`: the heap is set up and its block list is the arena `l` at `HEAP_START`,
  in numbers the interval of `0x100000` addresses from `0x400000` on.
* `heapInit_models`, `sysHandlerMalloc_spec`, `sysHandlerFree_spec`: initialisation creates
  the single free block, a request is granted by first fit or refused without effect
  (`Malloc`), and a release frees its block and coalesces.  Every call returns.
* `sysHandlerFree_apart`: what the release of other pointers does, for instance outside of the
  heap: it writes the word eight bytes in front of the pointer, and the arena stays.
-/

namespace MiqOSoft

open Machine Tiling

/-- The length a request of `n` bytes is rounded to. -/
def request (n : Word) : ℕ := (n.toNat + 31) % 2 ^ 32 / 32 * 32

/-- The heap is set up, and its block list is the arena `l`. -/
structure Heap.Models (k : Heap) (l : List Seg) : Prop where
  initialized : k.heapInitialized = true
  start : k.heapStart = HEAP_START
  rep : Represents k.mem 0x400000 l
  arena : IsArena 12 4 0x100000 l

/-- The rounding of `sys_handler_malloc` in numbers. -/
lemma alignSize_eq (n : Word) : alignSize n = BitVec.ofNat 32 (request n) := by
  have hadd : (n + BLOCK_SIZE - 1#32).toNat = (n.toNat + 31) % 2 ^ 32 := by
    simp only [BLOCK_SIZE]
    bv_omega
  have hmask : BLOCK_SIZE - 1#32 = BitVec.ofNat 32 (2 ^ 5 - 1) := by decide
  have hround := toNat_and_not_lowMask (n + BLOCK_SIZE - 1#32) (k := 5)
  refine BitVec.eq_of_toNat_eq ?_
  rw [alignSize, hmask] at *
  rw [hround, BitVec.toNat_ofNat, request]
  omega

lemma request_lt (n : Word) : request n < 2 ^ 32 := by
  rw [request]
  omega

/-- The rounding is up, unless it wraps. -/
lemma le_request {n : Word} (hn : n.toNat ≤ 0xFFFFFFE0) : n.toNat ≤ request n := by
  rw [request]
  omega

/-- At the top of the range the rounding wraps to zero. -/
lemma request_eq_zero {n : Word} (hn : 0xFFFFFFE0 < n.toNat) : request n = 0 := by
  have := n.isLt
  rw [request]
  omega

lemma four_dvd_request (n : Word) : 4 ∣ request n + 12 := by
  rw [request]
  omega

namespace Heap.Models

variable {k : Heap} {l : List Seg}

lemma length_lt (hk : k.Models l) : l.length < heapFuel := by
  have h1 := length_mul_le_extent (h := 12) (l := l)
  have h2 := hk.arena.extent_eq
  rw [heapFuel]
  omega

lemma extent_le (hk : k.Models l) : 0x400000 + extent 12 l ≤ 2 ^ 31 := by
  rw [hk.arena.extent_eq]
  omega

lemma start_eq (hk : k.Models l) : k.heapStart = listPtr 0x400000 l := by
  cases l with
  | nil => exact absurd rfl hk.arena.ne_nil
  | cons s l => exact hk.start

/-- The list can be read back. -/
lemma blocks_eq (hk : k.Models l) : k.blocks = some (blocksOf 0x400000 l) := by
  rw [Heap.blocks, hk.start_eq]
  exact blocksFrom_of_represents hk.length_lt (by omega) hk.extent_le hk.rep

/-- A used block is not at the null pointer, and its payload ends with the heap or before. -/
lemma used_bounds (hk : k.Models l) {x n : ℕ} (hx : (x, n) ∈ used 12 0x400000 l) :
    0x400000 ≤ x ∧ x + 12 + n ≤ 0x400000 + 0x100000 := by
  have hb := bounds_of_mem_placed hx
  rw [hk.arena.extent_eq] at hb
  exact hb

end Heap.Models

/-! ### Initialisation -/

/-- Setting up a heap makes one free block of it. -/
theorem heapInit_models {k : Heap} (hk : k.heapInitialized = false) :
    (heapInit k).Models [⟨0x100000 - 12, true⟩] := by
  have hstart : HEAP_START = BitVec.ofNat 32 0x400000 := rfl
  have hsize : HEAP_SIZE - sizeofHeapBlock = BitVec.ofNat 32 (0x100000 - 12) := by decide
  have hinit : heapInit k
      = ⟨setNext (setIsFree (setSize k.mem HEAP_START (HEAP_SIZE - sizeofHeapBlock))
          HEAP_START 1#32) HEAP_START NULL, HEAP_START, true⟩ := by
    rw [heapInit, hk]
    rfl
  refine ⟨by rw [hinit], by rw [hinit], ?_, IsArena.singleton (by decide) (by decide)⟩
  rw [hinit]
  refine ⟨?_, ?_, ?_, trivial⟩ <;>
    simp (disch := decide) only [setNext, setIsFree, setSize, blockSize, blockIsFree, blockNext,
      hstart, hsize, ← BitVec.ofNat_add, load32_store32_self, load32_store32_ofNat]
  all_goals rfl

lemma heapInit_of_initialized {k : Heap} (hk : k.heapInitialized = true) : heapInit k = k := by
  rw [heapInit, if_pos hk]

/-! ### Requests -/

/-- The possible outcomes of a request: it is refused, for want of a fitting free block or
because nothing was asked for, or a block is cut out by first fit. -/
inductive Malloc (l : List Seg) (n : Word) : Addr → List Seg → Prop
  | refused (h : n = 0#32 ∨ ∀ s ∈ l, s.free = true → s.len < request n) : Malloc l n NULL l
  | granted {x : ℕ} {l' : List Seg} (hn : n ≠ 0#32)
      (h : Taken 12 32 (request n) 0x400000 l x l') : Malloc l n (BitVec.ofNat 32 (x + 12)) l'

/-- **A request returns**: with an outcome of `Malloc`, on a heap modelling the new list, having
written header bytes of that list only; a refused request leaves the heap as it is. -/
theorem sysHandlerMalloc_spec {k : Heap} {l : List Seg} (hk : k.Models l) (n : Word) :
    ∃ p k' l', sysHandlerMalloc n k = some (p, k') ∧ k'.Models l' ∧ Malloc l n p l'
      ∧ (∀ y ∉ headerBytes 0x400000 l', k'.mem y = k.mem y) ∧ (p = NULL → k' = k) := by
  have hmalloc : sysHandlerMalloc n k = if n = 0#32 then some (NULL, k)
      else (mallocLoop (BitVec.ofNat 32 (request n)) heapFuel (listPtr 0x400000 l) k.mem).map
        fun r => (r.1, { k with mem := r.2 }) := by
    rw [sysHandlerMalloc, heapInit_of_initialized hk.initialized, hk.start_eq, alignSize_eq]
  by_cases hn : n = 0#32
  · rw [if_pos hn] at hmalloc
    exact ⟨NULL, k, l, hmalloc, hk, .refused (Or.inl hn), fun _ _ => rfl, fun _ => rfl⟩
  rw [if_neg hn] at hmalloc
  cases hal : allocate 12 32 (request n) 0x400000 l with
  | none =>
      rw [mallocLoop_of_allocate_none (request_lt n) hk.length_lt (by omega) hk.extent_le hk.rep
        hal] at hmalloc
      exact ⟨NULL, k, l, hmalloc, hk, .refused (Or.inr (allocate_eq_none_iff.mp hal)),
        fun _ _ => rfl, fun _ => rfl⟩
  | some r =>
      obtain ⟨x, l'⟩ := r
      obtain ⟨m', hloop, hrep, hframe⟩ :=
        mallocLoop_refines (request_lt n) hk.length_lt (by omega) hk.extent_le hk.rep hal
      have htaken := allocate_spec hal
      rw [hloop] at hmalloc
      refine ⟨_, { k with mem := m' }, l', hmalloc, ?_, .granted hn htaken, hframe, ?_⟩
      · exact ⟨hk.initialized, hk.start, hrep, hk.arena.allocate (four_dvd_request n) hal⟩
      · intro hnull
        obtain ⟨s, hs, -⟩ := htaken.source
        have hb := bounds_of_mem_placed hs
        rw [hk.arena.extent_eq] at hb
        rw [NULL] at hnull
        bv_omega

/-! ### Releases -/

/-- Marking the block of a placed segment free represents the released list. -/
lemma Represents.release {m : Memory} {x a : ℕ} {s : Seg} {l : List Seg}
    (hx : (x, s) ∈ placed 12 a l) (hext : a + extent 12 l ≤ 2 ^ 31) (hrep : Represents m a l) :
    Represents (store32 m (BitVec.ofNat 32 (x + 4)) 1#32) a (release 12 x a l) := by
  induction l generalizing a with
  | nil => simp at hx
  | cons t l ih =>
      obtain ⟨hsize, hfree, hnext, hrest⟩ := hrep
      rw [extent_cons] at hext
      simp only [blockSize, blockIsFree, blockNext, ← BitVec.ofNat_add] at hsize hfree hnext
      rw [Tiling.release]
      split_ifs with hax
      · subst hax
        refine ⟨?_, ?_, ?_, ?_⟩
        · simp (disch := omega) only [blockSize, load32_store32_ofNat, hsize]
        · simp only [blockIsFree, ← BitVec.ofNat_add, load32_store32_self]
          rfl
        · simp (disch := omega) only [blockNext, ← BitVec.ofNat_add, load32_store32_ofNat, hnext]
        · refine Represents.congr (fun y hy => ?_) hrest
          change y ∈ headerBytes (a + 12 + t.len) l at hy
          have hya := notMem_header_of_mem_headerBytes (a := a) (by omega) (by omega) hy
          rw [store32_of_notMem_header (by omega) (by omega) _ hya]
      · have hx' : (x, s) ∈ placed 12 (a + 12 + t.len) l := by
          rcases mem_placed_cons.mp hx with heq | hx'
          · exact absurd (Prod.mk.injEq .. ▸ heq).1.symm hax
          · exact hx'
        have hb := bounds_of_mem_placed hx'
        refine ⟨?_, ?_, ?_, ih hx' (by omega) hrest⟩
        · simp (disch := omega) only [blockSize, load32_store32_ofNat, hsize]
        · simp (disch := omega) only [blockIsFree, ← BitVec.ofNat_add, load32_store32_ofNat, hfree]
        · simp (disch := omega) only [blockNext, ← BitVec.ofNat_add, load32_store32_ofNat, hnext]
          cases l with
          | nil => simp at hx'
          | cons u l =>
              rw [Tiling.release]
              split_ifs <;> rfl

/-- **The release of a used block returns**: the block is freed, free neighbours are merged,
and header bytes of the list only are written. -/
theorem sysHandlerFree_spec {k : Heap} {l : List Seg} {x n : ℕ} (hk : k.Models l)
    (hx : (x, n) ∈ used 12 0x400000 l) :
    ∃ k', sysHandlerFree (BitVec.ofNat 32 (x + 12)) k = some (SYSCALL_OK, k')
      ∧ k'.Models (coalesce 12 (release 12 x 0x400000 l))
      ∧ ∀ y ∉ headerBytes 0x400000 l, k'.mem y = k.mem y := by
  have hb := hk.used_bounds hx
  have hext := hk.extent_le
  have hne : ¬(BitVec.ofNat 32 (x + 12) = NULL ∨ k.heapInitialized = false) := by
    rw [hk.initialized, NULL]
    have : BitVec.ofNat 32 (x + 12) ≠ 0#32 := by bv_omega
    simp [this]
  have hblock : BitVec.ofNat 32 (x + 12) - sizeofHeapBlock + 4#32 = BitVec.ofNat 32 (x + 4) := by
    rw [sizeofHeapBlock]
    bv_omega
  have hrel := Represents.release hx hext hk.rep
  have hlen : (release 12 x 0x400000 l).length < heapFuel := by
    have h1 := length_mul_le_extent (h := 12) (l := release 12 x 0x400000 l)
    rw [extent_release, hk.arena.extent_eq] at h1
    rw [heapFuel]
    omega
  obtain ⟨s, r, hcons⟩ := List.exists_cons_of_ne_nil
    (release_ne_nil (h := 12) (x := x) (a := 0x400000) hk.arena.ne_nil)
  have hrext : 0x400000 + extent 12 (s :: r) ≤ 2 ^ 31 := by
    rw [← hcons, extent_release]
    exact hext
  rw [hcons] at hrel hlen
  rw [List.length_cons] at hlen
  obtain ⟨m', hloop, hrep, hframe⟩ :=
    mergeLoop_refines (l := r) (f := heapFuel) (by omega) (by omega) hrext hrel
  refine ⟨{ k with mem := m' }, ?_, ⟨hk.initialized, hk.start, ?_, hk.arena.release⟩,
    fun y hy => ?_⟩
  · simp only [sysHandlerFree, if_neg hne, setIsFree, hblock, hk.start]
    exact congrArg (Option.map _) hloop
  · rw [hcons]
    exact hrep
  · have hyr : y ∉ headerBytes 0x400000 (s :: r) := by
      rintro ⟨⟨z, u⟩, hz, hyz⟩
      rw [← hcons] at hz
      obtain ⟨u', hu', -⟩ := mem_placed_release hz
      exact hy ⟨(z, u'), hu', hyz⟩
    have hyx : y ∉ span (BitVec.ofNat 32 x) 12 := fun h => hy ⟨(x, ⟨n, false⟩), hx, h⟩
    exact (hframe y hyr).trans (store32_of_notMem_header (by omega) (by omega) _ hyx)

/-- The used blocks after a release. -/
lemma used_release_coalesce {l : List Seg} (x : ℕ) :
    used 12 0x400000 (coalesce 12 (release 12 x 0x400000 l))
      = used 12 0x400000 l \ {p | p.1 = x} := by
  rw [used_coalesce, used_release (by omega)]

/-- **The release of any other pointer**: if the word eight bytes in front of it is in no header,
the word is written, and the heap keeps its list. -/
theorem sysHandlerFree_apart {k : Heap} {l : List Seg} {ptr : Addr} (hk : k.Models l)
    (hptr : ptr ≠ NULL) (hapart : ∀ y ∈ headerBytes 0x400000 l, y ∉ span (ptr - 8#32) 4) :
    ∃ k', sysHandlerFree ptr k = some (SYSCALL_OK, k') ∧ k'.Models l
      ∧ ∀ y ∉ headerBytes 0x400000 l, k'.mem y = store32 k.mem (ptr - 8#32) 1#32 y := by
  have hne : ¬(ptr = NULL ∨ k.heapInitialized = false) := by
    simp [hk.initialized, hptr]
  have hblock : ptr - sizeofHeapBlock + 4#32 = ptr - 8#32 := by
    rw [sizeofHeapBlock]
    bv_omega
  have hrep : Represents (store32 k.mem (ptr - 8#32) 1#32) 0x400000 l :=
    Represents.congr (fun y hy => (store32_of_notMem _ (hapart y hy)).symm) hk.rep
  obtain ⟨s, r, rfl⟩ := List.exists_cons_of_ne_nil hk.arena.ne_nil
  have hlen := hk.length_lt
  rw [List.length_cons] at hlen
  obtain ⟨m', hloop, hrep', hframe⟩ :=
    mergeLoop_refines (l := r) (f := heapFuel) (by omega) (by omega) hk.extent_le hrep
  rw [coalesceFrom_of_coalesced hk.arena.coalesced] at hrep'
  refine ⟨{ k with mem := m' }, ?_, ⟨hk.initialized, hk.start, hrep', hk.arena⟩, hframe⟩
  simp only [sysHandlerFree, if_neg hne, setIsFree, hblock, hk.start]
  exact congrArg (Option.map _) hloop

/-- A pointer outside the heap is one of them. -/
theorem sysHandlerFree_outside {k : Heap} {l : List Seg} {ptr : Addr} (hk : k.Models l)
    (hptr : 12 ≤ ptr.toNat) (hout : ptr.toNat ≤ 0x400000) :
    ∃ k', sysHandlerFree ptr k = some (SYSCALL_OK, k') ∧ k'.Models l
      ∧ ∀ y ∉ headerBytes 0x400000 l, k'.mem y = store32 k.mem (ptr - 8#32) 1#32 y := by
  refine sysHandlerFree_apart hk ?_ fun y hy => ?_
  · rw [NULL]
    bv_omega
  · have hb := bounds_of_mem_headerBytes hk.extent_le hy
    rw [mem_span_iff (by bv_omega)]
    bv_omega

end MiqOSoft
