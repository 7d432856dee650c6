import MiqOSoft.Kernel.HeapBlocks

/-!
Releases of pointers that are not allocated: `sys_handler_free` after any sequence of calls.

* `Heap.IsPayload`: the pointer is the payload address of an allocated block of the list.
* `HeapHistory`: any requests, and any releases, after the heap is set up.
* `free_rejects_iff`: a pointer that is not allocated is refused exactly if it is `NULL`.
* `Heap.Models.free_inside`: a pointer into an allocated block is accepted, and a word of the block
  is overwritten.
-/

namespace MiqOSoft

open Machine Tiling Transition

/-- The pointer is the payload address of an allocated block of the list. -/
def Heap.IsPayload (k : Heap) (ptr : Addr) : Prop :=
  ∃ bs, k.blocks = some bs ∧ ∃ b ∈ bs, b.isFree = 0#32 ∧ b.payload = ptr

/-- The release is refused, and nothing is changed. -/
def Heap.Rejects (k : Heap) (ptr : Addr) : Prop :=
  sysHandlerFree ptr k = some (SYSCALL_INVALID_PARAMS, k)

/-- Any calls, that all return, lead to `w` from the heap that `syscall_initialize` sets up. -/
abbrev HeapHistory (k : Heap) (cs : List HeapCall) (w : HeapWorld) : Prop :=
  Run HeapWorld.step (fun _ _ => True) (HeapWorld.boot k) cs w

variable {k : Heap} {cs : List HeapCall} {w w' : HeapWorld} {c : HeapCall} {l : List Seg}
  {p ptr : Addr} {n : ℕ}

/-! ### The answer -/

lemma heapInitialized_heapInit (k : Heap) : (heapInit k).heapInitialized = true := by
  rw [heapInit]
  split_ifs with h
  · exact h
  · rfl

/-- No call takes the heap down. -/
lemma heapInitialized_step (hw : w.heap.heapInitialized = true)
    (hs : HeapWorld.step w c = some w') : w'.heap.heapInitialized = true := by
  cases c with
  | malloc size =>
      obtain ⟨r, hr, rfl⟩ := Option.map_eq_some_iff.mp hs
      simp only [sysHandlerMalloc] at hr
      split_ifs at hr with hsize
      · rw [← Option.some.inj hr]
        exact heapInitialized_heapInit w.heap
      · obtain ⟨u, -, rfl⟩ := Option.map_eq_some_iff.mp hr
        exact heapInitialized_heapInit w.heap
  | free p =>
      obtain ⟨r, hr, rfl⟩ := Option.map_eq_some_iff.mp hs
      rw [sysHandlerFree] at hr
      split_ifs at hr with hguard
      · rw [← Option.some.inj hr]
        exact hw
      · obtain ⟨m, -, rfl⟩ := Option.map_eq_some_iff.mp hr
        exact hw

/-- **The heap stays set up**, whatever is requested and released. -/
lemma HeapHistory.heapInitialized (hrun : HeapHistory k cs w) :
    w.heap.heapInitialized = true :=
  hrun.invariant (P := fun w => w.heap.heapInitialized = true)
    (fun _ _ _ hw _ hs => heapInitialized_step hw hs) (heapInitialized_heapInit k)

/-- A release is refused by the guard, or answered by `SYSCALL_OK` if it returns. -/
lemma rejects_iff : k.Rejects ptr ↔ ptr = NULL ∨ k.heapInitialized = false := by
  rw [Heap.Rejects, sysHandlerFree]
  split_ifs with hguard
  · exact iff_of_true rfl hguard
  · refine iff_of_false ?_ hguard
    intro h
    obtain ⟨m, -, hm⟩ := Option.map_eq_some_iff.mp h
    exact absurd (congrArg Prod.fst hm) (by decide : SYSCALL_OK ≠ SYSCALL_INVALID_PARAMS)

/-- **A pointer is refused unless it is allocated**, after every sequence of calls, exactly if it is
allocated, or `NULL`. -/
theorem free_rejects_iff (hrun : HeapHistory k cs w) (ptr : Addr) :
    (¬w.heap.IsPayload ptr → w.heap.Rejects ptr) ↔ w.heap.IsPayload ptr ∨ ptr = NULL := by
  have hguard : w.heap.Rejects ptr ↔ ptr = NULL := by
    rw [rejects_iff, hrun.heapInitialized]
    exact or_iff_left Bool.true_eq_false.mp
  rw [hguard, ← or_iff_not_imp_left]

/-! ### The damage -/

/-- **A pointer into an allocated block** is accepted, and the word eight bytes in front of it
becomes one. -/
theorem Heap.Models.free_inside (hk : k.Models l) (hp : UsedBlock l p n)
    (hlo : p.toNat + 8 ≤ ptr.toNat) (hhi : ptr.toNat ≤ p.toNat + n + 4) :
    ∃ k', sysHandlerFree ptr k = some (SYSCALL_OK, k') ∧ k'.Models l ∧
      load32 k'.mem (ptr - 8#32) = 1#32 := by
  have hb := hp.bounds hk
  have hinside : ∀ y ∈ span (ptr - 8#32) 4, y ∉ headerBytes 0x400000 l := by
    intro y hy
    refine hp.notMem_headerBytes hk ?_
    rw [mem_span] at hy ⊢
    bv_omega
  have hptr : ptr ≠ NULL := by
    rw [NULL]
    bv_omega
  obtain ⟨k', hfree, hk', hmem⟩ := sysHandlerFree_apart hk hptr fun y hy hin => hinside y hin hy
  refine ⟨k', hfree, hk', ?_⟩
  rw [load32_congr fun y hy => hmem y (hinside y hy), load32_store32_self]

/-! ### One request -/

/-- The first request returns the payload of the first block. -/
lemma exists_history_malloc : ∃ w, HeapHistory blankHeap [.malloc 100#32] w ∧
    sysHandlerMalloc 100#32 (heapInit blankHeap) = some (0x40000C#32, w.heap) := by
  have hres : (sysHandlerMalloc 100#32 (heapInit blankHeap)).map Prod.fst
      = some 0x40000C#32 := by decide
  obtain ⟨⟨p, k⟩, hr, hp⟩ := Option.map_eq_some_iff.mp hres
  obtain rfl : p = 0x40000C#32 := hp
  have hstep : HeapWorld.step (HeapWorld.boot blankHeap) (.malloc 100#32) =
      some ⟨k, [(0x40000C#32, 100#32)]⟩ := by
    rw [HeapWorld.step, HeapWorld.boot, hr]
    rfl
  exact ⟨_, Run.cons trivial hstep (Run.nil _), hr⟩

/-- After one request `NULL` is refused. -/
theorem free_rejects_iff_null : ∃ w, HeapHistory blankHeap [.malloc 100#32] w ∧
    (¬w.heap.IsPayload NULL → w.heap.Rejects NULL) := by
  obtain ⟨w, hrun, -⟩ := exists_history_malloc
  exact ⟨w, hrun, (free_rejects_iff hrun NULL).mpr (Or.inr rfl)⟩

/-- After one request a pointer into its block is accepted, and a word of the block, which was zero,
is overwritten. -/
theorem free_inside_accepted : ∃ w, HeapHistory blankHeap [.malloc 100#32] w ∧
    ¬w.heap.IsPayload 0x400020#32 ∧ load32 w.heap.mem 0x400018#32 = 0#32 ∧
      ∃ k', sysHandlerFree 0x400020#32 w.heap = some (SYSCALL_OK, k') ∧
        load32 k'.mem 0x400018#32 = 1#32 := by
  obtain ⟨w, hrun, hmalloc⟩ := exists_history_malloc
  have hblocks : (sysHandlerMalloc 100#32 (heapInit blankHeap)).bind (fun r => r.2.blocks) =
      some [⟨0x400000#32, 128#32, 0#32, 0x40008C#32⟩, ⟨0x40008C#32, 0xFFF68#32, 1#32, NULL⟩] := by
    decide
  have hfree : (sysHandlerMalloc 100#32 (heapInit blankHeap)).bind (fun r =>
      (sysHandlerFree 0x400020#32 r.2).map fun u =>
        (load32 r.2.mem 0x400018#32, u.1, load32 u.2.mem 0x400018#32)) =
      some (0#32, SYSCALL_OK, 1#32) := by
    decide
  rw [hmalloc, Option.bind_some] at hblocks hfree
  obtain ⟨⟨code, k'⟩, hk', hwords⟩ := Option.map_eq_some_iff.mp hfree
  obtain ⟨hold, hcode, hnew⟩ := (by simpa only [Prod.mk.injEq] using hwords :
    load32 w.heap.mem 0x400018#32 = 0#32 ∧ code = SYSCALL_OK ∧
      load32 k'.mem 0x400018#32 = 1#32)
  refine ⟨w, hrun, ?_, hold, k', by rw [hk', hcode], hnew⟩
  rintro ⟨bs, hbs, b, hb, -, hpayload⟩
  obtain rfl := Option.some.inj (hblocks.symm.trans hbs)
  revert hpayload
  exact (by decide : ∀ b ∈ [(⟨0x400000#32, 128#32, 0#32, 0x40008C#32⟩ : Block),
    ⟨0x40008C#32, 0xFFF68#32, 1#32, NULL⟩], b.payload ≠ 0x400020#32) b hb

end MiqOSoft
