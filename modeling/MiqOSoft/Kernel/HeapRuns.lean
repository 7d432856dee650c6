import MiqOSoft.Kernel.HeapSpec
import MiqOSoft.Transition.Run

/-!
Runs of the heap: any sequence of requests, and of releases of live pointers.

* `HeapWorld`: the heap together with the live allocations, the pointers returned and not yet
  freed with the sizes asked for.
* `Tracks`: the invariant that ties them to the arena the heap models: the live pointers are
  exactly the payloads of the used blocks, each at least as long as the rounded request.
* `heap_tiled`: the list is always a tiling of the heap, and every call returns.
* `heap_coalesced`: no two neighbours are ever free, so freeing everything restores the block
  `heap_init` made.
* `malloc_safe_iff`: the allocations lie in the heap, apart from each other and from the
  headers, exactly as long as no request of more than `0xFFFFFFE0` bytes meets a free block:
  such a request is rounded to zero and granted.
-/

namespace MiqOSoft

open Machine Tiling Transition

/-! ### The system -/

/-- A call of a heap client. -/
inductive HeapCall
  | malloc (size : Word)
  | free (ptr : Addr)

/-- The heap, and the pointers returned and not yet freed, with the sizes asked for. -/
structure HeapWorld where
  heap : Heap
  live : List (Addr × Word)

namespace HeapWorld

/-- The state after `heap_init`. -/
def boot (k : Heap) : HeapWorld := ⟨heapInit k, []⟩

/-- One call; `none` if it does not return. -/
def step (w : HeapWorld) : HeapCall → Option HeapWorld
  | .malloc n => (sysHandlerMalloc n w.heap).map fun r =>
      ⟨r.2, if r.1 = NULL then w.live else (r.1, n) :: w.live⟩
  | .free p => (sysHandlerFree p w.heap).map fun r =>
      ⟨r.2, w.live.filter fun q => decide (q.1 ≠ p)⟩

/-- Any request is permitted, and the release of a live pointer. -/
def Allowed (w : HeapWorld) : HeapCall → Prop
  | .malloc _ => True
  | .free p => ∃ n, (p, n) ∈ w.live

end HeapWorld

/-- The calls `cs`, from a heap just initialised, lead to `w`. -/
abbrev HeapRun (k : Heap) (cs : List HeapCall) (w : HeapWorld) : Prop :=
  Run HeapWorld.step HeapWorld.Allowed (HeapWorld.boot k) cs w

/-! ### The invariant -/

/-- The live pointers are the payloads of the used blocks. -/
structure Tracks (live : List (Addr × Word)) (l : List Seg) : Prop where
  nodup : live.Pairwise fun a b => a.1 ≠ b.1
  block : ∀ p n, (p, n) ∈ live →
    ∃ x k, p = BitVec.ofNat 32 (x + 12) ∧ (x, k) ∈ used 12 0x400000 l ∧ request n ≤ k
  owner : ∀ x k, (x, k) ∈ used 12 0x400000 l → ∃ n, (BitVec.ofNat 32 (x + 12), n) ∈ live

/-- The heap models an arena whose used blocks are the live allocations. -/
def HeapWorld.Sound (w : HeapWorld) : Prop := ∃ l, w.heap.Models l ∧ Tracks w.live l

/-- Payload addresses determine their blocks. -/
lemma Heap.Models.payload_inj {k : Heap} {l : List Seg} (hk : k.Models l) {x y n n' : ℕ}
    (hx : (x, n) ∈ used 12 0x400000 l) (hy : (y, n') ∈ used 12 0x400000 l)
    (heq : BitVec.ofNat 32 (x + 12) = BitVec.ofNat 32 (y + 12)) : x = y ∧ n = n' := by
  have hbx := hk.used_bounds hx
  have hby := hk.used_bounds hy
  have hxy : x = y := by bv_omega
  subst hxy
  have hseg := eq_of_mem_placed (by omega) hx hy
  exact ⟨rfl, congrArg Seg.len hseg⟩

/-- What a request does to the live allocations. -/
lemma Tracks.malloc {k : Heap} {l l' : List Seg} {live : List (Addr × Word)} {n : Word} {p : Addr}
    (hk : k.Models l) (ht : Tracks live l) (hm : Malloc l n p l') :
    Tracks (if p = NULL then live else (p, n) :: live) l' := by
  cases hm with
  | refused h => rwa [if_pos rfl]
  | @granted x l' hn h =>
      obtain ⟨s, hs, hfree, hlen⟩ := h.source
      obtain ⟨j, hj, hused⟩ := h.used_eq
      have hb := bounds_of_mem_placed hs
      rw [hk.arena.extent_eq] at hb
      have hne : BitVec.ofNat 32 (x + 12) ≠ NULL := by
        rw [NULL]
        bv_omega
      -- the block was free, so no live pointer is its payload
      have hnew : ∀ q m, (q, m) ∈ live → BitVec.ofNat 32 (x + 12) ≠ q := by
        rintro q m hq heq
        obtain ⟨y, i, rfl, hy, -⟩ := ht.block q m hq
        have hby := hk.used_bounds hy
        obtain rfl : x = y := by bv_omega
        obtain rfl : s = ⟨i, false⟩ := eq_of_mem_placed (by omega) hs hy
        simp at hfree
      rw [if_neg hne]
      refine ⟨List.pairwise_cons.mpr ⟨fun q hq => hnew q.1 q.2 hq, ht.nodup⟩, ?_, ?_⟩
      · intro q m hq
        rw [hused]
        rcases List.mem_cons.mp hq with heq | hq
        · obtain ⟨rfl, rfl⟩ := Prod.mk.injEq .. ▸ heq
          exact ⟨x, j, rfl, Set.mem_insert _ _, hj⟩
        · obtain ⟨y, i, hy, hyu, hi⟩ := ht.block q m hq
          exact ⟨y, i, hy, Set.mem_insert_of_mem _ hyu, hi⟩
      · intro y i hy
        rw [hused] at hy
        rcases hy with heq | hy
        · obtain ⟨rfl, rfl⟩ := Prod.mk.injEq .. ▸ heq
          exact ⟨n, List.mem_cons_self⟩
        · obtain ⟨m, hm⟩ := ht.owner y i hy
          exact ⟨m, List.mem_cons_of_mem _ hm⟩

/-- What a release does to the live allocations. -/
lemma Tracks.free {k : Heap} {l : List Seg} {live : List (Addr × Word)} {x n : ℕ}
    (hk : k.Models l) (ht : Tracks live l) (hx : (x, n) ∈ used 12 0x400000 l) :
    Tracks (live.filter fun q => decide (q.1 ≠ BitVec.ofNat 32 (x + 12)))
      (coalesce 12 (release 12 x 0x400000 l)) := by
  have hbx := hk.used_bounds hx
  refine ⟨ht.nodup.filter _, ?_, ?_⟩
  · intro q m hq
    obtain ⟨hq, hne⟩ := List.mem_filter.mp hq
    obtain ⟨y, i, rfl, hy, hi⟩ := ht.block q m hq
    refine ⟨y, i, rfl, ?_, hi⟩
    rw [used_release_coalesce]
    refine ⟨hy, ?_⟩
    rintro rfl
    simp at hne
  · intro y i hy
    rw [used_release_coalesce] at hy
    obtain ⟨hy, hne⟩ := hy
    obtain ⟨m, hm⟩ := ht.owner y i hy
    have hby := hk.used_bounds hy
    refine ⟨m, List.mem_filter.mpr ⟨hm, decide_eq_true ?_⟩⟩
    intro heq
    exact hne (hk.payload_inj hy hx heq).1

namespace HeapWorld

variable {w w' : HeapWorld} {c : HeapCall} {k : Heap}

lemma boot_sound (hk : k.heapInitialized = false) : (boot k).Sound := by
  refine ⟨_, heapInit_models hk, List.Pairwise.nil, by simp [boot], ?_⟩
  intro x n hx
  simp [used_cons_free] at hx

/-- **One step**: a permitted call returns, and leaves a sound state. -/
theorem step_sound (hw : w.Sound) (hc : Allowed w c) : ∃ w', step w c = some w' ∧ w'.Sound := by
  obtain ⟨l, hk, ht⟩ := hw
  cases c with
  | malloc n =>
      obtain ⟨p, k', l', hm, hk', hout, -, -⟩ := sysHandlerMalloc_spec hk n
      exact ⟨_, by rw [step, hm]; rfl, l', hk', ht.malloc hk hout⟩
  | free p =>
      obtain ⟨n, hn⟩ := hc
      obtain ⟨x, i, rfl, hx, -⟩ := ht.block p n hn
      obtain ⟨k', hf, hk', -⟩ := sysHandlerFree_spec hk hx
      exact ⟨_, by rw [step, hf]; rfl, _, hk', ht.free hk hx⟩

lemma sound_of_step (hw : w.Sound) (hc : Allowed w c) (hs : step w c = some w') : w'.Sound := by
  obtain ⟨u, hu, hsound⟩ := step_sound hw hc
  rw [hs] at hu
  exact Option.some.inj hu ▸ hsound

end HeapWorld

/-- Every state of a run is sound. -/
theorem HeapRun.sound {k : Heap} {cs : List HeapCall} {w : HeapWorld}
    (hk : k.heapInitialized = false) (hrun : HeapRun k cs w) : w.Sound :=
  Run.invariant (fun _ _ _ hw hc hs => HeapWorld.sound_of_step hw hc hs) hrun
    (HeapWorld.boot_sound hk)

/-- A heap before its initialisation, over a memory of zeros. -/
def blankHeap : Heap := ⟨fun _ => 0#8, NULL, false⟩

/-- A short run: a request, and the release of the pointer it returns. -/
lemma exists_run_malloc_free :
    ∃ w, HeapRun blankHeap [.malloc 100#32, .free 0x40000C#32] w ∧ w.live = [] := by
  have hres : (sysHandlerMalloc 100#32 (HeapWorld.boot blankHeap).heap).map Prod.fst
      = some 0x40000C#32 := by decide
  obtain ⟨⟨p, k⟩, hr, hp⟩ := Option.map_eq_some_iff.mp hres
  obtain rfl : p = 0x40000C#32 := hp
  have hstep : HeapWorld.step (HeapWorld.boot blankHeap) (.malloc 100#32)
      = some ⟨k, [(0x40000C#32, 100#32)]⟩ := by
    rw [HeapWorld.step, hr]
    rfl
  have hok : HeapWorld.Allowed ⟨k, [(0x40000C#32, 100#32)]⟩ (.free 0x40000C#32) :=
    ⟨100#32, List.mem_cons_self⟩
  have hsound := HeapWorld.sound_of_step (HeapWorld.boot_sound rfl) (by exact trivial) hstep
  obtain ⟨w, hw, -⟩ := HeapWorld.step_sound hsound hok
  refine ⟨w, Run.cons trivial hstep (Run.cons hok hw (Run.nil _)), ?_⟩
  obtain ⟨r, -, rfl⟩ := Option.map_eq_some_iff.mp hw
  rfl

/-! ### The list is a tiling -/

/-- The block list `bs` of a heap tiles it: from `heap_start` on every block ends where its
successor begins, and the last one ends with the heap. -/
structure Heap.Tiled (k : Heap) (bs : List Block) : Prop where
  /-- The walk from `heap_start` ends and meets the blocks `bs`. -/
  blocks_eq : k.blocks = some bs
  start : bs.head?.map Block.addr = some HEAP_START
  increasing : bs.Pairwise fun b c => b.addr.toNat < c.addr.toNat
  adjacent : bs.IsChain fun b c =>
    b.next = c.addr ∧ b.addr.toNat + 12 + b.size.toNat = c.addr.toNat
  last : ∀ b ∈ bs.getLast?,
    b.next = NULL ∧ b.addr.toNat + 12 + b.size.toNat = HEAP_START.toNat + HEAP_SIZE.toNat
  aligned : ∀ b ∈ bs, 4 ∣ b.addr.toNat
  total : (bs.map fun b => b.size.toNat + 12).sum = HEAP_SIZE.toNat

section Blocks

variable {a : ℕ} {l : List Seg} {b : Block}

/-- The blocks of a list are its placed segments. -/
lemma mem_blocksOf (hb : b ∈ blocksOf a l) :
    ∃ x s, (x, s) ∈ placed 12 a l ∧ b.addr = BitVec.ofNat 32 x
      ∧ b.size = BitVec.ofNat 32 s.len ∧ b.isFree = freeFlag s.free := by
  induction l generalizing a with
  | nil => simp [blocksOf] at hb
  | cons s l ih =>
      rw [blocksOf] at hb
      rcases List.mem_cons.mp hb with rfl | hb
      · exact ⟨a, s, by simp, rfl, rfl, rfl⟩
      · obtain ⟨x, t, hx, h1, h2, h3⟩ := ih hb
        exact ⟨x, t, mem_placed_cons.mpr (Or.inr hx), h1, h2, h3⟩

lemma exists_blocksOf {x : ℕ} {s : Seg} (hx : (x, s) ∈ placed 12 a l) :
    ∃ b ∈ blocksOf a l, b.addr = BitVec.ofNat 32 x ∧ b.size = BitVec.ofNat 32 s.len
      ∧ b.isFree = freeFlag s.free := by
  induction l generalizing a with
  | nil => simp at hx
  | cons t l ih =>
      rw [blocksOf]
      rcases mem_placed_cons.mp hx with heq | hx
      · obtain ⟨rfl, rfl⟩ := Prod.mk.injEq .. ▸ heq
        exact ⟨_, List.mem_cons_self, rfl, rfl, rfl⟩
      · obtain ⟨b, hb, hbf⟩ := ih hx
        exact ⟨b, List.mem_cons_of_mem _ hb, hbf⟩

/-- Block addresses and ends, as numbers. -/
lemma block_toNat (hext : a + extent 12 l ≤ 2 ^ 31) (hb : b ∈ blocksOf a l) :
    a ≤ b.addr.toNat ∧ b.addr.toNat + 12 + b.size.toNat ≤ a + extent 12 l := by
  obtain ⟨x, s, hx, haddr, hsize, -⟩ := mem_blocksOf hb
  have hbx := bounds_of_mem_placed hx
  rw [haddr, hsize]
  simp only [BitVec.toNat_ofNat]
  omega

lemma blocksOf_increasing (hext : a + extent 12 l ≤ 2 ^ 31) :
    (blocksOf a l).Pairwise fun b c => b.addr.toNat < c.addr.toNat := by
  induction l generalizing a with
  | nil => exact List.Pairwise.nil
  | cons s l ih =>
      rw [extent_cons] at hext
      rw [blocksOf]
      refine List.pairwise_cons.mpr ⟨fun c hc => ?_, ih (by omega)⟩
      have hbc := block_toNat (by omega) hc
      simp only [BitVec.toNat_ofNat]
      omega

lemma blocksOf_adjacent (hext : a + extent 12 l ≤ 2 ^ 31) :
    (blocksOf a l).IsChain fun b c =>
      b.next = c.addr ∧ b.addr.toNat + 12 + b.size.toNat = c.addr.toNat := by
  induction l generalizing a with
  | nil => exact List.IsChain.nil
  | cons s l ih =>
      cases l with
      | nil => exact List.IsChain.singleton _
      | cons t l =>
          have htail := ih (a := a + 12 + s.len) (by rw [extent_cons] at hext; omega)
          simp only [extent_cons] at hext
          rw [blocksOf] at htail
          rw [blocksOf, blocksOf]
          refine List.isChain_cons_cons.mpr ⟨⟨rfl, ?_⟩, htail⟩
          simp only [BitVec.toNat_ofNat]
          omega

lemma blocksOf_last (hext : a + extent 12 l ≤ 2 ^ 31) (hb : b ∈ (blocksOf a l).getLast?) :
    b.next = NULL ∧ b.addr.toNat + 12 + b.size.toNat = a + extent 12 l := by
  induction l generalizing a with
  | nil => simp [blocksOf] at hb
  | cons s l ih =>
      cases l with
      | nil =>
          simp only [extent_cons, extent_nil] at hext
          simp only [blocksOf, List.getLast?_singleton, Option.mem_some_iff] at hb
          subst hb
          refine ⟨rfl, ?_⟩
          simp only [BitVec.toNat_ofNat, extent_cons, extent_nil]
          omega
      | cons t l =>
          rw [extent_cons] at hext
          rw [extent_cons, show a + (12 + s.len + extent 12 (t :: l))
            = a + 12 + s.len + extent 12 (t :: l) by omega]
          refine ih (by omega) ?_
          rw [blocksOf, blocksOf, List.getLast?_cons_cons] at hb
          rwa [blocksOf]

lemma blocksOf_total (hext : a + extent 12 l ≤ 2 ^ 31) :
    ((blocksOf a l).map fun b => b.size.toNat + 12).sum = extent 12 l := by
  induction l generalizing a with
  | nil => rfl
  | cons s l ih =>
      rw [extent_cons] at hext ⊢
      rw [blocksOf, List.map_cons, List.sum_cons, ih (by omega)]
      simp only [BitVec.toNat_ofNat]
      omega

/-- Segments of lengths that are multiples of 4 with their headers sit at multiples of 4. -/
lemma four_dvd_of_mem_placed {x : ℕ} {s : Seg} (ha : 4 ∣ a) (hl : ∀ t ∈ l, 4 ∣ 12 + t.len)
    (hx : (x, s) ∈ placed 12 a l) : 4 ∣ x := by
  induction l generalizing a with
  | nil => simp at hx
  | cons t l ih =>
      rcases mem_placed_cons.mp hx with heq | hx
      · obtain ⟨rfl, rfl⟩ := Prod.mk.injEq .. ▸ heq
        exact ha
      · have ht := hl t List.mem_cons_self
        exact ih (by omega) (fun u hu => hl u (List.mem_cons_of_mem _ hu)) hx

lemma blocksOf_coalesced (hl : Coalesced l) :
    (blocksOf a l).IsChain fun b c => ¬(b.isFree ≠ 0#32 ∧ c.isFree ≠ 0#32) := by
  induction l generalizing a with
  | nil => exact List.IsChain.nil
  | cons s l ih =>
      cases l with
      | nil => exact List.IsChain.singleton _
      | cons t l =>
          rw [coalesced_cons_cons] at hl
          have htail := ih (a := a + 12 + s.len) hl.2
          rw [blocksOf] at htail
          rw [blocksOf, blocksOf]
          refine List.isChain_cons_cons.mpr ⟨?_, htail⟩
          rw [freeFlag_ne_zero, freeFlag_ne_zero]
          exact hl.1

end Blocks

/-- A heap that models an arena is tiled by its blocks. -/
theorem Heap.Models.tiled {k : Heap} {l : List Seg} (hk : k.Models l) :
    k.Tiled (blocksOf 0x400000 l) := by
  have hext := hk.extent_le
  have htotal := hk.arena.extent_eq
  refine ⟨hk.blocks_eq, ?_, blocksOf_increasing hext, blocksOf_adjacent hext, fun b hb => ?_,
    fun b hb => ?_, ?_⟩
  · obtain ⟨s, r, rfl⟩ := List.exists_cons_of_ne_nil hk.arena.ne_nil
    rfl
  · have := blocksOf_last hext hb
    rwa [htotal] at this
  · obtain ⟨x, s, hx, haddr, -, -⟩ := mem_blocksOf hb
    have hx4 := four_dvd_of_mem_placed (by decide) hk.arena.dvd hx
    have hbx := bounds_of_mem_placed hx
    rw [haddr, toNat_ofNat_of_lt (by omega)]
    exact hx4
  · rw [blocksOf_total hext, htotal]
    rfl

/-- **The heap is always tiled by its blocks, and every permitted call returns**, whatever the
requests, their sizes and the order of the releases. -/
theorem heap_tiled {k : Heap} (hk : k.heapInitialized = false) {cs : List HeapCall}
    {w : HeapWorld} (hrun : HeapRun k cs w) :
    (∃ bs, w.heap.Tiled bs) ∧ ∀ c, w.Allowed c → ∃ w', w.step c = some w' := by
  have hsound := hrun.sound hk
  refine ⟨?_, fun c hc => ?_⟩
  · obtain ⟨l, hl, -⟩ := hsound
    exact ⟨_, hl.tiled⟩
  · obtain ⟨w', hw', -⟩ := HeapWorld.step_sound hsound hc
    exact ⟨w', hw'⟩

/-- The tiling after a request and its release. -/
theorem heap_tiled_malloc_free :
    ∃ w, HeapRun blankHeap [.malloc 100#32, .free 0x40000C#32] w ∧ (∃ bs, w.heap.Tiled bs) := by
  obtain ⟨w, hw, -⟩ := exists_run_malloc_free
  exact ⟨w, hw, (heap_tiled rfl hw).1⟩

/-! ### Coalescing -/

/-- **No two neighbours are ever free**, and once nothing is live the heap is again the single
free block that `heap_init` made. -/
theorem heap_coalesced {k : Heap} (hk : k.heapInitialized = false) {cs : List HeapCall}
    {w : HeapWorld} (hrun : HeapRun k cs w) :
    ∃ bs, w.heap.blocks = some bs
      ∧ (bs.IsChain fun b c => ¬(b.isFree ≠ 0#32 ∧ c.isFree ≠ 0#32))
      ∧ (w.live = [] → bs = [⟨HEAP_START, HEAP_SIZE - sizeofHeapBlock, 1#32, NULL⟩]
          ∧ (heapInit k).blocks = some bs) := by
  obtain ⟨l, hl, ht⟩ := hrun.sound hk
  refine ⟨_, hl.blocks_eq, blocksOf_coalesced hl.arena.coalesced, fun hlive => ?_⟩
  have hused : used 12 0x400000 l = ∅ := by
    refine Set.eq_empty_of_forall_notMem ?_
    rintro ⟨x, n⟩ hx
    obtain ⟨r, hr⟩ := ht.owner x n hx
    rw [hlive] at hr
    simp at hr
  obtain rfl := hl.arena.eq_singleton hused
  exact ⟨by decide, (heapInit_models hk).blocks_eq⟩

/-- The list after a request and its release. -/
theorem heap_coalesced_malloc_free :
    ∃ w, HeapRun blankHeap [.malloc 100#32, .free 0x40000C#32] w
      ∧ w.heap.blocks = some [⟨HEAP_START, HEAP_SIZE - sizeofHeapBlock, 1#32, NULL⟩] := by
  obtain ⟨w, hw, hlive⟩ := exists_run_malloc_free
  obtain ⟨bs, hbs, -, hsingle⟩ := heap_coalesced rfl hw
  exact ⟨w, hw, by rw [hbs, (hsingle hlive).1]⟩

/-! ### Safety of the allocations -/

/-- The addresses `[p, p + n)` of an allocation of `n` bytes at `p`. -/
def allocation (a : Addr × Word) : Set ℕ := Set.Ico a.1.toNat (a.1.toNat + a.2.toNat)

/-- The addresses of a block header. -/
def Block.header (b : Block) : Set ℕ := Set.Ico b.addr.toNat (b.addr.toNat + 12)

/-- The addresses of the heap. -/
def heapRange : Set ℕ := Set.Ico HEAP_START.toNat (HEAP_START.toNat + HEAP_SIZE.toNat)

/-- The live allocations lie in the heap, apart from each other and from every header. -/
structure HeapWorld.Safe (w : HeapWorld) : Prop where
  inside : ∀ a ∈ w.live, allocation a ⊆ heapRange
  apart : w.live.Pairwise fun a b => Disjoint (allocation a) (allocation b)
  headers : ∃ bs, w.heap.blocks = some bs
    ∧ ∀ a ∈ w.live, ∀ b ∈ bs, Disjoint (allocation a) b.header

/-- The condition under which a call keeps the allocations safe: a request of more than
`0xFFFFFFE0` bytes, which the rounding wraps to zero, finds no free block. -/
def HeapWorld.Rounds (w : HeapWorld) : HeapCall → Prop
  | .malloc n => n.toNat ≤ 0xFFFFFFE0 ∨ ∀ bs, w.heap.blocks = some bs → ∀ b ∈ bs, b.isFree = 0#32
  | .free _ => True

lemma disjoint_Ico_of_apart {a b n m : ℕ} (h : a + n ≤ b ∨ b + m ≤ a) :
    Disjoint (Set.Ico a (a + n)) (Set.Ico b (b + m)) := by
  rw [Set.disjoint_left]
  intro x hx hx'
  rw [Set.mem_Ico] at hx hx'
  omega

namespace HeapWorld

variable {w w' : HeapWorld} {c : HeapCall}

/-- A sound state in which no live request has wrapped. -/
def Granted (w : HeapWorld) : Prop := w.Sound ∧ ∀ a ∈ w.live, a.2.toNat ≤ 0xFFFFFFE0

/-- A live allocation whose request has not wrapped lies in the payload of its block. -/
lemma Granted.block {l : List Seg} (hw : w.Granted) (hk : w.heap.Models l) (ht : Tracks w.live l)
    {p n : Word} (hp : (p, n) ∈ w.live) :
    ∃ x i, (x, i) ∈ used 12 0x400000 l ∧ p.toNat = x + 12 ∧ n.toNat ≤ i
      ∧ 0x400000 ≤ x ∧ x + 12 + i ≤ 0x500000 := by
  obtain ⟨x, i, rfl, hx, hi⟩ := ht.block p n hp
  have hb := hk.used_bounds hx
  have hn : n.toNat ≤ request n := le_request (hw.2 _ hp)
  refine ⟨x, i, hx, ?_, by omega, by omega, by omega⟩
  rw [BitVec.toNat_ofNat]
  omega

/-- In such a state the allocations are safe. -/
lemma Granted.safe (hw : w.Granted) : w.Safe := by
  obtain ⟨l, hk, ht⟩ := hw.1
  have hstart : HEAP_START.toNat = 0x400000 := rfl
  have hsize : HEAP_SIZE.toNat = 0x100000 := rfl
  refine ⟨?_, ?_, blocksOf 0x400000 l, hk.blocks_eq, ?_⟩
  · rintro ⟨p, n⟩ hp
    obtain ⟨x, i, -, hpx, hni, hlo, hhi⟩ := hw.block hk ht hp
    rw [allocation, heapRange, hstart, hsize, hpx]
    exact Set.Ico_subset_Ico (by omega) (by dsimp only; omega)
  · refine ht.nodup.imp_of_mem ?_
    rintro ⟨p, n⟩ ⟨q, m⟩ hp hq hne
    obtain ⟨x, i, hx, hpx, hni, -, -⟩ := hw.block hk ht hp
    obtain ⟨y, j, hy, hqy, hmj, -, -⟩ := hw.block hk ht hq
    refine disjoint_Ico_of_apart ?_
    dsimp only at hne ⊢
    rcases disjoint_of_mem_placed hx hy with heq | hlt | hlt
    · have hxy : x = y := (Prod.mk.injEq .. ▸ heq).1
      exact absurd (BitVec.eq_of_toNat_eq (by omega)) hne
    · dsimp only at hlt
      omega
    · dsimp only at hlt
      omega
  · rintro ⟨p, n⟩ hp b hb
    obtain ⟨x, i, hx, hpx, hni, -, -⟩ := hw.block hk ht hp
    obtain ⟨y, s, hy, haddr, -, -⟩ := mem_blocksOf hb
    have hby := bounds_of_mem_placed hy
    rw [hk.arena.extent_eq] at hby
    rw [allocation, Block.header, haddr, toNat_ofNat_of_lt (by omega)]
    refine disjoint_Ico_of_apart ?_
    dsimp only
    rcases disjoint_of_mem_placed hx hy with heq | hlt | hlt
    · have hxy : x = y := (Prod.mk.injEq .. ▸ heq).1
      omega
    · dsimp only at hlt
      omega
    · omega

lemma Granted.step (hw : w.Granted) (hc : Allowed w c) (hr : w.Rounds c)
    (hs : HeapWorld.step w c = some w') : w'.Granted := by
  refine ⟨sound_of_step hw.1 hc hs, ?_⟩
  cases c with
  | free p =>
      obtain ⟨r, -, rfl⟩ := Option.map_eq_some_iff.mp hs
      exact fun a ha => hw.2 a (List.mem_filter.mp ha).1
  | malloc n =>
      obtain ⟨l, hk, ht⟩ := hw.1
      obtain ⟨p, k', l', hm, hk', hout, -, -⟩ := sysHandlerMalloc_spec hk n
      rw [HeapWorld.step, hm] at hs
      obtain rfl := Option.some.inj hs
      dsimp only
      split_ifs with hp
      · exact hw.2
      · rintro a ha
        rcases List.mem_cons.mp ha with rfl | ha
        · -- a request that wraps takes a free block, and there is none
          cases hout with
          | refused h => exact absurd rfl hp
          | @granted x l' hn h =>
              rcases hr with hle | hnone
              · exact hle
              · obtain ⟨s, hs, hfree, -⟩ := h.source
                obtain ⟨b, hb, -, -, hbf⟩ := exists_blocksOf hs
                have := hnone _ hk.blocks_eq b hb
                rw [hbf, hfree] at this
                exact absurd this (by decide)
        · exact hw.2 a ha

/-- A request that wraps and finds a free block is granted, and leaves an unsafe state. -/
lemma Granted.not_safe (hw : w.Granted) (hr : ¬w.Rounds c) (hs : HeapWorld.step w c = some w') :
    ¬w'.Safe := by
  cases c with
  | free p => exact absurd trivial hr
  | malloc n =>
      obtain ⟨l, hk, ht⟩ := hw.1
      rw [Rounds, not_or] at hr
      obtain ⟨hn, hfree⟩ := hr
      obtain ⟨p, k', l', hm, hk', hout, -, -⟩ := sysHandlerMalloc_spec hk n
      rw [HeapWorld.step, hm] at hs
      obtain rfl := Option.some.inj hs
      cases hout with
      | refused h =>
          refine absurd ?_ hfree
          intro bs hbs b hb
          rw [hk.blocks_eq] at hbs
          obtain rfl := Option.some.inj hbs
          obtain ⟨x, s, hx, -, -, hbf⟩ := mem_blocksOf hb
          rcases h with rfl | h
          · exact absurd (by decide) hn
          · have hs : ¬s.free = true := by
              intro hs
              have := h s (mem_of_mem_placed hx) hs
              rw [request_eq_zero (by omega)] at this
              omega
            rw [hbf, freeFlag, if_neg hs]
      | @granted x l' hn' h =>
          obtain ⟨s, hx, -, -⟩ := h.source
          have hb := bounds_of_mem_placed hx
          rw [hk.arena.extent_eq] at hb
          have hne : BitVec.ofNat 32 (x + 12) ≠ NULL := by
            rw [NULL]
            bv_omega
          intro hsafe
          have hin := hsafe.inside (BitVec.ofNat 32 (x + 12), n) (by
            simp only [if_neg hne, List.mem_cons, true_or])
          have hmem : x + 12 + n.toNat - 1 ∈ heapRange := by
            refine hin ?_
            rw [allocation, Set.mem_Ico, BitVec.toNat_ofNat]
            dsimp only
            omega
          have hstart : HEAP_START.toNat = 0x400000 := rfl
          have hsize : HEAP_SIZE.toNat = 0x100000 := rfl
          rw [heapRange, Set.mem_Ico, hstart, hsize] at hmem
          omega

end HeapWorld

/-- **Allocations are safe exactly while no request wraps**: along a run, every state is safe
if and only if no request of more than `0xFFFFFFE0` bytes is made while a block is free. -/
theorem malloc_safe_iff {k : Heap} (hk : k.heapInitialized = false) {cs : List HeapCall}
    {w : HeapWorld} (hrun : HeapRun k cs w) :
    (∀ pre c post u, cs = pre ++ c :: post → HeapRun k pre u → u.Rounds c) ↔
      ∀ pre post u, cs = pre ++ post → HeapRun k pre u → u.Safe :=
  Run.forall_prefix_iff (fun _ hu => HeapWorld.Granted.safe hu)
    (fun _ _ _ hu hc hr hs => hu.step hc hr hs) (fun _ _ _ hu _ hr hs => hu.not_safe hr hs)
    ⟨HeapWorld.boot_sound hk, by simp [HeapWorld.boot]⟩ hrun

/-- The first request, for `0xFFFFFFFF` bytes, is granted: the allocation reaches far beyond the
heap. -/
theorem malloc_wraps : ∃ w, HeapRun blankHeap [.malloc 0xFFFFFFFF#32] w
    ∧ w.live = [(0x40000C#32, 0xFFFFFFFF#32)] ∧ ¬w.Safe := by
  have hres : (sysHandlerMalloc 0xFFFFFFFF#32 (HeapWorld.boot blankHeap).heap).map Prod.fst
      = some 0x40000C#32 := by decide
  obtain ⟨⟨p, k⟩, hr, hp⟩ := Option.map_eq_some_iff.mp hres
  obtain rfl : p = 0x40000C#32 := hp
  have hstep : HeapWorld.step (HeapWorld.boot blankHeap) (.malloc 0xFFFFFFFF#32)
      = some ⟨k, [(0x40000C#32, 0xFFFFFFFF#32)]⟩ := by
    rw [HeapWorld.step, hr]
    rfl
  refine ⟨_, Run.cons trivial hstep (Run.nil _), rfl, fun hsafe => ?_⟩
  have hin := hsafe.inside _ List.mem_cons_self
  have hmem : 0x600000 ∈ heapRange := hin (by rw [allocation, Set.mem_Ico]; decide)
  rw [heapRange, Set.mem_Ico] at hmem
  exact absurd hmem.2 (by decide)

/-- The equivalence on a run of one request and its release. -/
theorem malloc_safe_iff_one : ∃ w, HeapRun blankHeap [.malloc 100#32, .free 0x40000C#32] w
    ∧ ((∀ pre c post u, [HeapCall.malloc 100#32, .free 0x40000C#32] = pre ++ c :: post →
          HeapRun blankHeap pre u → u.Rounds c) ↔
        ∀ pre post u, [HeapCall.malloc 100#32, .free 0x40000C#32] = pre ++ post →
          HeapRun blankHeap pre u → u.Safe) := by
  obtain ⟨w, hw, -⟩ := exists_run_malloc_free
  exact ⟨w, hw, malloc_safe_iff rfl hw⟩

end MiqOSoft
