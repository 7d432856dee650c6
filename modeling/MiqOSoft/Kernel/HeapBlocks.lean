import MiqOSoft.Kernel.HeapRuns

/-!
The heap in terms of the pointers it hands out.

* `UsedBlock l p n`: the pointer `p` is the payload address of a used block of `n` bytes.
  Payloads lie in the heap, apart from each other and from the headers.
* `ClientByte l y`: the address `y` is outside the heap or in the payload of a used block, so
  that the handlers leave it alone.
* `Heap.Models.malloc`, `Heap.Models.free`: what a request and a release do to the used blocks.
-/

namespace MiqOSoft

open Machine Tiling

/-- The pointer `p` is the payload address of a used block of `n` bytes. -/
def UsedBlock (l : List Seg) (p : Addr) (n : ℕ) : Prop :=
  ∃ x, p = BitVec.ofNat 32 (x + 12) ∧ (x, n) ∈ used 12 0x400000 l

/-- The address lies outside the heap, or in the payload of a used block. -/
def ClientByte (l : List Seg) (y : Addr) : Prop :=
  y ∉ span HEAP_START 0x100000 ∨ ∃ p n, UsedBlock l p n ∧ y ∈ span p n

/-- A free block of the heap is long enough for a request of `n` bytes. -/
def Heap.HasRoom (k : Heap) (n : ℕ) : Prop :=
  ∃ bs, k.blocks = some bs ∧ ∃ b ∈ bs, b.isFree ≠ 0#32 ∧ n ≤ b.size.toNat

section UsedBlock

variable {k : Heap} {l : List Seg} {p q : Addr} {n m : ℕ}

lemma UsedBlock.bounds (hk : k.Models l) (hp : UsedBlock l p n) :
    0x40000C ≤ p.toNat ∧ p.toNat + n ≤ 0x500000 := by
  obtain ⟨x, rfl, hx⟩ := hp
  have hb := hk.used_bounds hx
  rw [BitVec.toNat_ofNat]
  omega

lemma UsedBlock.ne_null (hk : k.Models l) (hp : UsedBlock l p n) : p ≠ NULL := by
  have hb := hp.bounds hk
  rintro rfl
  simp [NULL] at hb

lemma UsedBlock.unique (hk : k.Models l) (hp : UsedBlock l p n) (hp' : UsedBlock l p m) :
    n = m := by
  obtain ⟨x, rfl, hx⟩ := hp
  obtain ⟨y, heq, hy⟩ := hp'
  exact (hk.payload_inj hx hy heq).2

/-- Different used blocks lie apart, with a header between them. -/
lemma UsedBlock.apart (hk : k.Models l) (hp : UsedBlock l p n) (hq : UsedBlock l q m)
    (hne : p ≠ q) : p.toNat + n + 12 ≤ q.toNat ∨ q.toNat + m + 12 ≤ p.toNat := by
  obtain ⟨x, rfl, hx⟩ := hp
  obtain ⟨y, rfl, hy⟩ := hq
  have hbx := hk.used_bounds hx
  have hby := hk.used_bounds hy
  simp only [BitVec.toNat_ofNat]
  rcases disjoint_of_mem_placed hx hy with heq | hlt | hlt
  · exact absurd (congrArg (fun r => BitVec.ofNat 32 (r.1 + 12)) heq) hne
  · dsimp only at hlt
    omega
  · dsimp only at hlt
    omega

lemma UsedBlock.disjoint (hk : k.Models l) (hp : UsedBlock l p n) (hq : UsedBlock l q m)
    (hne : p ≠ q) : Disjoint (span p n) (span q m) := by
  have hbp := hp.bounds hk
  have hbq := hq.bounds hk
  have hapart := hp.apart hk hq hne
  exact disjoint_span (by omega) (by omega) (by omega)

/-- The payload of a used block has no header byte. -/
lemma UsedBlock.notMem_headerBytes (hk : k.Models l) (hp : UsedBlock l p n) {y : Addr}
    (hy : y ∈ span p n) : y ∉ headerBytes 0x400000 l := by
  have hbp := hp.bounds hk
  obtain ⟨x, rfl, hx⟩ := hp
  have hbx := hk.used_bounds hx
  rintro ⟨⟨z, s⟩, hz, hyz⟩
  have hbz := bounds_of_mem_placed hz
  rw [hk.arena.extent_eq] at hbz
  rw [mem_span_iff (by omega), BitVec.toNat_ofNat] at hy
  rw [mem_span_iff (by simp only [BitVec.toNat_ofNat]; omega), BitVec.toNat_ofNat] at hyz
  rcases disjoint_of_mem_placed hx hz with heq | hlt | hlt
  · obtain ⟨rfl, rfl⟩ := Prod.mk.injEq .. ▸ heq
    omega
  · dsimp only at hlt
    omega
  · omega

/-- What belongs to the clients has no header byte. -/
lemma ClientByte.notMem_headerBytes {y : Addr} (hk : k.Models l) (hy : ClientByte l y) :
    y ∉ headerBytes 0x400000 l := by
  rcases hy with hout | ⟨p, n, hp, hy⟩
  · intro h
    have hb := bounds_of_mem_headerBytes hk.extent_le h
    rw [hk.arena.extent_eq] at hb
    rw [mem_span_iff (by decide)] at hout
    exact hout hb
  · exact hp.notMem_headerBytes hk hy

lemma ClientByte.mono {l' : List Seg} {y : Addr} (h : ∀ q m, UsedBlock l q m → UsedBlock l' q m)
    (hy : ClientByte l y) : ClientByte l' y :=
  hy.imp_right fun ⟨p, n, hp, hmem⟩ => ⟨p, n, h p n hp, hmem⟩

/-- The used blocks as the walk of the list finds them. -/
lemma usedBlock_iff (hk : k.Models l) : UsedBlock l p n ↔
    ∃ bs, k.blocks = some bs ∧ ∃ b ∈ bs, b.isFree = 0#32 ∧ b.payload = p ∧ b.size.toNat = n := by
  have hext := hk.extent_le
  constructor
  · rintro ⟨x, rfl, hx⟩
    obtain ⟨b, hb, haddr, hsize, hfree⟩ := exists_blocksOf hx
    have hbx := hk.used_bounds hx
    refine ⟨_, hk.blocks_eq, b, hb, hfree, ?_, ?_⟩
    · rw [Block.payload, haddr, BitVec.ofNat_add]
      rfl
    · rw [hsize, toNat_ofNat_of_lt (by dsimp only; omega)]
  · rintro ⟨bs, hbs, b, hb, hfree, rfl, rfl⟩
    obtain rfl := Option.some.inj (hk.blocks_eq.symm.trans hbs)
    obtain ⟨x, s, hx, haddr, hsize, hbf⟩ := mem_blocksOf hb
    have hbx := bounds_of_mem_placed hx
    refine ⟨x, ?_, ?_⟩
    · rw [Block.payload, haddr, BitVec.ofNat_add]
      rfl
    · rw [hsize, toNat_ofNat_of_lt (by omega)]
      rw [hbf] at hfree
      have hs : s.free = false := by
        by_contra h
        exact freeFlag_ne_zero.mpr (Bool.of_not_eq_false h) hfree
      obtain ⟨i, f⟩ := s
      obtain rfl : f = false := hs
      exact hx

lemma hasRoom_iff (hk : k.Models l) : k.HasRoom n ↔ ∃ s ∈ l, s.free = true ∧ n ≤ s.len := by
  have hext := hk.extent_le
  constructor
  · rintro ⟨bs, hbs, b, hb, hfree, hn⟩
    obtain rfl := Option.some.inj (hk.blocks_eq.symm.trans hbs)
    obtain ⟨x, s, hx, -, hsize, hbf⟩ := mem_blocksOf hb
    have hbx := bounds_of_mem_placed hx
    rw [hbf] at hfree
    rw [hsize, toNat_ofNat_of_lt (by omega)] at hn
    exact ⟨s, mem_of_mem_placed hx, freeFlag_ne_zero.mp hfree, hn⟩
  · rintro ⟨s, hs, hfree, hn⟩
    obtain ⟨x, hx⟩ := exists_placed_of_mem (h := 12) (a := 0x400000) hs
    have hbx := bounds_of_mem_placed hx
    obtain ⟨b, hb, -, hsize, hbf⟩ := exists_blocksOf hx
    refine ⟨_, hk.blocks_eq, b, hb, ?_, ?_⟩
    · rw [hbf]
      exact freeFlag_ne_zero.mpr hfree
    · rw [hsize, toNat_ofNat_of_lt (by omega)]
      exact hn

end UsedBlock

/-! ### Requests and releases -/

namespace Heap.Models

variable {k : Heap} {l : List Seg}

/-- What a request does: it is refused and nothing changes, when no free block is long enough,
or one used block is new, at least as long as the request. -/
theorem malloc (hk : k.Models l) (n : Word) : ∃ p k' l', sysHandlerMalloc n k = some (p, k')
    ∧ k'.Models l' ∧ (∀ y, ClientByte l y → k'.mem y = k.mem y)
    ∧ (p = NULL ∧ k' = k ∧ l' = l ∧ (n = 0#32 ∨ ¬k.HasRoom (request n))
      ∨ n ≠ 0#32 ∧ k.HasRoom (request n) ∧ (∀ m, ¬UsedBlock l p m)
        ∧ ∃ j, request n ≤ j ∧ ∀ q m, UsedBlock l' q m ↔ q = p ∧ m = j ∨ UsedBlock l q m) := by
  obtain ⟨p, k', l', hm, hk', hout, hframe, hnull⟩ := sysHandlerMalloc_spec hk n
  rw [hasRoom_iff hk]
  cases hout with
  | refused h =>
      refine ⟨NULL, k', l, hm, hk', fun y hy => hframe y (hy.notMem_headerBytes hk),
        Or.inl ⟨rfl, hnull rfl, rfl, h.imp_right fun hlt => ?_⟩⟩
      rintro ⟨s, hs, hfree, hle⟩
      exact absurd (hlt s hs hfree) (by omega)
  | @granted x l' hn h =>
      obtain ⟨s, hs, hfree, hlen⟩ := h.source
      obtain ⟨j, hj, hused⟩ := h.used_eq
      have hbs := bounds_of_mem_placed hs
      rw [hk.arena.extent_eq] at hbs
      have hiff : ∀ q m, UsedBlock l' q m ↔ q = BitVec.ofNat 32 (x + 12) ∧ m = j
          ∨ UsedBlock l q m := by
        intro q m
        constructor
        · rintro ⟨y, rfl, hy⟩
          rw [hused] at hy
          rcases hy with heq | hy
          · obtain ⟨rfl, rfl⟩ := Prod.mk.injEq .. ▸ heq
            exact Or.inl ⟨rfl, rfl⟩
          · exact Or.inr ⟨y, rfl, hy⟩
        · rintro (⟨rfl, rfl⟩ | ⟨y, rfl, hy⟩)
          · exact ⟨x, rfl, hused ▸ Set.mem_insert _ _⟩
          · exact ⟨y, rfl, hused ▸ Set.mem_insert_of_mem _ hy⟩
      refine ⟨_, k', l', hm, hk', fun y hy => hframe y ?_,
        Or.inr ⟨hn, ⟨s, mem_of_mem_placed hs, hfree, hlen⟩, ?_, j, hj, hiff⟩⟩
      · exact (hy.mono fun q m hq => (hiff q m).mpr (Or.inr hq)).notMem_headerBytes hk'
      · -- the block was free before
        rintro m ⟨y, heq, hy⟩
        have hby := hk.used_bounds hy
        obtain rfl : x = y := by bv_omega
        obtain rfl : s = ⟨m, false⟩ := eq_of_mem_placed (by omega) hs hy
        simp at hfree

/-- What the release of a used block does: it is used no longer. -/
theorem free {p : Addr} {n : ℕ} (hk : k.Models l) (hp : UsedBlock l p n) :
    ∃ k' l', sysHandlerFree p k = some (SYSCALL_OK, k') ∧ k'.Models l'
      ∧ (∀ y, ClientByte l y → k'.mem y = k.mem y)
      ∧ ∀ q m, UsedBlock l' q m ↔ q ≠ p ∧ UsedBlock l q m := by
  obtain ⟨x, rfl, hx⟩ := hp
  obtain ⟨k', hf, hk', hframe⟩ := sysHandlerFree_spec hk hx
  refine ⟨k', _, hf, hk', fun y hy => hframe y (hy.notMem_headerBytes hk), fun q m => ?_⟩
  simp only [UsedBlock, used_release_coalesce]
  constructor
  · rintro ⟨y, rfl, hy, hne⟩
    exact ⟨fun heq => hne (hk.payload_inj hy hx heq).1, y, rfl, hy⟩
  · rintro ⟨hne, y, rfl, hy⟩
    refine ⟨y, rfl, hy, ?_⟩
    rintro rfl
    exact hne rfl

/-- What the release of a pointer outside the heap does: the used blocks stay, and the word
eight bytes in front of the pointer is written. -/
theorem free_outside {p : Addr} (hk : k.Models l) (hlo : 12 ≤ p.toNat) (hhi : p.toNat ≤ 0x400000) :
    ∃ k', sysHandlerFree p k = some (SYSCALL_OK, k') ∧ k'.Models l
      ∧ ∀ y, ClientByte l y → y ∉ span (p - 8#32) 4 → k'.mem y = k.mem y := by
  obtain ⟨k', hf, hk', hframe⟩ := sysHandlerFree_outside hk hlo hhi
  refine ⟨k', hf, hk', fun y hy hout => ?_⟩
  rw [hframe y (hy.notMem_headerBytes hk), store32_of_notMem _ hout]

end Heap.Models

end MiqOSoft
