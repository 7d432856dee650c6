import MiqOSoft.Shell.RamFsBuffers
import MiqOSoft.Shell.RamFsTree

/-!
The contents of the files of the RAM file system.

* `SysCalls.Serves`: what the file system relies on of the heap: it serves blocks of the
  requested size, apart from each other by their headers, and leaves their bytes alone.
* `ContentsOk`: over such a heap the buffers of the regular files are blocks it holds, and no
  size exceeds its capacity.
* `Action.keeps`: an action that may not touch a file leaves its entry and its bytes.
* `Shell.read_after_write`: what is written is read back, and every other file reads as before
  until it is written or deleted itself.
* `Shell.error_iff`: a call that fails leaves the file system as it was, exactly when it is not
  a write that creates its file and then finds no memory for the buffer.
-/

namespace MiqOSoft

open Machine Transition

variable {σ : Type*}

/-- The system calls serve blocks, those in `held`, with a header of 12 bytes in front of each:
they lie in the heap and apart from each other, a request that succeeds adds a fresh one, and
their bytes change only by the stores of the caller.  This is asked of every state of the heap;
that of the kernel serves blocks in its consistent states only. -/
structure SysCalls.Serves (S : SysCalls σ) (held : σ → Set (Addr × Word)) : Prop where
  bounds : ∀ h, ∀ b ∈ held h, b.2 ≠ 0#32 ∧ 0x40000C ≤ b.1.toNat ∧
    b.1.toNat + b.2.toNat ≤ 0x500000
  apart : ∀ h, ∀ b ∈ held h, ∀ c ∈ held h, b ≠ c →
    b.1.toNat + b.2.toNat + 12 ≤ c.1.toNat ∨ c.1.toNat + c.2.toNat + 12 ≤ b.1.toNat
  malloc_null : ∀ n h m, (S.sysMalloc n h m).1 = NULL → held (S.sysMalloc n h m).2.1 = held h
  malloc_block : ∀ n h m, (S.sysMalloc n h m).1 ≠ NULL →
    ((S.sysMalloc n h m).1, n) ∉ held h ∧
      held (S.sysMalloc n h m).2.1 = insert ((S.sysMalloc n h m).1, n) (held h)
  malloc_bytes : ∀ n h m, ∀ b ∈ held h,
    Set.EqOn (S.sysMalloc n h m).2.2 m (span b.1 b.2.toNat)
  free_block : ∀ h m, ∀ b ∈ held h, held (S.sysFree b.1 h m).1 = held h \ {b}
  free_bytes : ∀ h m, ∀ b ∈ held h, ∀ c ∈ held h, c ≠ b →
    Set.EqOn (S.sysFree b.1 h m).2 m (span c.1 c.2.toNat)

namespace SysCalls.Serves

variable {S : SysCalls σ} {held : σ → Set (Addr × Word)} {h : σ} {b c : Addr × Word}

/-- Held blocks at one address are the same block. -/
lemma eq_of_addr (hS : S.Serves held) (hb : b ∈ held h) (hc : c ∈ held h) (heq : b.1 = c.1) :
    b = c := by
  by_contra hne
  have := hS.apart h b hb c hc hne
  rw [heq] at this
  omega

/-- The byte right behind a block, like those of the block, is in no other block. -/
lemma notMem_span (hS : S.Serves held) (hb : b ∈ held h) (hc : c ∈ held h) (hne : b ≠ c)
    (off : Word) (hoff : off.toNat ≤ b.2.toNat) : b.1 + off ∉ span c.1 c.2.toNat := by
  obtain ⟨-, hblo, hbhi⟩ := hS.bounds h b hb
  obtain ⟨-, hclo, hchi⟩ := hS.bounds h c hc
  have hval : (b.1 + off).toNat = b.1.toNat + off.toNat := by bv_omega
  rw [mem_span_iff (by omega), hval]
  have := hS.apart h b hb c hc hne
  omega

lemma disjoint_span (hS : S.Serves held) (hb : b ∈ held h) (hc : c ∈ held h) (hne : b ≠ c)
    {n : ℕ} (hn : n ≤ b.2.toNat) : Disjoint (span b.1 n) (span c.1 c.2.toNat) := by
  obtain ⟨-, hblo, hbhi⟩ := hS.bounds h b hb
  obtain ⟨-, hclo, hchi⟩ := hS.bounds h c hc
  have := hS.apart h b hb c hc hne
  exact Machine.disjoint_span (by omega) (by omega) (by omega)

/-- The block a request returns is at no address where a block is held. -/
lemma malloc_fresh (hS : S.Serves held) {n : Word} {m : Memory}
    (hmem : (S.sysMalloc n h m).1 ≠ NULL) (hb : b ∈ held h) : b.1 ≠ (S.sysMalloc n h m).1 := by
  obtain ⟨hnew, hheld⟩ := hS.malloc_block n h m hmem
  intro heq
  have hb' : b ∈ held (S.sysMalloc n h m).2.1 := hheld ▸ Or.inr hb
  have hp' : ((S.sysMalloc n h m).1, n) ∈ held (S.sysMalloc n h m).2.1 := hheld ▸ Or.inl rfl
  exact hnew (hS.eq_of_addr hb' hp' heq ▸ hb)

/-- A request for no bytes fails. -/
lemma size_ne_zero (hS : S.Serves held) {n : Word} {m : Memory}
    (hmem : (S.sysMalloc n h m).1 ≠ NULL) : n ≠ 0#32 := by
  obtain ⟨-, hheld⟩ := hS.malloc_block n h m hmem
  have hp : ((S.sysMalloc n h m).1, n) ∈ held (S.sysMalloc n h m).2.1 := hheld ▸ Or.inl rfl
  exact (hS.bounds _ _ hp).1

/-- A block is no longer than the heap. -/
lemma size_le (hS : S.Serves held) (hb : b ∈ held h) : b.2.toNat ≤ 0x100000 := by
  obtain ⟨-, hlo, hhi⟩ := hS.bounds h b hb
  omega

end SysCalls.Serves

/-- The heap that serves requests one behind the other. -/
lemma bumpCalls_serves : bumpCalls.Serves fun h => {b | b ∈ h.held} where
  bounds h b hb := by
    have := h.bounds b hb
    have := h.next_le
    exact ⟨(h.bounds b hb).1, by omega⟩
  apart h := h.apart
  malloc_null n h m hnull := by
    by_cases hfit : n ≠ 0#32 ∧ h.next + 12 + n.toNat ≤ 0x100000
    · have hptr := h.toNat_ptr
      have hp : h.ptr = NULL := by simpa only [bumpCalls, dif_pos hfit] using hnull
      rw [hp] at hptr
      simp only [NULL, BitVec.reduceToNat] at hptr
      omega
    · simp only [bumpCalls, dif_neg hfit]
  malloc_block n h m hmem := by
    by_cases hfit : n ≠ 0#32 ∧ h.next + 12 + n.toNat ≤ 0x100000
    · simp only [bumpCalls, dif_pos hfit]
      refine ⟨fun hb => ?_, ?_⟩
      · have hb := h.bounds _ hb
        have := h.toNat_ptr
        dsimp only at hb
        omega
      · ext b
        simp [BumpHeap.push]
    · exact absurd (by simp only [bumpCalls, dif_neg hfit]) hmem
  malloc_bytes n h m b hb := by
    by_cases hfit : n ≠ 0#32 ∧ h.next + 12 + n.toNat ≤ 0x100000
    · simp only [bumpCalls, dif_pos hfit]
      exact fun _ _ => rfl
    · simp only [bumpCalls, dif_neg hfit]
      exact fun _ _ => rfl
  free_block h m b hb := by
    ext c
    simp only [bumpCalls, BumpHeap.drop, List.mem_filter, Set.mem_ofPred_eq, Set.mem_sdiff,
      Set.mem_singleton_iff, decide_eq_true_eq]
    refine and_congr_right fun hc => not_congr ⟨fun heq => ?_, congrArg Prod.fst⟩
    by_contra hne
    have := h.apart c hc b hb hne
    rw [heq] at this
    omega
  free_bytes h m b _ c _ _ := fun _ _ => rfl

/-- The buffers of the regular files are blocks the heap holds. -/
structure ContentsOk (held : σ → Set (Addr × Word)) (s : Shell σ) : Prop where
  blocks : BlocksOk s
  fresh : FreshMallocs s.trace
  live_held : ∀ p m, LiveBlock s.trace p m → (p, m) ∈ held s.heap
  size_le : ∀ i, s.ramfs.Regular i → (s.file i).size ≤ (s.file i).capacity

section Contents

variable {S : SysCalls σ} {held : σ → Set (Addr × Word)} {G : Scope} {s s' : Shell σ}
  {i j : Fin 64} {name : CString} {size : Word}

lemma ContentsOk.block_held (h : ContentsOk held s) (hi : s.ramfs.Regular i) :
    ((s.file i).data, (s.file i).capacity) ∈ held s.heap :=
  h.live_held _ _ (h.blocks.regular i hi)

/-- The byte `k` of a file lies in its block. -/
lemma ContentsOk.byte_mem (h : ContentsOk held s) (hi : s.ramfs.Regular i) {k : ℕ}
    (hk : k < (s.file i).size.toNat) :
    (s.file i).data + BitVec.ofNat 32 k ∈ span (s.file i).data (s.file i).capacity.toNat := by
  have := BitVec.le_def.mp (h.size_le i hi)
  exact add_ofNat_mem_span (by omega) (by omega)

/-- Requests return blocks that are not live. -/
lemma ContentsOk.not_liveAt (hS : S.Serves held) (h : ContentsOk held s) {n : Word} {m : Memory}
    (hmem : (S.sysMalloc n s.heap m).1 ≠ NULL) : ¬LiveAt s.trace (S.sysMalloc n s.heap m).1 := by
  rintro ⟨k, hk⟩
  exact hS.malloc_fresh hmem (h.live_held _ _ hk) rfl

/-- A buffer that has grown. -/
lemma grown_trace (hne : (s.file i).data ≠ NULL) : (s.grown S i size).trace =
    .free (s.file i).data ::
      .store (s.malloc S (grownCapacity size)).1 (grownCapacity size) 0 (s.file i).size.toNat ::
      .malloc (grownCapacity size) (s.malloc S (grownCapacity size)).1 :: s.trace := by
  simp only [Shell.grown, if_neg hne]
  rfl

lemma grown_heap (hne : (s.file i).data ≠ NULL) :
    (s.grown S i size).heap = (S.sysFree (s.file i).data (s.malloc S (grownCapacity size)).2.heap
      (copyBytes (s.malloc S (grownCapacity size)).1 (s.file i).data (s.file i).size.toNat
        (s.malloc S (grownCapacity size)).2.mem)).1 := by
  simp only [Shell.grown, if_neg hne]
  rfl

lemma grown_mem (hne : (s.file i).data ≠ NULL) :
    (s.grown S i size).mem = (S.sysFree (s.file i).data (s.malloc S (grownCapacity size)).2.heap
      (copyBytes (s.malloc S (grownCapacity size)).1 (s.file i).data (s.file i).size.toNat
        (s.malloc S (grownCapacity size)).2.mem)).2 := by
  simp only [Shell.grown, if_neg hne]
  rfl

lemma freshMallocs_fillFile (data : ℕ → Byte) :
    FreshMallocs (fillFile i data size s).trace = FreshMallocs s.trace := by
  rw [fillFile]
  split <;> rfl

lemma fillFile_heap (data : ℕ → Byte) : (fillFile i data size s).heap = s.heap := by
  rw [fillFile]
  split <;> rfl

/-- The requests of an action return no live block. -/
lemma Action.freshMallocs_of_serves (hS : S.Serves held) (h : Action S G s s')
    (hs : ContentsOk held s) : FreshMallocs s'.trace := by
  have hmalloc : ∀ n, FreshMallocs (s.malloc S n).2.trace := by
    refine fun n => ⟨fun hlive => ?_, hs.fresh⟩
    by_cases hnull : (S.sysMalloc n s.heap s.mem).1 = NULL
    · obtain ⟨m, hm⟩ := hlive
      exact hm.ne_null hnull
    · exact hs.not_liveAt hS hnull hlive
  cases h with
  | noMemory size hnull => exact hmalloc size
  | scratch => exact hs.fresh
  | createFile => exact hmalloc 256#32
  | createDirectory => exact hs.fresh
  | delete i hmay huse hparent hempty =>
      have hrelease : FreshMallocs (s.release S i).trace := by
        rw [Shell.release]
        split <;> exact hs.fresh
      exact hrelease
  | grow i size hmay hsized huse hreg hcap hmem =>
      rw [Shell.grown]
      split <;> exact hmalloc _
  | fill i data size hmay hsized huse hreg hsize =>
      rw [freshMallocs_fillFile]
      exact hs.fresh
  | chdir => exact hs.fresh

/-- The live blocks stay held. -/
lemma Action.live_held (hS : S.Serves held) (h : Action S G s s') (hs : ContentsOk held s)
    (p : Addr) (m : Word) (hlive : LiveBlock s'.trace p m) : (p, m) ∈ held s'.heap := by
  -- what was live before a request is held behind it, and so is its block
  have hmalloc : ∀ n, LiveBlock (s.malloc S n).2.trace p m →
      (p, m) ∈ held (s.malloc S n).2.heap := by
    intro n hl
    change (p, m) ∈ held (S.sysMalloc n s.heap s.mem).2.1
    by_cases hnull : (S.sysMalloc n s.heap s.mem).1 = NULL
    · rw [hS.malloc_null n _ _ hnull]
      exact hs.live_held p m (hl.resolve_left fun hp => hp.1 hnull)
    · rw [(hS.malloc_block n _ _ hnull).2]
      rcases hl with ⟨-, hp, hn⟩ | hl
      · exact Or.inl (Prod.ext hp.symm hn.symm)
      · exact Or.inr (hs.live_held p m hl)
  cases h with
  | noMemory size hnull => exact hmalloc size hlive
  | scratch => exact hs.live_held p m hlive
  | createFile => exact hmalloc 256#32 hlive
  | createDirectory => exact hs.live_held p m hlive
  | delete i hmay huse hparent hempty =>
      change (p, m) ∈ held (s.release S i).heap
      have hlive : LiveBlock (s.release S i).trace p m := hlive
      rw [Shell.release] at hlive ⊢
      split_ifs at hlive ⊢ with hnull
      · exact hs.live_held p m hlive
      · have hreg : s.ramfs.Regular i := by
          by_contra hreg
          exact hnull (hs.blocks.others i hreg)
        have hfree := hS.free_block s.heap s.mem _ (hs.block_held hreg)
        change (p, m) ∈ held (S.sysFree (s.file i).data s.heap s.mem).1
        rw [hfree]
        exact ⟨hs.live_held p m hlive.2, fun heq => hlive.1 (congrArg Prod.fst heq).symm⟩
  | grow i size hmay hsized huse hreg hcap hmem =>
      have hreg : s.ramfs.Regular i := ⟨huse, hreg⟩
      have hne := hs.blocks.data_ne_null hreg
      rw [grown_trace hne] at hlive
      obtain ⟨hp, hlive⟩ := hlive
      have hold : ((s.file i).data, (s.file i).capacity)
          ∈ held (s.malloc S (grownCapacity size)).2.heap := by
        change _ ∈ held (S.sysMalloc (grownCapacity size) s.heap s.mem).2.1
        rw [(hS.malloc_block _ _ _ hmem).2]
        exact Or.inr (hs.block_held hreg)
      rw [grown_heap hne, hS.free_block _ _ _ hold]
      exact ⟨hmalloc _ hlive, fun heq => hp (congrArg Prod.fst heq).symm⟩
  | fill i data size hmay hsized huse hreg hsize =>
      rw [liveBlock_fillFile] at hlive
      rw [fillFile_heap]
      exact hs.live_held p m hlive
  | chdir => exact hs.live_held p m hlive

lemma size_le_update {fs fs' : RamFs} {f : RamFile}
    (h : ∀ j, fs.Regular j → (fs.files j).size ≤ (fs.files j).capacity)
    (hfiles : fs'.files = Function.update fs.files i f)
    (hf : f.inUse = true → f.isDirectory = 0#32 → f.size ≤ f.capacity) (j : Fin 64)
    (hj : fs'.Regular j) : (fs'.files j).size ≤ (fs'.files j).capacity := by
  rw [RamFs.Regular, hfiles] at hj
  rw [hfiles]
  by_cases hji : j = i
  · rw [hji, Function.update_self] at hj ⊢
    exact hf hj.1 hj.2
  · rw [Function.update_of_ne hji] at hj ⊢
    exact h j hj

/-- No size exceeds its capacity. -/
lemma Action.size_le (hS : S.Serves held) (h : Action S G s s') (hs : ContentsOk held s) :
    ∀ j, s'.ramfs.Regular j → (s'.file j).size ≤ (s'.file j).capacity := by
  cases h with
  | noMemory size hnull => exact hs.size_le
  | scratch slot f hfree hf hdata =>
      exact size_le_update hs.size_le rfl fun huse =>
        absurd (hf.symm.trans huse) Bool.false_ne_true
  | createFile name slot hname hfind hfree hmem =>
      exact size_le_update hs.size_le rfl fun _ _ =>
        BitVec.le_def.mpr (Nat.zero_le _)
  | createDirectory name slot isDirectory hname hfind hfree hdir =>
      exact size_le_update hs.size_le rfl fun _ hreg => absurd hreg hdir
  | delete i hmay huse hparent hempty =>
      refine size_le_update (i := i) (f := RamFile.zero) hs.size_le ?_ fun huse =>
        absurd huse (by decide)
      rw [Shell.unlink, Shell.release_ramfs]
  | grow i size hmay hsized huse hreg hcap hmem =>
      refine size_le_update hs.size_le (Shell.grown_files size) fun _ _ => ?_
      have hle := hs.size_le i ⟨huse, hreg⟩
      rcases (grownCapacity_cases size).2 with ⟨hzero, -⟩ | hge
      · exact absurd hzero (hS.size_ne_zero hmem)
      · exact BitVec.le_trans hle (BitVec.le_trans (BitVec.le_of_lt hcap) hge)
  | fill i data size hmay hsized huse hreg hsize =>
      refine size_le_update hs.size_le (fillFile_files data size) fun _ _ => ?_
      rcases hsize with hzero | hle
      · exact absurd hzero (hS.bounds _ _ (hs.block_held ⟨huse, hreg⟩)).1
      · exact hle
  | chdir => exact hs.size_le

/-- Every action keeps the contents in order. -/
lemma Action.contentsOk (hS : S.Serves held) (h : Action S G s s') (hs : ContentsOk held s) :
    ContentsOk held s' := by
  have hfresh := h.freshMallocs_of_serves hS hs
  exact ⟨h.blocksOk hs.blocks hfresh, hfresh, h.live_held hS hs, h.size_le hS hs⟩

/-- The contents are in order when `ramfs_init` returns. -/
lemma Shell.Started.contentsOk (h : s.Started) : ContentsOk held s := by
  refine ⟨h.blocksOk, ?_, fun p m hp => ?_, fun i hi => ?_⟩
  · rw [h.trace_eq]
    trivial
  · rw [h.trace_eq] at hp
    exact absurd hp id
  · obtain ⟨m, hm⟩ : LiveAt s.trace (s.file i).data := ⟨_, h.blocksOk.regular i hi⟩
    rw [h.trace_eq] at hm
    exact absurd hm id

/-- A request leaves the bytes of a file. -/
lemma ContentsOk.mem_malloc (hS : S.Serves held) (hs : ContentsOk held s) (hj : s.ramfs.Regular j)
    (n : Word) : ∀ k < (s.file j).size.toNat,
      (s.malloc S n).2.mem ((s.file j).data + BitVec.ofNat 32 k)
        = s.mem ((s.file j).data + BitVec.ofNat 32 k) :=
  fun _ hk => hS.malloc_bytes n _ _ _ (hs.block_held hj) (hs.byte_mem hj hk)

/-- The new buffer of a file, and the release of the old one, leave the bytes of another. -/
lemma ContentsOk.mem_grown (hS : S.Serves held) (hs : ContentsOk held s) {i : Fin 64}
    {size : Word} (hi : s.ramfs.Regular i) (hj : s.ramfs.Regular j) (hne : j ≠ i)
    (hcap : (s.file i).capacity < size) (hmem : (s.malloc S (grownCapacity size)).1 ≠ NULL) :
    ∀ k < (s.file j).size.toNat, (s.grown S i size).mem ((s.file j).data + BitVec.ofNat 32 k)
      = s.mem ((s.file j).data + BitVec.ofNat 32 k) := by
  intro k hk
  have hbj := hs.block_held hj
  have hheld := (hS.malloc_block _ _ _ hmem).2
  have hbj' := hheld ▸ Set.mem_insert_of_mem _ hbj
  have hbi' := hheld ▸ Set.mem_insert_of_mem _ (hs.block_held hi)
  have hp := hheld ▸ Set.mem_insert _ (held s.heap)
  have hle : (s.file i).size.toNat ≤ (grownCapacity size).toNat := by
    have hle := BitVec.le_def.mp (hs.size_le i hi)
    have hcap := BitVec.lt_def.mp hcap
    rcases (grownCapacity_cases size).2 with ⟨hzero, -⟩ | hge
    · exact absurd hzero (hS.size_ne_zero hmem)
    · have := BitVec.le_def.mp hge
      omega
  have hdisj := hS.disjoint_span hp hbj'
    (fun heq => hS.malloc_fresh hmem hbj (congrArg Prod.fst heq).symm) hle
  have hmem_j := hs.byte_mem hj hk
  calc (s.grown S i size).mem ((s.file j).data + BitVec.ofNat 32 k)
      = copyBytes (s.malloc S (grownCapacity size)).1 (s.file i).data (s.file i).size.toNat
          (s.malloc S (grownCapacity size)).2.mem ((s.file j).data + BitVec.ofNat 32 k) := by
        rw [grown_mem (hs.blocks.data_ne_null hi)]
        refine hS.free_bytes _ _ _ hbi' _ hbj' (fun heq => ?_) hmem_j
        exact hne (hs.blocks.inj j i hj hi (congrArg Prod.fst heq))
    _ = (s.malloc S (grownCapacity size)).2.mem ((s.file j).data + BitVec.ofNat 32 k) :=
        copyBytes_of_notMem (by omega) (Set.disjoint_right.mp hdisj hmem_j)
    _ = s.mem ((s.file j).data + BitVec.ofNat 32 k) := hs.mem_malloc hS hj _ k hk

/-- The bytes stored in a file, and the NUL behind them, leave the bytes of another. -/
lemma ContentsOk.mem_fillFile (hS : S.Serves held) (hs : ContentsOk held s) {i : Fin 64}
    {data : ℕ → Byte} {size : Word} (hi : s.ramfs.Regular i) (hj : s.ramfs.Regular j) (hne : j ≠ i)
    (hsize : (s.file i).capacity = 0#32 ∨ size ≤ (s.file i).capacity) :
    ∀ k < (s.file j).size.toNat, (fillFile i data size s).mem ((s.file j).data + BitVec.ofNat 32 k)
      = s.mem ((s.file j).data + BitVec.ofNat 32 k) := by
  intro k hk
  have hbi := hs.block_held hi
  have hbj := hs.block_held hj
  have hbne : ((s.file i).data, (s.file i).capacity) ≠ ((s.file j).data, (s.file j).capacity) :=
    fun heq => hne (hs.blocks.inj j i hj hi (congrArg Prod.fst heq).symm)
  have hle : size.toNat ≤ (s.file i).capacity.toNat := by
    rcases hsize with hzero | hle
    · exact absurd hzero (hS.bounds _ _ hbi).1
    · exact BitVec.le_def.mp hle
  have hmem_j := hs.byte_mem hj hk
  have hstore : storeBytes (s.file i).data data size.toNat s.mem
      ((s.file j).data + BitVec.ofNat 32 k) = s.mem ((s.file j).data + BitVec.ofNat 32 k) :=
    storeBytes_of_notMem (by omega)
      (Set.disjoint_right.mp (hS.disjoint_span hbi hbj hbne hle) hmem_j)
  -- the NUL goes right behind the data, at most to the byte behind the block
  have hnul : (s.file j).data + BitVec.ofNat 32 k ≠ (s.file i).data + size :=
    fun heq => hS.notMem_span hbi hbj hbne size hle (heq ▸ hmem_j)
  rw [fillFile]
  split_ifs
  · exact (Function.update_of_ne hnul _ _).trans hstore
  · exact hstore

/-- **What an action keeps**: an entry it may not touch, with the bytes of the file. -/
lemma Action.keeps (hS : S.Serves held) (h : Action S G s s') (hs : ContentsOk held s)
    (hj : s.ramfs.Regular j) (hnot : ¬G.may j) : s'.file j = s.file j ∧
      ∀ k < (s.file j).size.toNat, s'.mem ((s.file j).data + BitVec.ofNat 32 k)
        = s.mem ((s.file j).data + BitVec.ofNat 32 k) := by
  have hbj := hs.block_held hj
  have hne : ∀ i, (s.file i).inUse = false → j ≠ i := by
    rintro i hi rfl
    exact Bool.false_ne_true (hi.symm.trans hj.1)
  have hmay : ∀ i, G.may i → j ≠ i := fun i hi hji => hnot (hji ▸ hi)
  cases h with
  | noMemory size hnull => exact ⟨rfl, hs.mem_malloc hS hj size⟩
  | scratch slot f hfree hf hdata =>
      exact ⟨Function.update_of_ne (hne slot hfree) _ _, fun _ _ => rfl⟩
  | createFile name slot hname hfind hfree hmem =>
      refine ⟨Function.update_of_ne (hne slot hfree) _ _, fun k hk => ?_⟩
      have hheld := (hS.malloc_block _ _ _ hmem).2
      have hbj' : ((s.file j).data, (s.file j).capacity)
          ∈ held (S.sysMalloc 256#32 s.heap s.mem).2.1 := hheld ▸ Or.inr hbj
      have hp : ((S.sysMalloc 256#32 s.heap s.mem).1, 256#32)
          ∈ held (S.sysMalloc 256#32 s.heap s.mem).2.1 := hheld ▸ Or.inl rfl
      have hapart := hS.notMem_span hp hbj'
        (fun heq => hS.malloc_fresh hmem hbj (congrArg Prod.fst heq).symm) 0#32 (Nat.zero_le _)
      refine Eq.trans (Function.update_of_ne (fun heq => hapart ?_) _ _)
        (hs.mem_malloc hS hj 256#32 k hk)
      exact heq ▸ hs.byte_mem hj hk
  | createDirectory name slot isDirectory hname hfind hfree hdir =>
      exact ⟨Function.update_of_ne (hne slot hfree) _ _, fun _ _ => rfl⟩
  | delete i hi huse hparent hempty =>
      refine ⟨?_, fun k hk => ?_⟩
      · rw [Shell.file, Shell.unlink, Shell.release_ramfs]
        exact Function.update_of_ne (hmay i hi) _ _
      · change (s.release S i).mem _ = _
        rw [Shell.release]
        split_ifs with hnull
        · rfl
        · have hreg : s.ramfs.Regular i := by
            by_contra hreg
            exact hnull (hs.blocks.others i hreg)
          refine hS.free_bytes _ _ _ (hs.block_held hreg) _ hbj (fun heq => ?_) (hs.byte_mem hj hk)
          exact hmay i hi (hs.blocks.inj j i hj hreg (congrArg Prod.fst heq))
  | grow i size hi hsized huse hreg hcap hmem =>
      refine ⟨?_, hs.mem_grown hS ⟨huse, hreg⟩ hj (hmay i hi) hcap hmem⟩
      rw [Shell.file, Shell.grown_files]
      exact Function.update_of_ne (hmay i hi) _ _
  | fill i data size hi hsized huse hreg hsize =>
      refine ⟨?_, hs.mem_fillFile hS ⟨huse, hreg⟩ hj (hmay i hi) hsize⟩
      rw [Shell.file, fillFile_files]
      exact Function.update_of_ne (hmay i hi) _ _
  | chdir => exact ⟨rfl, fun _ _ => rfl⟩

/-! ### Reading -/

/-- The number of bytes a read delivers. -/
lemma toNat_min (a b : Word) : (if a < b then a else b).toNat = min a.toNat b.toNat := by
  split_ifs with h
  · have := BitVec.lt_def.mp h
    omega
  · have := mt BitVec.lt_def.mpr h
    omega

/-- A read of a regular file delivers its bytes. -/
lemma ramfsReadFile_regular (hfind : ramfsFindFile name s.ramfs.currentDir s.ramfs = some i)
    (hreg : (s.file i).isDirectory = 0#32) (n : Word) :
    (ramfsReadFile name n s).1.toNat = min (s.file i).size.toNat n.toNat ∧
      (ramfsReadFile name n s).2 = (List.range (min (s.file i).size.toNat n.toNat)).map fun k =>
        s.mem ((s.file i).data + BitVec.ofNat 32 k) := by
  simp only [ramfsReadFile, hfind, hreg, ne_eq, not_true_eq_false, ↓reduceIte, toNat_min, true_and]

/-- Reads agree where the lookups find the same file with the same bytes. -/
lemma ramfsReadFile_congr {t : Shell σ}
    (hfind : ramfsFindFile name s.ramfs.currentDir s.ramfs = some i)
    (hfind' : ramfsFindFile name t.ramfs.currentDir t.ramfs = some i)
    (hfile : t.file i = s.file i) (hbytes : ∀ k < (s.file i).size.toNat,
      t.mem ((s.file i).data + BitVec.ofNat 32 k)
        = s.mem ((s.file i).data + BitVec.ofNat 32 k)) (n : Word) :
    ramfsReadFile name n t = ramfsReadFile name n s := by
  simp only [ramfsReadFile, hfind, hfind', hfile]
  split_ifs with hdir hsize
  · rfl
  · refine congrArg _ (List.map_congr_left fun k hk => hbytes k (List.mem_range.mp hk))
  · refine congrArg _ (List.map_congr_left fun k hk => hbytes k ?_)
    have := List.mem_range.mp hk
    have := mt BitVec.lt_def.mpr hsize
    omega

/-- A failed search and creation has a negative code. -/
lemma findOrCreate_error (hinit : s.ramfs.initialized = true) {code : Word}
    (h : findOrCreate S name s = (.error code, s')) : code.toInt < 0 := by
  rw [findOrCreate] at h
  cases hfind : ramfsFindFile name s.ramfs.currentDir s.ramfs with
  | some i => simp [hfind] at h
  | none =>
      simp only [hfind] at h
      cases hslot : ramfsFindFreeSlot s.ramfs with
      | none =>
          rw [ramfsCreate_full hinit hfind hslot] at h
          obtain rfl := Except.error.inj (congrArg Prod.fst h)
          decide
      | some slot =>
          by_cases hnull : (s.malloc S 256#32).1 = NULL
          · rw [ramfsCreate_noMemory hinit hfind hslot hnull] at h
            obtain rfl := Except.error.inj (congrArg Prod.fst h)
            decide
          · rw [ramfsCreate_file hinit hfind hslot hnull] at h
            simp at h

/-- The file that is found or created is the entry of the name in the current directory. -/
lemma findOrCreate_ok (hinit : s.ramfs.initialized = true) (hlen : name.chars.length ≤ 31)
    (h : findOrCreate S name s = (.ok i, s')) :
    Entry s'.ramfs i s.ramfs.currentDir name.chars ∧
      s'.ramfs.currentDir = s.ramfs.currentDir := by
  rw [findOrCreate] at h
  cases hfind : ramfsFindFile name s.ramfs.currentDir s.ramfs with
  | some j =>
      simp only [hfind] at h
      obtain ⟨h1, rfl⟩ := Prod.mk.inj h
      obtain rfl := Except.ok.inj h1
      exact ⟨entry_of_find hfind, rfl⟩
  | none =>
      simp only [hfind] at h
      cases hslot : ramfsFindFreeSlot s.ramfs with
      | none =>
          rw [ramfsCreate_full hinit hfind hslot] at h
          simp at h
      | some slot =>
          by_cases hnull : (s.malloc S 256#32).1 = NULL
          · rw [ramfsCreate_noMemory hinit hfind hslot hnull] at h
            simp at h
          · rw [ramfsCreate_file hinit hfind hslot hnull] at h
            obtain ⟨h1, rfl⟩ := Prod.mk.inj h
            obtain rfl := Except.ok.inj h1
            refine ⟨?_, rfl⟩
            simp [Entry, Shell.link, newFile, FileName.text_assign_of_le _ hlen]

/-- A write that returns its size has filled the entry of the name. -/
lemma ramfsWriteFile_success (hinit : s.ramfs.initialized = true)
    (hlen : name.chars.length ≤ 31) {data : ℕ → Byte}
    (hret : (ramfsWriteFile S name data size s).1.toInt = size.toNat) :
    ∃ i s', (ramfsWriteFile S name data size s).2 = fillFile i data size s' ∧
      Entry s'.ramfs i s.ramfs.currentDir name.chars ∧ (s'.file i).isDirectory = 0#32 ∧
      s'.ramfs.currentDir = s.ramfs.currentDir := by
  obtain ⟨r, s', hfoc⟩ : ∃ r s', findOrCreate S name s = (r, s') := ⟨_, _, rfl⟩
  cases r with
  | error code =>
      rw [ramfsWriteFile_error hfoc] at hret
      have := findOrCreate_error hinit hfoc
      dsimp only at hret
      omega
  | ok i =>
      obtain ⟨hentry, hcur⟩ := findOrCreate_ok hinit hlen hfoc
      by_cases hreg : (s'.file i).isDirectory = 0#32
      · by_cases hcap : (s'.file i).capacity < size
        · by_cases hnull : (s'.malloc S (grownCapacity size)).1 = NULL
          · rw [ramfsWriteFile_noMemory hfoc hreg (expandBuffer_noMemory hcap hnull)] at hret
            have : (-3#32 : Word).toInt < 0 := by decide
            dsimp only at hret
            omega
          · rw [ramfsWriteFile_file hfoc hreg (expandBuffer_grown hcap hnull)]
            refine ⟨i, s'.grown S i size, rfl, ?_, ?_, ?_⟩
            · rw [Entry, Shell.grown_files, Function.update_self]
              exact hentry
            · rw [Shell.file, Shell.grown_files, Function.update_self]
              exact hreg
            · rw [Shell.grown_ramfs]
              exact hcur
        · rw [ramfsWriteFile_file hfoc hreg (expandBuffer_enough hcap)]
          exact ⟨i, s', rfl, hentry, hreg, hcur⟩
      · rw [ramfsWriteFile_directory hfoc hreg] at hret
        have : (-1#32 : Word).toInt < 0 := by decide
        dsimp only at hret
        omega

/-- A filled file holds the data. -/
lemma fillFile_bytes (data : ℕ → Byte) {k : ℕ} (hk : k < size.toNat) :
    (fillFile i data size s).mem ((s.file i).data + BitVec.ofNat 32 k) = data k := by
  have hstore : storeBytes (s.file i).data data size.toNat s.mem
      ((s.file i).data + BitVec.ofNat 32 k) = data k := storeBytes_of_lt size.isLt.le k hk
  have hnul : (s.file i).data + BitVec.ofNat 32 k ≠ (s.file i).data + size := by bv_omega
  rw [fillFile]
  split_ifs
  · exact (Function.update_of_ne hnul _ _).trans hstore
  · exact hstore

/-- The names of a call have at most 31 characters. -/
def RamFsCall.Uncut : RamFsCall → Prop
  | .create name _ => name.chars.length ≤ 31
  | .delete name => name.chars.length ≤ 31
  | .write name _ _ => name.chars.length ≤ 31
  | .read name _ => name.chars.length ≤ 31
  | .cd target => ∀ name ∈ target, name.chars.length ≤ 31

/-- The call does not write or delete the entry `name` of the directory `dir`. -/
def Shell.Spares (s : Shell σ) (dir : Fin 64) (name : CString) : RamFsCall → Prop
  | .write n _ _ => ¬(s.ramfs.currentDir = dir ∧ n.chars = name.chars)
  | .delete n => ¬(s.ramfs.currentDir = dir ∧ n.chars = name.chars)
  | _ => True

/-- `ramfs_read_file` in a directory. -/
def readAt (dir : Fin 64) (name : CString) (n : Word) (s : Shell σ) : Word × List Byte :=
  ramfsReadFile name n (s.setDir dir)

/-- A lookup in the directory finds a regular file. -/
def Shell.HasFile (s : Shell σ) (dir : Fin 64) (name : CString) : Prop :=
  ∃ i, ramfsFindFile name dir s.ramfs = some i ∧ (s.file i).isDirectory = 0#32

/-- Names and contents are in order. -/
structure FsOk (held : σ → Set (Addr × Word)) (s : Shell σ) : Prop where
  names : NamesOk s
  contents : ContentsOk held s
  initialized : s.ramfs.initialized = true

lemma RamFsCall.Uncut.creates {c : RamFsCall} (hc : c.Uncut) (h : s.CallCreates S c name) :
    name.chars.length ≤ 31 := by
  cases c with
  | create n isDirectory => exact h.1 ▸ hc
  | write n data size => exact h.1 ▸ hc
  | delete n => exact absurd h id
  | read n bufferSize => exact absurd h id
  | cd target => exact absurd h id

lemma FsOk.call (hS : S.Serves held) (h : FsOk held s) {c : RamFsCall} (hc : c.Uncut) :
    FsOk held (s.call S c).2 := by
  have hact := Shell.call_actions (S := S) h.initialized (s.permits_all c)
  exact ⟨h.names.call h.initialized fun name hn => hc.creates hn,
    hact.invariant (fun u u' hu h => h.contentsOk hS hu) h.contents,
    hact.initialized.trans h.initialized⟩

lemma Shell.Started.fsOk (h : s.Started) : FsOk held s :=
  ⟨h.namesOk, h.contentsOk, h.initialized⟩

lemma FsOk.run (hS : S.Serves held) (h : FsOk held s) {ok : Shell σ → RamFsCall → Prop}
    (hok : ∀ u c, ok u c → c.Uncut) {cs : List RamFsCall}
    (hrun : Run (Shell.step S) ok s cs s') : FsOk held s' := by
  refine hrun.invariant (fun u c u' hu hc hstep => ?_) h
  obtain rfl := Option.some.inj hstep
  exact hu.call hS (hok u c hc)

lemma entry_iff_file {dir : Fin 64} {text : List Byte} : Entry s.ramfs i dir text ↔
    (s.file i).inUse = true ∧ (s.file i).parentIndex = dir ∧ (s.file i).name.text = text :=
  Iff.rfl

/-- The file in slot `j` has not changed between two states. -/
def SameFile (j : Fin 64) (s s' : Shell σ) : Prop :=
  s'.file j = s.file j ∧ ∀ k < (s.file j).size.toNat,
    s'.mem ((s.file j).data + BitVec.ofNat 32 k) = s.mem ((s.file j).data + BitVec.ofNat 32 k)

lemma SameFile.trans {u : Shell σ} (h : SameFile j s s') (h' : SameFile j s' u) :
    SameFile j s u := by
  refine ⟨h'.1.trans h.1, fun k hk => ?_⟩
  have := h'.2 k (by rw [h.1]; exact hk)
  rw [h.1] at this
  exact this.trans (h.2 k hk)

lemma SameFile.entry (h : SameFile j s s') {dir : Fin 64} {text : List Byte}
    (he : Entry s.ramfs j dir text) : Entry s'.ramfs j dir text := by
  rw [entry_iff_file, h.1]
  exact he

/-- A call that spares a file leaves it. -/
lemma FsOk.call_sameFile (hS : S.Serves held) (h : FsOk held s) {dir : Fin 64}
    (hentry : Entry s.ramfs j dir name.chars) (hreg : (s.file j).isDirectory = 0#32)
    {c : RamFsCall} (hspares : s.Spares dir name c) : SameFile j s (s.call S c).2 := by
  -- what the call may touch is the entry of another name or another directory
  have htouches : ∀ i, s.CallTouches c i → i ≠ j := by
    rintro i hi rfl
    have hother : ∀ n, ramfsFindFile n s.ramfs.currentDir s.ramfs = some i →
        s.ramfs.currentDir = dir ∧ n.chars = name.chars := by
      intro n hn
      obtain ⟨-, hp, ht⟩ := entry_of_find hn
      exact ⟨hp.symm.trans hentry.2.1, ht.symm.trans hentry.2.2⟩
    cases c with
    | write n data size => exact hspares (hother n hi)
    | delete n => exact hspares (hother n hi)
    | create n isDirectory => exact hi
    | read n bufferSize => exact hi
    | cd target => exact hi
  have hfresh : ∀ i, (s.file i).inUse = false → i ≠ j := by
    rintro i hi rfl
    exact Bool.false_ne_true (hi.symm.trans hentry.1)
  have hact := Shell.call_actions (S := S)
    (G := ⟨fun _ => True, fun i => i ≠ j, fun _ => True⟩) h.initialized
    (c := c) ⟨fun _ _ => trivial, htouches, hfresh, fun _ _ => trivial⟩
  refine (hact.invariant (P := fun u => ContentsOk held u ∧ SameFile j s u) ?_
    ⟨h.contents, rfl, fun _ _ => rfl⟩).2
  rintro u u' ⟨hu, hsame⟩ hact
  have hju : u.ramfs.Regular j := by
    change (u.file j).inUse = true ∧ (u.file j).isDirectory = 0#32
    rw [hsame.1]
    exact ⟨hentry.1, hreg⟩
  exact ⟨hact.contentsOk hS hu, hsame.trans (hact.keeps hS hu hju fun hne => hne rfl)⟩

/-- A run that spares a file leaves it. -/
lemma FsOk.run_sameFile (hS : S.Serves held) (h : FsOk held s) {dir : Fin 64}
    (hentry : Entry s.ramfs j dir name.chars) (hreg : (s.file j).isDirectory = 0#32)
    {cs : List RamFsCall}
    (hrun : Run (Shell.step S) (fun u c => c.Uncut ∧ u.Spares dir name c) s cs s') :
    SameFile j s s' := by
  refine (hrun.invariant (P := fun u => FsOk held u ∧ SameFile j s u) ?_
    ⟨h, rfl, fun _ _ => rfl⟩).2
  rintro u c u' ⟨hu, hsame⟩ ⟨hc, hspares⟩ hstep
  obtain rfl := Option.some.inj hstep
  exact ⟨hu.call hS hc, hsame.trans (hu.call_sameFile hS (hsame.entry hentry)
    (by rw [hsame.1]; exact hreg) hspares)⟩

/-- The entry of a name is found. -/
lemma NamesOk.find_eq (h : NamesOk s) {dir : Fin 64} (hentry : Entry s.ramfs i dir name.chars) :
    ramfsFindFile name dir s.ramfs = some i :=
  find_eq_some hentry fun j hj => h.unique j i dir _ hj hentry

/-- Unchanged files read the same. -/
lemma SameFile.readAt_eq (h : SameFile j s s') (hn : NamesOk s) (hn' : NamesOk s') {dir : Fin 64}
    (hentry : Entry s.ramfs j dir name.chars) (n : Word) :
    readAt dir name n s' = readAt dir name n s :=
  ramfsReadFile_congr (s := s.setDir dir) (t := s'.setDir dir) (hn.find_eq hentry)
    (hn'.find_eq (h.entry hentry)) h.1 h.2 n

/-- **What is written is read back.**  Over a heap that serves blocks, in a state reached with
names of at most 31 characters: after a write that returns its size, a read in the same
directory delivers the data, as far as it asks for them; and every other file reads as before,
after any further calls that do not write or delete it. -/
theorem Shell.read_after_write (hS : S.Serves held) (hs : s.Started) {cs : List RamFsCall}
    (hrun : Run (Shell.step S) (fun _ c => c.Uncut) s cs s') (hname : name.chars.length ≤ 31)
    {data : ℕ → Byte} (hret : (ramfsWriteFile S name data size s').1.toInt = size.toNat) :
    (∀ n, (ramfsReadFile name n (ramfsWriteFile S name data size s').2).1.toNat
          = min size.toNat n.toNat ∧
        (ramfsReadFile name n (ramfsWriteFile S name data size s').2).2
          = (List.range (min size.toNat n.toNat)).map data) ∧
      ∀ dir other, s'.HasFile dir other →
        ¬(dir = s'.ramfs.currentDir ∧ other.chars = name.chars) → ∀ cs' w,
        Run (Shell.step S) (fun u c => c.Uncut ∧ u.Spares dir other c)
          (ramfsWriteFile S name data size s').2 cs' w →
        ∀ n, readAt dir other n w = readAt dir other n s' := by
  have hok' : FsOk held s' := hs.fsOk.run hS (fun _ _ => id) hrun
  have hokw : FsOk held (ramfsWriteFile S name data size s').2 :=
    hok'.call hS (c := .write name data size) hname
  constructor
  · intro n
    obtain ⟨i, t, hfill, hentry, hreg, hcur⟩ :=
      ramfsWriteFile_success hok'.initialized hname hret
    rw [hfill] at hokw ⊢
    have hfile : (fillFile i data size t).file i = { t.file i with size := size } := by
      rw [Shell.file, fillFile_files, Function.update_self]
    have hdir : (fillFile i data size t).ramfs.currentDir = s'.ramfs.currentDir := by
      rw [fillFile_ramfs, hcur]
    have hentry' : Entry (fillFile i data size t).ramfs i
        (fillFile i data size t).ramfs.currentDir name.chars := by
      rw [hdir, entry_iff_file, hfile]
      exact hentry
    obtain ⟨hlen, hbytes⟩ := ramfsReadFile_regular (hokw.names.find_eq hentry')
      (by rw [hfile]; exact hreg) n
    rw [hfile] at hlen hbytes
    refine ⟨hlen, hbytes.trans (List.map_congr_left fun k hk => ?_)⟩
    exact fillFile_bytes data (lt_min_iff.mp (List.mem_range.mp hk)).1
  · rintro dir other ⟨j, hfind, hreg⟩ hother cs' w hrun' n
    have hentry := entry_of_find hfind
    have hwrite : SameFile j s' (ramfsWriteFile S name data size s').2 :=
      hok'.call_sameFile hS hentry hreg (c := .write name data size) fun heq =>
        hother ⟨heq.1.symm, heq.2.symm⟩
    have hsame : SameFile j s' w := hwrite.trans
      (hokw.run_sameFile hS (hwrite.entry hentry) (by rw [hwrite.1]; exact hreg) hrun')
    exact hsame.readAt_eq hok'.names (hokw.run hS (fun _ _ h => h.1) hrun').names hentry n

/-- A read of the first two bytes written. -/
theorem Shell.read_after_write_bump :
    (ramfsReadFile dotDot 2#32
      (ramfsWriteFile bumpCalls dotDot (fun k => BitVec.ofNat 8 k) 3#32 bumpShell).2).2
      = [0#8, 1#8] := by
  have hret : (ramfsWriteFile bumpCalls dotDot (fun k => BitVec.ofNat 8 k) 3#32
      bumpShell).1.toInt = (3#32 : Word).toNat := by decide +kernel
  exact ((Shell.read_after_write bumpCalls_serves bumpShell_started (.nil _) (by decide) hret).1
    2#32).2

/-! ### Failures -/

/-- The two states have the same entries with the same names, parents, kinds, sizes and
contents, and the same counters. -/
structure SameView (s s' : Shell σ) : Prop where
  inUse : ∀ i, (s'.file i).inUse = (s.file i).inUse
  entries : ∀ i, (s.file i).inUse = true → (s'.file i).name = (s.file i).name ∧
    (s'.file i).parentIndex = (s.file i).parentIndex ∧
    (s'.file i).isDirectory = (s.file i).isDirectory ∧ (s'.file i).size = (s.file i).size
  contents : ∀ i, s.ramfs.Regular i → ∀ k < (s.file i).size.toNat,
    s'.mem ((s'.file i).data + BitVec.ofNat 32 k) = s.mem ((s.file i).data + BitVec.ofNat 32 k)
  fileCount : s'.ramfs.fileCount = s.ramfs.fileCount
  currentDir : s'.ramfs.currentDir = s.ramfs.currentDir

/-- The call is a write that creates its file, and then finds no memory for the buffer it needs:
`ramfs_write_file` returns without deleting the file. -/
def Shell.LeavesFile (S : SysCalls σ) (s : Shell σ) : RamFsCall → Prop
  | .write name _ size =>
      let r := S.sysMalloc 256#32 s.heap s.mem
      s.Creates S name 0#32 ∧ 256#32 < size ∧
        (S.sysMalloc (grownCapacity size) r.2.1 (Function.update r.2.2 (r.1 + 0#32) 0#8)).1 = NULL
  | _ => False

lemma SameView.refl (s : Shell σ) : SameView s s :=
  ⟨fun _ => rfl, fun _ _ => ⟨rfl, rfl, rfl, rfl⟩, fun _ _ _ _ => rfl, rfl, rfl⟩

/-- A request that fails, and a change of a free slot. -/
lemma ContentsOk.sameView_malloc (hS : S.Serves held) (h : ContentsOk held s) (n : Word) :
    SameView s (s.malloc S n).2 where
  inUse _ := rfl
  entries _ _ := ⟨rfl, rfl, rfl, rfl⟩
  contents _ hi _ hk := hS.malloc_bytes n _ _ _ (h.block_held hi) (h.byte_mem hi hk)
  fileCount := rfl
  currentDir := rfl

lemma SameView.scratch (h : SameView s s') {f : RamFile} (hfree : (s.file i).inUse = false)
    (hf : f.inUse = false) : SameView s (s'.setFile i f) := by
  have hfile : ∀ j, (s.file j).inUse = true → (s'.setFile i f).file j = s'.file j := by
    intro j hj
    refine Function.update_of_ne (fun hji => ?_) _ _
    rw [hji] at hj
    exact Bool.false_ne_true (hfree.symm.trans hj)
  refine ⟨fun j => ?_, fun j hj => ?_, fun j hj => ?_, h.fileCount, h.currentDir⟩
  · by_cases hji : j = i
    · subst hji
      rw [hfree]
      exact (congrArg RamFile.inUse (Function.update_self ..)).trans hf
    · exact (congrArg RamFile.inUse (Function.update_of_ne hji _ _)).trans (h.inUse j)
  · rw [hfile j hj]
    exact h.entries j hj
  · rw [hfile j hj.1]
    exact h.contents j hj

/-- `ramfs_create` leaves the file system as it was when it fails. -/
lemma ramfsCreate_error (hS : S.Serves held) (h : ContentsOk held s)
    (hinit : s.ramfs.initialized = true) {isDirectory code : Word}
    (herr : (ramfsCreate S name isDirectory s).1 = .error code) :
    SameView s (ramfsCreate S name isDirectory s).2 := by
  cases hfind : ramfsFindFile name s.ramfs.currentDir s.ramfs with
  | some i =>
      rw [ramfsCreate_exists hinit hfind]
      exact .refl s
  | none =>
      cases hslot : ramfsFindFreeSlot s.ramfs with
      | none =>
          rw [ramfsCreate_full hinit hfind hslot]
          exact .refl s
      | some slot =>
          have hfree := free_of_findFreeSlot hslot
          by_cases hdir : isDirectory = 0#32
          · subst hdir
            by_cases hnull : (s.malloc S 256#32).1 = NULL
            · rw [ramfsCreate_noMemory hinit hfind hslot hnull]
              exact (h.sameView_malloc hS 256#32).scratch hfree hfree
            · rw [ramfsCreate_file hinit hfind hslot hnull] at herr
              simp at herr
          · rw [ramfsCreate_directory hinit hfind hslot hdir] at herr
            simp at herr

/-- A slot number is no negative code. -/
lemma toInt_createCode (slot : Fin 64) : 0 ≤ (createCode (.ok slot)).toInt := by
  revert slot
  decide

/-- A write that finds a buffer for its data returns its size, which is not negative. -/
lemma toInt_size_nonneg (hS : S.Serves held) (h : ContentsOk held s) (hi : s.ramfs.Regular i)
    (hcap : ¬(s.file i).capacity < size) : 0 ≤ size.toInt := by
  have hle := hS.size_le (h.block_held hi)
  have hcap := mt BitVec.lt_def.mpr hcap
  dsimp only at hle
  rw [BitVec.toInt_eq_toNat_of_lt (by omega)]
  exact Int.natCast_nonneg _

/-- A write that has its file, and its buffer or memory for it, does not fail. -/
lemma ramfsWriteFile_nonneg (hS : S.Serves held) (h : ContentsOk held s') (hi : s'.ramfs.Regular i)
    (hfoc : findOrCreate S name s = (.ok i, s')) (data : ℕ → Byte)
    (hmem : (s'.file i).capacity < size → (s'.malloc S (grownCapacity size)).1 ≠ NULL) :
    0 ≤ (ramfsWriteFile S name data size s).1.toInt := by
  by_cases hcap : (s'.file i).capacity < size
  · have hgrow := Action.grow (G := .all) i size trivial trivial hi.1 hi.2 hcap (hmem hcap)
    have hfile : (s'.grown S i size).file i = { s'.file i with
        data := (s'.malloc S (grownCapacity size)).1, capacity := grownCapacity size } := by
      rw [Shell.file, Shell.grown_files, Function.update_self]
    have hreg : (s'.grown S i size).ramfs.Regular i := by
      change ((s'.grown S i size).file i).inUse = true ∧
        ((s'.grown S i size).file i).isDirectory = 0#32
      rw [hfile]
      exact hi
    rw [ramfsWriteFile_file hfoc hi.2 (expandBuffer_grown hcap (hmem hcap))]
    refine toInt_size_nonneg hS (hgrow.contentsOk hS h) hreg ?_
    rw [hfile]
    rcases (grownCapacity_cases size).2 with ⟨hzero, -⟩ | hge
    · exact absurd hzero (hS.size_ne_zero (hmem hcap))
    · exact BitVec.not_lt.mpr hge
  · rw [ramfsWriteFile_file hfoc hi.2 (expandBuffer_enough hcap)]
    exact toInt_size_nonneg hS h hi hcap

/-- The result of `cmd_cd` is 0 or 1. -/
lemma cmdCd_nonneg (target : Option CString) : 0 ≤ (cmdCd target s).1.toInt := by
  have h0 : (0 : ℤ) ≤ (0#32 : Word).toInt := by decide
  have h1 : (0 : ℤ) ≤ (1#32 : Word).toInt := by decide
  simp only [cmdCd]
  cases target with
  | none => exact h0
  | some target =>
      dsimp only
      split_ifs
      · exact h0
      · exact h0
      · exact h0
      · cases ramfsFindFile target (ramfsInit s).ramfs.currentDir (ramfsInit s).ramfs with
        | none => exact h1
        | some i =>
            dsimp only
            split_ifs
            · exact h1
            · exact h0

/-- A creation that returns a slot got as far as putting the entry in use. -/
lemma creates_of_ok (hinit : s.ramfs.initialized = true)
    (hfind : ramfsFindFile name s.ramfs.currentDir s.ramfs = none) {slot : Fin 64}
    (h : (ramfsCreate S name 0#32 s).1 = .ok slot) : s.Creates S name 0#32 := by
  cases hslot : ramfsFindFreeSlot s.ramfs with
  | none =>
      rw [ramfsCreate_full hinit hfind hslot] at h
      cases h
  | some i =>
      refine ⟨hfind, ⟨i, hslot⟩, fun _ hnull => ?_⟩
      rw [ramfsCreate_noMemory hinit hfind hslot hnull] at h
      cases h

/-- A write that fails. -/
lemma ramfsWriteFile_error_iff (hS : S.Serves held) (h : ContentsOk held s)
    (hinit : s.ramfs.initialized = true) (data : ℕ → Byte) :
    ((ramfsWriteFile S name data size s).1.toInt < 0 →
        SameView s (ramfsWriteFile S name data size s).2) ↔
      ¬s.LeavesFile S (.write name data size) := by
  cases hfind : ramfsFindFile name s.ramfs.currentDir s.ramfs with
  | some i =>
      have hfoc : findOrCreate S name s = (.ok i, s) := by rw [findOrCreate, hfind]
      have hnot : ¬s.LeavesFile S (.write name data size) := by
        rintro ⟨⟨hnone, -⟩, -⟩
        rw [hfind] at hnone
        exact Option.some_ne_none i hnone
      refine iff_of_true (fun hneg => ?_) hnot
      by_cases hreg : (s.file i).isDirectory = 0#32
      · by_cases hmem : (s.file i).capacity < size ∧ (s.malloc S (grownCapacity size)).1 = NULL
        · rw [ramfsWriteFile_noMemory hfoc hreg (expandBuffer_noMemory hmem.1 hmem.2)]
          exact h.sameView_malloc hS _
        · have := ramfsWriteFile_nonneg hS h ⟨(entry_of_find hfind).1, hreg⟩ hfoc data
            fun hcap hnull => hmem ⟨hcap, hnull⟩
          omega
      · rw [ramfsWriteFile_directory hfoc hreg]
        exact .refl s
  | none =>
      have hcreate : findOrCreate S name s = ramfsCreate S name 0#32 s := by
        rw [findOrCreate, hfind]
      cases hr : (ramfsCreate S name 0#32 s).1 with
      | error code =>
          have hsame := ramfsCreate_error hS h hinit hr
          rw [ramfsWriteFile_error (hcreate.trans (Prod.ext hr rfl))]
          refine iff_of_true (fun _ => hsame) ?_
          rintro ⟨hc, -⟩
          obtain ⟨slot, -, -, hok⟩ := hc.stored hinit
          rw [hok] at hr
          cases hr
      | ok slot =>
          have hcreates : s.Creates S name 0#32 := creates_of_ok hinit hfind hr
          obtain ⟨-, ⟨i, hslot⟩, hmem⟩ := hcreates
          have hmem : (s.malloc S 256#32).1 ≠ NULL := hmem rfl
          have hfree := free_of_findFreeSlot hslot
          have hact := Action.createFile (G := .all) name i trivial hfind hfree hmem
          have hfoc := hcreate.trans (ramfsCreate_file hinit hfind hslot hmem)
          obtain ⟨t, ht⟩ : ∃ t, t = ((s.malloc S 256#32).2.storeNul (s.malloc S 256#32).1 256#32
            0#32).link i name (newFile (s.file i) name (s.malloc S 256#32).1 256#32 0#32
              s.ramfs.currentDir) := ⟨_, rfl⟩
          rw [← ht] at hact hfoc
          have hfile : t.file i = newFile (s.file i) name (s.malloc S 256#32).1 256#32 0#32
              s.ramfs.currentDir := by
            rw [ht]
            exact Function.update_self ..
          have hreg : t.ramfs.Regular i := by
            change (t.file i).inUse = true ∧ (t.file i).isDirectory = 0#32
            rw [hfile]
            exact ⟨rfl, rfl⟩
          have hcapacity : (t.file i).capacity = 256#32 := by
            rw [hfile]
            rfl
          -- the request for the larger buffer is made in the state that the creation leaves
          have hleaves : s.LeavesFile S (.write name data size) ↔
              256#32 < size ∧ (t.malloc S (grownCapacity size)).1 = NULL := by
            rw [ht]
            exact and_iff_right ⟨hfind, ⟨i, hslot⟩, fun _ => hmem⟩
          rw [hleaves]
          by_cases hfail : 256#32 < size ∧ (t.malloc S (grownCapacity size)).1 = NULL
          · refine iff_of_false (fun hsame => ?_) (not_not.mpr hfail)
            rw [ramfsWriteFile_noMemory hfoc hreg.2
              (expandBuffer_noMemory (hcapacity ▸ hfail.1) hfail.2)] at hsame
            have hneg : (-3#32 : Word).toInt < 0 := by decide
            have huse := (hsame hneg).inUse i
            have hnew : ((t.malloc S (grownCapacity size)).2.file i).inUse = true := hreg.1
            rw [hnew, hfree] at huse
            exact Bool.false_ne_true huse.symm
          · refine iff_of_true (fun hneg => ?_) hfail
            have := ramfsWriteFile_nonneg hS (hact.contentsOk hS h) hreg hfoc data
              fun hcap hnull => hfail ⟨hcapacity ▸ hcap, hnull⟩
            omega

/-- **Failures** in every state over a heap that serves blocks: a negative result leaves the
entries, their contents and the counters as they were, exactly when the call is not a write that
creates its file and then finds no memory for the buffer. -/
theorem Shell.error_iff (hS : S.Serves held) (hs : s.Started)
    {ok : Shell σ → RamFsCall → Prop} {cs : List RamFsCall}
    (hrun : Run (Shell.step S) ok s cs s') (c : RamFsCall) :
    ((s'.call S c).1.toInt < 0 → SameView s' (s'.call S c).2) ↔ ¬s'.LeavesFile S c := by
  obtain ⟨hok, hinit⟩ : ContentsOk held s' ∧ s'.ramfs.initialized = true :=
    Shell.run_invariant (G := .all) (P := fun u => ContentsOk held u)
      (fun u c _ _ => u.permits_all c) (fun u u' hu h => h.contentsOk hS hu) hrun hs.initialized
      hs.contentsOk
  cases c with
  | create name isDirectory =>
      refine iff_of_true (fun hneg => ?_) id
      cases hr : (ramfsCreate S name isDirectory s').1 with
      | error code => exact ramfsCreate_error hS hok hinit hr
      | ok slot =>
          have hpos := toInt_createCode slot
          have hneg : (createCode (ramfsCreate S name isDirectory s').1).toInt < 0 := hneg
          rw [hr] at hneg
          omega
  | delete name =>
      refine iff_of_true (fun hneg => ?_) id
      have hneg : (ramfsDelete S name s').1.toInt < 0 := hneg
      change SameView s' (ramfsDelete S name s').2
      cases hfind : ramfsFindFile name s'.ramfs.currentDir s'.ramfs with
      | none =>
          rw [ramfsDelete_missing hfind]
          exact .refl s'
      | some i =>
          by_cases hdir : (s'.file i).isDirectory ≠ 0#32 ∧ hasEntry i s'.ramfs = true
          · rw [ramfsDelete_notEmpty hfind hdir]
            exact .refl s'
          · have h0 : ¬(0#32 : Word).toInt < 0 := by decide
            rw [ramfsDelete_found hfind hdir] at hneg
            exact absurd hneg h0
  | write name data size => exact ramfsWriteFile_error_iff hS hok hinit data
  | read name bufferSize => exact iff_of_true (fun _ => .refl s') id
  | cd target =>
      refine iff_of_true (fun hneg => ?_) id
      have hpos := cmdCd_nonneg (s := s') target
      exact absurd hneg (not_lt.mpr hpos)

/-- The file system over a heap with 300 bytes left. -/
def fullShell : Shell BumpHeap :=
  ⟨RamFs.initial, ⟨0x100000 - 300, [], by omega, by simp, BumpHeap.empty.apart⟩, fun _ => 0#8, []⟩

lemma fullShell_started : fullShell.Started :=
  ⟨{ fullShell with ramfs := { RamFs.initial with initialized := false } }, rfl, rfl, rfl⟩

/-- A file of three bytes. -/
def fullShellWritten : Shell BumpHeap :=
  (fullShell.call bumpCalls (.write dotDot (fun _ => 65#8) 3#32)).2

/-- A write of 300 bytes to the file finds no memory.  It returns -3, and the file stays as it
was. -/
theorem Shell.error_iff_noMemory :
    let r := fullShellWritten.call bumpCalls (.write dotDot (fun _ => 66#8) 300#32)
    r.1 = -3#32 ∧ SameView fullShellWritten r.2 := by
  have hrun : Run (Shell.step bumpCalls) (fun _ _ => True) fullShell
      [.write dotDot (fun _ => 65#8) 3#32] fullShellWritten := .cons trivial rfl (.nil _)
  have hcode : (fullShellWritten.call bumpCalls (.write dotDot (fun _ => 66#8) 300#32)).1 = -3#32 :=
    by decide +kernel
  have hfind : ramfsFindFile dotDot fullShellWritten.ramfs.currentDir fullShellWritten.ramfs =
      some 1 := by decide +kernel
  refine ⟨hcode, (Shell.error_iff bumpCalls_serves fullShell_started hrun _).mpr ?_ ?_⟩
  · rintro ⟨⟨hnone, -⟩, -⟩
    exact absurd (hfind.symm.trans hnone) (Option.some_ne_none 1)
  · rw [hcode]
    decide

/-- A write of 300 bytes to a new file gets the first buffer but not the larger one.  It returns
-3, and the empty file stays. -/
theorem write_leaves_file :
    fullShell.Started ∧
      let r := fullShell.call bumpCalls (.write dotDot (fun _ => 65#8) 300#32)
      r.1 = -3#32 ∧ (fullShell.file 1).inUse = false ∧ (r.2.file 1).inUse = true ∧
        ramfsFindFile dotDot 0 r.2.ramfs = some 1 ∧ r.2.ramfs.fileCount = 2#32 ∧
        ¬SameView fullShell r.2 := by
  refine ⟨fullShell_started, ?_⟩
  have hrun : let r := fullShell.call bumpCalls (.write dotDot (fun _ => 65#8) 300#32)
      r.1 = -3#32 ∧ (fullShell.file 1).inUse = false ∧ (r.2.file 1).inUse = true ∧
        ramfsFindFile dotDot 0 r.2.ramfs = some 1 ∧ r.2.ramfs.fileCount = 2#32 := by
    decide +kernel
  obtain ⟨hcode, hfree, huse, hfind, hcount⟩ := hrun
  refine ⟨hcode, hfree, huse, hfind, hcount, fun h => ?_⟩
  exact Bool.false_ne_true (hfree.symm.trans ((h.inUse 1).symm.trans huse))

end Contents

end MiqOSoft
