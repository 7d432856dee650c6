import MiqOSoft.Kernel.VfsInvariant

/-!
What the file system handlers do, on states that satisfy the invariant.

* `FdOn k fd d i`: the number `fd` is the descriptor `d`, in use on the file `i`.
* `sysHandlerRead_of_fdOn`, `sysHandlerWrite_of_fdOn` and their counterparts for calls that are
  turned down: the handlers as equations.
* `Grow`, `growBuffer_spec`: the growth of a file either is not needed, is refused without
  effect, or moves the file to a new buffer.
* `openFd_inv`, `createFile_spec`, `overlay_inv`: the other pieces keep the invariant.
-/

namespace MiqOSoft

open Machine Tiling

/-- The number `fd` is the descriptor `d`, in use on the file `i`. -/
def FdOn (k : Kernel) (fd : Word) (d i : Fin 32) : Prop :=
  (d : ℕ) = fd.toNat ∧ (k.fileDescriptors d).inUse ≠ 0#32 ∧ (k.fileDescriptors d).file = some i

section Equations

variable {k : Kernel} {fd count : Word} {buffer : Addr} {d i d' i' : Fin 32}

lemma FdOn.unique (h : FdOn k fd d i) (h' : FdOn k fd d' i') : d = d' ∧ i = i' := by
  obtain rfl : d = d' := Fin.ext (h.1.trans h'.1.symm)
  exact ⟨rfl, Option.some.inj (h.2.2.symm.trans h'.2.2)⟩

/-- A read that is carried out. -/
lemma sysHandlerRead_of_fdOn (h : FdOn k fd d i) (hb : buffer ≠ NULL) :
    sysHandlerRead fd buffer count k =
      (toRead (k.virtualFiles i) (k.fileDescriptors d).position count,
        (k.memcpy buffer ((k.virtualFiles i).data + (k.fileDescriptors d).position)
          (toRead (k.virtualFiles i) (k.fileDescriptors d).position count)).setFd d
          { k.fileDescriptors d with
            position := (k.fileDescriptors d).position
              + toRead (k.virtualFiles i) (k.fileDescriptors d).position count }) := by
  obtain ⟨hd, hin, hfile⟩ := h
  have hlt : fd.toNat < 32 := hd ▸ d.isLt
  obtain rfl : d = ⟨fd.toNat, hlt⟩ := Fin.ext hd
  simp only [sysHandlerRead, hlt, ↓reduceDIte, hin, ↓reduceIte, hfile, hb]

/-- A read that is turned down. -/
lemma sysHandlerRead_of_not (h : buffer = NULL ∨ ∀ d i, ¬FdOn k fd d i) :
    sysHandlerRead fd buffer count k = (SYSCALL_INVALID_PARAMS, k) := by
  by_cases hlt : fd.toNat < 32
  swap
  · simp only [sysHandlerRead, hlt, ↓reduceDIte]
  by_cases hin : (k.fileDescriptors ⟨fd.toNat, hlt⟩).inUse = 0#32
  · simp only [sysHandlerRead, hlt, ↓reduceDIte, hin, ↓reduceIte]
  cases hfile : (k.fileDescriptors ⟨fd.toNat, hlt⟩).file with
  | none => simp only [sysHandlerRead, hlt, ↓reduceDIte, hin, ↓reduceIte, hfile]
  | some i =>
      have hb : buffer = NULL := h.resolve_right fun hno =>
        hno ⟨fd.toNat, hlt⟩ i ⟨rfl, hin, hfile⟩
      simp only [sysHandlerRead, hlt, ↓reduceDIte, hin, ↓reduceIte, hfile, hb]

/-- A write that is carried out, if there is room for it. -/
lemma sysHandlerWrite_of_fdOn (h : FdOn k fd d i) (hd3 : 3 ≤ d) (hb : buffer ≠ NULL)
    (hc : count ≠ 0#32) (hw : hasFlag (k.fileDescriptors d).flags OPEN_WRITE = true) :
    sysHandlerWrite fd buffer count k =
      (growBuffer i ((k.fileDescriptors d).position + count) k).map fun r =>
        if r.1 then (count, overlay d i buffer count r.2) else (SYSCALL_OUT_OF_MEMORY, r.2) := by
  obtain ⟨hd, hin, hfile⟩ := h
  have hlt : fd.toNat < 32 := hd ▸ d.isLt
  obtain rfl : d = ⟨fd.toNat, hlt⟩ := Fin.ext hd
  have h3 : 3 ≤ fd.toNat := hd3
  have h1 : fd ≠ 1#32 := by bv_omega
  have h2 : fd ≠ 2#32 := by bv_omega
  simp only [sysHandlerWrite, hlt, ↓reduceDIte, hb, hc, or_self, h1, h2, hin, ↓reduceIte, hfile, hw]

/-- A write of nothing, or from the null pointer. -/
lemma sysHandlerWrite_of_empty (h : buffer = NULL ∨ count = 0#32) :
    sysHandlerWrite fd buffer count k = some (SYSCALL_INVALID_PARAMS, k) := by
  by_cases hlt : fd.toNat < 32
  · simp only [sysHandlerWrite, hlt, ↓reduceDIte, h, ↓reduceIte]
  · simp only [sysHandlerWrite, hlt, ↓reduceDIte]

/-- A write that is turned down, or goes to the console. -/
lemma sysHandlerWrite_of_not (h : buffer = NULL ∨ count = 0#32 ∨
    ∀ d i, FdOn k fd d i → hasFlag (k.fileDescriptors d).flags OPEN_WRITE = false) :
    ∃ r, sysHandlerWrite fd buffer count k = some (r, k) := by
  by_cases hlt : fd.toNat < 32
  swap
  · exact ⟨_, by simp only [sysHandlerWrite, hlt, ↓reduceDIte]; rfl⟩
  by_cases hbc : buffer = NULL ∨ count = 0#32
  · exact ⟨_, by simp only [sysHandlerWrite, hlt, ↓reduceDIte, hbc, ↓reduceIte]; rfl⟩
  by_cases h12 : fd = 1#32 ∨ fd = 2#32
  · exact ⟨_, by simp only [sysHandlerWrite, hlt, ↓reduceDIte, hbc, h12, ↓reduceIte]; rfl⟩
  by_cases hin : (k.fileDescriptors ⟨fd.toNat, hlt⟩).inUse = 0#32
  · exact ⟨_, by simp only [sysHandlerWrite, hlt, ↓reduceDIte, hbc, h12, hin, ↓reduceIte]; rfl⟩
  cases hfile : (k.fileDescriptors ⟨fd.toNat, hlt⟩).file with
  | none =>
      exact ⟨_, by
        simp only [sysHandlerWrite, hlt, ↓reduceDIte, hbc, h12, hin, ↓reduceIte, hfile]; rfl⟩
  | some i =>
      have hw : hasFlag (k.fileDescriptors ⟨fd.toNat, hlt⟩).flags OPEN_WRITE = false := by
        rcases h with hb | hc | hno
        · exact absurd (Or.inl hb) hbc
        · exact absurd (Or.inr hc) hbc
        · exact hno ⟨fd.toNat, hlt⟩ i ⟨rfl, hin, hfile⟩
      exact ⟨_, by
        simp only [sysHandlerWrite, hlt, ↓reduceDIte, hbc, h12, hin, ↓reduceIte, hfile, hw,
          Bool.false_eq_true]; rfl⟩

/-- What a read has left to deliver. -/
lemma toRead_cases (file : VFile) (position count : Word) :
    file.size < position + count ∧ toRead file position count = file.size - position
      ∨ position + count ≤ file.size ∧ toRead file position count = count := by
  rw [toRead]
  split_ifs with h
  · exact Or.inl ⟨h, rfl⟩
  · exact Or.inr ⟨BitVec.not_lt.mp h, rfl⟩

/-- After a read the position is within the file. -/
lemma position_add_toRead_le (file : VFile) (position count : Word) :
    (position + toRead file position count).toNat ≤ file.size.toNat := by
  rcases toRead_cases file position count with ⟨-, h⟩ | ⟨hle, h⟩ <;> rw [h]
  · have : position + (file.size - position) = file.size := by bv_omega
    rw [this]
  · exact hle

lemma Kernel.free_setFile (p : Addr) (f : VFile) :
    (k.setFile i f).free p = (k.free p).map fun r => (r.1, r.2.setFile i f) := by
  simp only [Kernel.free, Kernel.setFile, Option.map_map]
  rfl

/-- The store of a write in one update of each table. -/
lemma overlay_eq : overlay d i buffer count k =
    ((k.memcpy ((k.virtualFiles i).data + (k.fileDescriptors d).position) buffer count).setFd d
      { k.fileDescriptors d with position := (k.fileDescriptors d).position + count }).setFile i
      { k.virtualFiles i with
        size := if (k.virtualFiles i).size < (k.fileDescriptors d).position + count
          then (k.fileDescriptors d).position + count else (k.virtualFiles i).size } := by
  rw [overlay]
  dsimp only
  split_ifs
  · rfl
  · simp only [Kernel.setFile, Kernel.setFd, Kernel.memcpy, Function.update_eq_self]

end Equations

/-! ### Growth -/

/-- The rounding of the capacity in `sys_handler_write`. -/
def newCapacity (needed : Word) : Word := (needed + 255#32) &&& ~~~255#32

lemma toNat_newCapacity (needed : Word) :
    (newCapacity needed).toNat = (needed.toNat + 255) % 2 ^ 32 / 256 * 256 := by
  have hround := toNat_and_not_lowMask (needed + 255#32) (k := 8)
  have hadd : (needed + 255#32).toNat = (needed.toNat + 255) % 2 ^ 32 := by bv_omega
  rw [hadd] at hround
  exact hround

/-- The rounding is up, unless it wraps to zero. -/
lemma le_newCapacity {needed : Word} (h : newCapacity needed ≠ 0#32) :
    needed.toNat ≤ (newCapacity needed).toNat := by
  have hc := toNat_newCapacity needed
  have hlt := needed.isLt
  have hne : (newCapacity needed).toNat ≠ 0 := fun h0 => h (BitVec.eq_of_toNat_eq h0)
  omega

/-- A capacity is not rounded any further by the heap. -/
lemma request_newCapacity (needed : Word) :
    request (newCapacity needed) = (newCapacity needed).toNat := by
  rw [request, toNat_newCapacity]
  omega

/-- The file moved to a buffer of `c` bytes at `p`. -/
def Kernel.moved (k : Kernel) (i : Fin 32) (p : Addr) (c : Word) (h : Heap) : Kernel :=
  { k with
    heap := h
    virtualFiles := Function.update k.virtualFiles i
      { k.virtualFiles i with data := p, capacity := c }
    trace := .free (k.virtualFiles i).data ::
      .copy p (len16 (k.virtualFiles i).size).toNat :: .malloc c p :: k.trace }

/-- The outcomes of the growth of the file `i` to `needed` bytes. -/
inductive Grow (k : Kernel) (l : List Seg) (i : Fin 32) (needed : Word) :
    Bool → Kernel → List Seg → Prop
  | fits (hfit : needed ≤ (k.virtualFiles i).capacity) : Grow k l i needed true k l
  | refused (hgrow : (k.virtualFiles i).capacity < needed)
      (hno : newCapacity needed = 0#32 ∨ ¬k.heap.HasRoom (newCapacity needed).toNat) :
      Grow k l i needed false
        { k with trace := .malloc (newCapacity needed) NULL :: k.trace } l
  | moved {p : Addr} {h : Heap} {l' : List Seg} {n : ℕ}
      (hgrow : (k.virtualFiles i).capacity < needed)
      (hle : needed.toNat ≤ (newCapacity needed).toNat)
      (hroom : k.heap.HasRoom (newCapacity needed).toNat)
      (hfresh : ∀ y, ClientByte l y → y ∉ span p n)
      (hp : UsedBlock l' p n) (hn : (newCapacity needed).toNat ≤ n)
      (hused : ∀ q m, q ≠ (k.virtualFiles i).data → UsedBlock l q m → UsedBlock l' q m)
      (hcopy : ∀ j < (k.virtualFiles i).size.toNat % 65536,
        h.mem (p + BitVec.ofNat 32 j) = k.mem ((k.virtualFiles i).data + BitVec.ofNat 32 j))
      (hframe : ∀ y, ClientByte l y → y ∉ span ((k.virtualFiles i).data - 8#32) 4 →
        h.mem y = k.mem y) :
      Grow k l i needed true (k.moved i p (newCapacity needed) h) l'

section Growth

variable {L : Rodata} {k : Kernel} {owned : List Addr} {l : List Seg} {i : Fin 32}

/-- The release of the old buffer of a file that moves to the clients' block `p`. -/
lemma Inv.freeOld {p : Addr} {n : ℕ} {c : Word} (hk : Inv L k (p :: owned) l)
    (hi : (k.virtualFiles i).inUse ≠ 0#32) (hp : UsedBlock l p n) (hc : c.toNat ≤ n)
    (hle : (k.virtualFiles i).capacity.toNat ≤ c.toNat) :
    ∃ h l', (k.free (k.virtualFiles i).data).map (fun q =>
        q.2.setFile i { k.virtualFiles i with data := p, capacity := c })
      = some { k with
          heap := h
          virtualFiles := Function.update k.virtualFiles i
            { k.virtualFiles i with data := p, capacity := c }
          trace := .free (k.virtualFiles i).data :: k.trace }
      ∧ (∀ y, ClientByte l y → y ∉ span ((k.virtualFiles i).data - 8#32) 4 → h.mem y = k.mem y)
      ∧ (∀ q m, q ≠ (k.virtualFiles i).data → UsedBlock l q m → UsedBlock l' q m)
      ∧ Inv L { k with
          heap := h
          virtualFiles := Function.update k.virtualFiles i
            { k.virtualFiles i with data := p, capacity := c }
          trace := .free (k.virtualFiles i).data :: k.trace } owned l' := by
  have hapart := hk.tables.owned_apart p List.mem_cons_self i hi
  have hmoved : Inv L (k.setFile i { k.virtualFiles i with data := p, capacity := c }) owned l :=
    ⟨hk.models, hk.initialized, hk.tables.regrow hi hp hc hle, hk.live⟩
  -- the file's entry is not read by the release, so it may be updated first
  have hcomm : ∀ r k', (k.setFile i { k.virtualFiles i with data := p, capacity := c }).free
      (k.virtualFiles i).data = some (r, k') → (k.free (k.virtualFiles i).data).map (fun q =>
        q.2.setFile i { k.virtualFiles i with data := p, capacity := c }) = some k' := by
    intro r k' h
    rw [Kernel.free_setFile] at h
    obtain ⟨q, hq, heq⟩ := Option.map_eq_some_iff.mp h
    rw [hq, Option.map_some]
    exact congrArg some (Prod.mk.inj heq).2
  rcases hk.tables.backed i hi with ⟨-, hdata, -⟩ | ⟨-, hdata, -⟩ | ⟨m, hdata, -⟩
  · have hL := L.welcome_bounds
    obtain ⟨h, hf, hframe, hinv⟩ := hmoved.freeOutside (p := (k.virtualFiles i).data)
      (by rw [hdata]; omega) (by rw [hdata]; omega)
    exact ⟨h, l, hcomm _ _ hf, hframe, fun _ _ _ hq => hq, hinv⟩
  · have hL := L.info_bounds
    obtain ⟨h, hf, hframe, hinv⟩ := hmoved.freeOutside (p := (k.virtualFiles i).data)
      (by rw [hdata]; omega) (by rw [hdata]; omega)
    exact ⟨h, l, hcomm _ _ hf, hframe, fun _ _ _ hq => hq, hinv⟩
  · have howned : Inv L (k.setFile i { k.virtualFiles i with data := p, capacity := c })
        ((k.virtualFiles i).data :: owned) l := by
      refine ⟨hk.models, hk.initialized, hmoved.tables.own hdata ?_ ?_, hk.live⟩
      · exact fun hmem => hk.tables.owned_apart _ (List.mem_cons_of_mem _ hmem) i hi rfl
      · intro j hj
        by_cases hji : j = i
        · subst hji
          simpa [Kernel.setFile] using Ne.symm hapart
        · simp only [Kernel.setFile, Function.update_of_ne hji] at hj ⊢
          exact fun heq => hji (hk.tables.data_inj j i hj hi heq)
    obtain ⟨h, l', hf, hframe, hiff, hinv⟩ := howned.free List.mem_cons_self
    rw [List.erase_cons_head] at hinv
    exact ⟨h, l', hcomm _ _ hf, fun y hy _ => hframe y hy,
      fun q m hne hq => (hiff q m).mpr ⟨hne, hq⟩, hinv⟩

/-- **Growth** returns, keeps the invariant and has an outcome of `Grow`. -/
theorem growBuffer_spec (hk : Inv L k owned l) (hi : (k.virtualFiles i).inUse ≠ 0#32)
    (needed : Word) : ∃ ok k' l', growBuffer i needed k = some (ok, k')
      ∧ Grow k l i needed ok k' l' ∧ Inv L k' owned l' := by
  by_cases hgrow : (k.virtualFiles i).capacity < needed
  swap
  · refine ⟨true, k, l, ?_, .fits (BitVec.not_lt.mp hgrow), hk⟩
    simp only [growBuffer, if_neg hgrow]
  have hgrow' : growBuffer i needed k = (k.malloc (newCapacity needed)).bind fun r =>
      if r.1 = NULL then some (false, r.2)
      else
        ((r.2.memcpy r.1 (k.virtualFiles i).data (k.virtualFiles i).size).free
          (k.virtualFiles i).data).map fun q =>
            (true, q.2.setFile i
              { k.virtualFiles i with data := r.1, capacity := newCapacity needed }) := by
    simp only [growBuffer, if_pos hgrow, newCapacity]
  obtain ⟨p, h, l₁, hm, hmframe, hout⟩ := hk.malloc (newCapacity needed)
  rw [request_newCapacity] at hout
  rw [hgrow', hm, Option.bind_some]
  rcases hout with ⟨rfl, rfl, rfl, hno, hinv⟩ |
    ⟨hp, hc0, hroom, hnew, ⟨n, hn, hpn⟩, hmono, hinv⟩
  · exact ⟨false, _, l₁, if_pos rfl, .refused hgrow hno, hinv⟩
  have hle := le_newCapacity hc0
  have hcap : (k.virtualFiles i).capacity.toNat ≤ (newCapacity needed).toNat :=
    (BitVec.le_def.mp (BitVec.le_of_lt hgrow)).trans hle
  have hsize := hk.tables.size_le i hi
  have hpb := hpn.bounds hinv.models
  -- the new block meets no byte of the clients
  have hfresh : ∀ y, ClientByte l y → y ∉ span p n := by
    rintro y (hout | ⟨q, m, hq, hy⟩) hyp
    · rw [mem_span_iff (by omega)] at hyp
      rw [mem_span_iff (by decide)] at hout
      simp only [HEAP_START, BitVec.reduceToNat] at hout
      omega
    · have hqp : q ≠ p := by
        rintro rfl
        exact hnew m hq
      exact Set.disjoint_left.mp ((hmono q m hq).disjoint hinv.models hpn hqp) hy hyp
  have hcopyinv := hinv.memcpy (k.virtualFiles i).data
    fun y (hy : y ∈ span p ((k.virtualFiles i).size.toNat % 65536)) =>
      Or.inr ⟨p, n, hpn, span_mono (by omega) hy⟩
  obtain ⟨h', l', hfree, hframe, hused, hdone⟩ := hcopyinv.freeOld hi hpn hn hcap
  have hcopied : ∀ y, y ∉ span p n →
      copyBytes p (k.virtualFiles i).data ((k.virtualFiles i).size.toNat % 65536) h.mem y
        = h.mem y :=
    fun y hy => copyBytes_of_notMem (by omega) fun hin => hy (span_mono (by omega) hin)
  refine ⟨true, k.moved i p (newCapacity needed) h', l', ?_, .moved hgrow hle hroom hfresh ?_ hn
    (fun q m hne hq => hused q m hne (hmono q m hq)) ?_ ?_, ?_⟩
  · dsimp only
    rw [if_neg hp]
    obtain ⟨q, hq, heq⟩ := Option.map_eq_some_iff.mp hfree
    exact Option.map_eq_some_iff.mpr ⟨q, hq, congrArg (Prod.mk true) heq⟩
  · exact hused p n (Ne.symm (hinv.tables.owned_apart p List.mem_cons_self i hi)) hpn
  · intro j hj
    have hmem : p + BitVec.ofNat 32 j ∈ span p n := add_ofNat_mem_span (by omega) (by omega)
    rw [hframe _ (Or.inr ⟨p, n, hpn, hmem⟩)
      ((hinv.tables.backed i hi).notMem_front hinv.models hpn hmem)]
    have hdisj : Disjoint (span p ((k.virtualFiles i).size.toNat % 65536))
        (span (k.virtualFiles i).data ((k.virtualFiles i).size.toNat % 65536)) := by
      refine Set.disjoint_right.mpr fun y hy hyp => ?_
      exact hfresh y (hk.clientByte hi (span_mono (by omega) hy)) (span_mono (by omega) hyp)
    have hcopy := copyBytes_of_disjoint (m := h.mem) (by omega) hdisj j hj
    have hsrc : (k.virtualFiles i).data + BitVec.ofNat 32 j
        ∈ span (k.virtualFiles i).data (k.virtualFiles i).capacity.toNat :=
      add_ofNat_mem_span (by omega) (by omega)
    rw [← hmframe _ (hk.clientByte hi hsrc), ← hcopy]
    simp only [Kernel.memcpy, MiqOSoft.memcpy, toNat_len16]
  · intro y hy hout
    rw [hframe y (hy.mono hmono) hout, ← hmframe y hy, ← hcopied y (hfresh y hy)]
    simp only [Kernel.memcpy, MiqOSoft.memcpy, toNat_len16]
  · exact hdone

end Growth

/-! ### Reads, stores and closes -/

section Steps

variable {L : Rodata} {k : Kernel} {owned : List Addr} {l : List Seg} {fd count : Word}
  {buffer : Addr} {d i : Fin 32}

lemma Inv.fdOn (hk : Inv L k owned l) (h : FdOn k fd d i) : 3 ≤ d ∧
    (k.virtualFiles i).inUse ≠ 0#32
      ∧ (k.fileDescriptors d).position.toNat ≤ (k.virtualFiles i).capacity.toNat := by
  obtain ⟨h3, j, hfile, hj, hpos⟩ := hk.tables.fd d h.2.1
  obtain rfl : i = j := Option.some.inj (h.2.2.symm.trans hfile)
  exact ⟨h3, hj, hpos⟩

/-- A read into memory of the clients keeps the invariant. -/
theorem sysHandlerRead_inv (hk : Inv L k owned l)
    (hbuf : ∀ d i, FdOn k fd d i → ∀ y ∈ span buffer
      ((toRead (k.virtualFiles i) (k.fileDescriptors d).position count).toNat % 65536),
        ClientByte l y) :
    Inv L (sysHandlerRead fd buffer count k).2 owned l := by
  by_cases hno : buffer = NULL ∨ ∀ d i, ¬FdOn k fd d i
  · rw [sysHandlerRead_of_not hno]
    exact hk
  push Not at hno
  obtain ⟨hb, d, i, hon⟩ := hno
  obtain ⟨h3, hi, -⟩ := hk.fdOn hon
  rw [sysHandlerRead_of_fdOn hon hb]
  have hcopy := hk.memcpy ((k.virtualFiles i).data + (k.fileDescriptors d).position)
    (hbuf d i hon)
  refine ⟨hcopy.models, hcopy.initialized, hcopy.tables.setFd d fun _ => ?_, hcopy.live⟩
  exact ⟨h3, i, hon.2.2, hi,
    (position_add_toRead_le _ _ _).trans (hk.tables.size_le i hi)⟩

/-- The store of a write within the buffer of the file keeps the invariant. -/
theorem overlay_inv (hk : Inv L k owned l) (hon : FdOn k fd d i)
    (hfit : ((k.fileDescriptors d).position + count).toNat ≤ (k.virtualFiles i).capacity.toNat)
    (hcopy : (k.fileDescriptors d).position.toNat + count.toNat % 65536
      ≤ (k.virtualFiles i).capacity.toNat) :
    Inv L (overlay d i buffer count k) owned l := by
  obtain ⟨h3, hi, -⟩ := hk.fdOn hon
  rw [overlay_eq]
  have hmem := hk.memcpy buffer fun y hy => hk.clientByte hi (span_add_subset hcopy hy)
  refine ⟨hmem.models, hmem.initialized, (hmem.tables.setFd d fun _ => ?_).resize hi _ ?_,
    hmem.live⟩
  · exact ⟨h3, i, hon.2.2, hi, hfit⟩
  · have hsize := hk.tables.size_le i hi
    change (if _ then _ else _ : Word).toNat ≤ (k.virtualFiles i).capacity.toNat
    split_ifs
    · exact hfit
    · exact hsize

/-- Closing a descriptor keeps the invariant. -/
theorem sysHandlerClose_inv (hk : Inv L k owned l) :
    Inv L (sysHandlerClose fd k).2 owned l := by
  rw [sysHandlerClose]
  split_ifs
  · exact hk
  · exact ⟨hk.models, hk.initialized, hk.tables.setFd _ fun h => absurd rfl h, hk.live⟩
  · exact hk

/-- A write that is carried out: it returns after the growth of the file and the store. -/
theorem sysHandlerWrite_cases (hk : Inv L k owned l) (hon : FdOn k fd d i) (hb : buffer ≠ NULL)
    (hc : count ≠ 0#32) (hw : hasFlag (k.fileDescriptors d).flags OPEN_WRITE = true) :
    ∃ ok k' l', sysHandlerWrite fd buffer count k = some
        (if ok then (count, overlay d i buffer count k') else (SYSCALL_OUT_OF_MEMORY, k'))
      ∧ Grow k l i ((k.fileDescriptors d).position + count) ok k' l' ∧ Inv L k' owned l' := by
  obtain ⟨h3, hi, -⟩ := hk.fdOn hon
  obtain ⟨ok, k', l', hgrow, hout, hinv⟩ := growBuffer_spec hk hi
    ((k.fileDescriptors d).position + count)
  refine ⟨ok, k', l', ?_, hout, hinv⟩
  rw [sysHandlerWrite_of_fdOn hon h3 hb hc hw, hgrow, Option.map_some]

/-- A write without descriptor wrap, or whose store fits nevertheless, returns and keeps the
invariant. -/
theorem sysHandlerWrite_inv (hk : Inv L k owned l)
    (hfit : ∀ d i, FdOn k fd d i → hasFlag (k.fileDescriptors d).flags OPEN_WRITE = true →
      (k.fileDescriptors d).position.toNat + count.toNat < 2 ^ 32
        ∨ (k.fileDescriptors d).position.toNat + count.toNat % 65536
          ≤ (k.virtualFiles i).capacity.toNat) :
    ∃ r k' l', sysHandlerWrite fd buffer count k = some (r, k') ∧ Inv L k' owned l' := by
  by_cases hno : buffer = NULL ∨ count = 0#32 ∨
    ∀ d i, FdOn k fd d i → hasFlag (k.fileDescriptors d).flags OPEN_WRITE = false
  · obtain ⟨r, hr⟩ := sysHandlerWrite_of_not hno
    exact ⟨r, k, l, hr, hk⟩
  push Not at hno
  obtain ⟨hb, hc, d, i, hon, hw⟩ := hno
  rw [ne_eq, Bool.not_eq_false] at hw
  obtain ⟨-, -, hpos⟩ := hk.fdOn hon
  have hfit := hfit d i hon hw
  obtain ⟨ok, k', l', hwrite, hout, hinv⟩ := sysHandlerWrite_cases hk hon hb hc hw
  have hneeded : ((k.fileDescriptors d).position + count).toNat
      = ((k.fileDescriptors d).position.toNat + count.toNat) % 2 ^ 32 := BitVec.toNat_add _ _
  cases hout with
  | fits hle =>
      have hle : ((k.fileDescriptors d).position + count).toNat
          ≤ (k.virtualFiles i).capacity.toNat := hle
      have hstore : (k.fileDescriptors d).position.toNat + count.toNat % 65536
          ≤ (k.virtualFiles i).capacity.toNat := by omega
      exact ⟨_, _, l, hwrite, overlay_inv hk hon hle hstore⟩
  | refused hlt hno => exact ⟨_, _, l, hwrite, hinv⟩
  | @moved p h l' n hlt hle hroom hfresh hp hn hused hcopy hframe =>
      have hlt : (k.virtualFiles i).capacity.toNat
          < ((k.fileDescriptors d).position + count).toNat := hlt
      refine ⟨_, _, l', hwrite, overlay_inv hinv hon ?_ ?_⟩
      · simpa [Kernel.moved] using hle
      · simp only [Kernel.moved, Function.update_self]
        omega

end Steps

/-! ### Opening files -/

section Open

variable {L : Rodata} {k : Kernel} {owned : List Addr} {l : List Seg} {path : CString}
  {flags : Word} {d i : Fin 32}

lemma findFile_eq_some (h : findFile path k = some i) : (k.virtualFiles i).inUse ≠ 0#32 := by
  have := List.find?_some h
  simp only [decide_eq_true_eq] at this
  exact this.1

/-- A lookup fails exactly when no file has the name. -/
lemma findFile_eq_none (hk : Inv L k owned l) : findFile path k = none ↔
    ∀ i, (k.virtualFiles i).inUse ≠ 0#32 → (k.virtualFiles i).nameString ≠ path.chars := by
  rw [findFile, List.find?_eq_none]
  simp only [List.mem_finRange, forall_const, decide_eq_true_eq, not_and]
  exact forall_congr' fun i => forall_congr' fun hi =>
    not_congr (FileTable.strcmp_nameAt (hk.tables.named i hi))

lemma freeSlot_eq_some (h : freeSlot k = some i) : (k.virtualFiles i).inUse = 0#32 := by
  simpa using List.find?_some h

lemma freeFd_eq_some (h : freeFd k = some d) : 3 ≤ d ∧ (k.fileDescriptors d).inUse = 0#32 := by
  simpa using List.find?_some h

lemma openFd_trace : (openFd i flags k).2.trace = k.trace := by
  rw [openFd]
  cases freeFd k with
  | none => rfl
  | some d =>
      dsimp only
      by_cases htrunc : hasFlag flags OPEN_TRUNCATE = true
      · rw [if_pos htrunc]
        rfl
      · rw [if_neg htrunc]
        rfl

/-- Opening a file copies and releases nothing. -/
lemma sysHandlerOpen_trace {path : Option CString} {r : Word} {k' : Kernel}
    (hinit : vfsInit L k = k) (h : sysHandlerOpen L path flags k = some (r, k')) :
    k'.trace = k.trace ∨ ∃ n p, k'.trace = .malloc n p :: k.trace := by
  cases path with
  | none =>
      obtain ⟨-, rfl⟩ := Prod.mk.inj (Option.some.inj h)
      exact Or.inl rfl
  | some path =>
      simp only [sysHandlerOpen, hinit] at h
      cases hfind : findFile path k with
      | some i =>
          rw [hfind] at h
          obtain ⟨-, rfl⟩ := Prod.mk.inj (Option.some.inj h)
          exact Or.inl openFd_trace
      | none =>
          rw [hfind] at h
          dsimp only at h
          by_cases hcreate : hasFlag flags OPEN_CREATE = true
          swap
          · rw [if_neg hcreate] at h
            obtain ⟨-, rfl⟩ := Prod.mk.inj (Option.some.inj h)
            exact Or.inl rfl
          rw [if_pos hcreate] at h
          cases hslot : freeSlot k with
          | none =>
              rw [hslot] at h
              obtain ⟨-, rfl⟩ := Prod.mk.inj (Option.some.inj h)
              exact Or.inl rfl
          | some i =>
              rw [hslot] at h
              dsimp only at h
              obtain ⟨⟨j, k₁⟩, hc, heq⟩ := Option.map_eq_some_iff.mp h
              obtain ⟨t, -, hbuf⟩ := Option.bind_eq_some_iff.mp hc
              obtain ⟨⟨p, k₂⟩, hm, hk₁⟩ := Option.map_eq_some_iff.mp hbuf
              obtain ⟨q, -, hk₂⟩ := Option.map_eq_some_iff.mp hm
              obtain ⟨-, rfl⟩ := Prod.mk.inj hk₂
              refine Or.inr ⟨256#32, q.1, ?_⟩
              have htrace : k₁.trace = .malloc 256#32 q.1 :: k.trace := by
                dsimp only at hk₁
                split_ifs at hk₁ <;> obtain ⟨-, rfl⟩ := Prod.mk.inj hk₁ <;> rfl
              cases j with
              | none =>
                  obtain ⟨-, rfl⟩ := Prod.mk.inj heq
                  exact htrace
              | some j =>
                  have hk' : (openFd j flags k₁).2 = k' := congrArg Prod.snd heq
                  rw [← hk', openFd_trace, htrace]

/-- Opening a descriptor on a file keeps the invariant. -/
theorem openFd_inv (hk : Inv L k owned l) (hi : (k.virtualFiles i).inUse ≠ 0#32) :
    Inv L (openFd i flags k).2 owned l := by
  rw [openFd]
  cases hfd : freeFd k with
  | none => exact hk
  | some d =>
      obtain ⟨h3, -⟩ := freeFd_eq_some hfd
      have hpos : (if hasFlag flags OPEN_APPEND then (k.virtualFiles i).size else 0#32).toNat
          ≤ (k.virtualFiles i).capacity.toNat := by
        split_ifs
        · exact hk.tables.size_le i hi
        · exact Nat.zero_le _
      have hopen : TablesOk L k.virtualFiles
          (Function.update k.fileDescriptors d ⟨some i, _, flags, 1#32⟩) owned l :=
        hk.tables.setFd d fun _ => ⟨h3, i, rfl, hi, hpos⟩
      dsimp only
      by_cases htrunc : hasFlag flags OPEN_TRUNCATE = true
      · rw [if_pos htrunc]
        have hsize := hopen.resize hi 0#32 (Nat.zero_le _)
        refine ⟨hk.models, hk.initialized, hsize.setFd d fun _ => ⟨h3, i, rfl, ?_, Nat.zero_le _⟩,
          hk.live⟩
        rw [Function.update_self]
        exact hi
      · rw [if_neg htrunc]
        exact ⟨hk.models, hk.initialized, hopen, hk.live⟩

/-- A file that gets its buffer is in use; the name has been copied to its free entry before. -/
lemma initialBuffer_spec (hk : Inv L k owned l) (hi : (k.virtualFiles i).inUse = 0#32)
    (hlen : (k.virtualFiles i).nameString.length < 64)
    (hnew : ∀ j ≠ i, (k.virtualFiles j).inUse ≠ 0#32 →
      (k.virtualFiles j).nameString ≠ (k.virtualFiles i).nameString) :
    ∃ r k' l', initialBuffer i k = some (r, k') ∧ Inv L k' owned l'
      ∧ ∀ j, r = some j → (k'.virtualFiles j).inUse ≠ 0#32 := by
  obtain ⟨p, h, l', hm, -, hout⟩ := hk.malloc 256#32
  rw [initialBuffer, hm, Option.map_some]
  dsimp only
  rcases hout with ⟨hp, -, rfl, -, hinv⟩ | ⟨hp, -, -, -, ⟨n, hn, hpn⟩, -, hinv⟩
  · rw [if_pos hp]
    exact ⟨none, _, l', rfl,
      ⟨hinv.models, hinv.initialized, hinv.tables.setFree hi hi, hinv.live⟩, by simp⟩
  · have hfree := hinv.tables.setFree (f := { k.virtualFiles i with data := p }) hi hi
    have hn256 : request 256#32 = 256 := by decide
    rw [if_neg hp]
    refine ⟨some i, _, l', rfl, ⟨hinv.models, hinv.initialized, ?_, hinv.live⟩, ?_⟩
    · simp only [Kernel.setFile, Function.update_self]
      refine hfree.create (by simpa using hi) hpn (by simp) rfl ?_ (Nat.zero_le _) hlen ?_
      · simp only [BitVec.reduceToNat]
        omega
      · intro j hji hj
        rw [Function.update_of_ne hji] at hj ⊢
        exact hnew j hji hj
    · rintro j hj
      obtain rfl := Option.some.inj hj
      simp [Kernel.setFile]

/-- Creating a file in a free entry returns and keeps the invariant; a file that is created is
in use. -/
theorem createFile_spec (hk : Inv L k owned l) (hi : (k.virtualFiles i).inUse = 0#32)
    (hlen : path.chars.length < 64) (hnew : findFile path k = none) :
    ∃ r k' l', createFile i path k = some (r, k') ∧ Inv L k' owned l'
      ∧ ∀ j, r = some j → (k'.virtualFiles j).inUse ≠ 0#32 := by
  obtain ⟨name, hcpy, hname⟩ := FileTable.strcpyName_of_lt (t := k.virtualFiles) (i := i) hlen
  have hfree : Inv L (k.setFile i { k.virtualFiles i with name := name }) owned l :=
    ⟨hk.models, hk.initialized, hk.tables.setFree hi hi, hk.live⟩
  have hself : (k.setFile i { k.virtualFiles i with name := name }).virtualFiles i
      = { k.virtualFiles i with name := name } := Function.update_self ..
  have hspec := initialBuffer_spec (i := i) hfree (by rw [hself]; exact hi)
    (by rw [hself, hname _ rfl]; exact hlen) fun j hji hj => by
      rw [hself, hname { k.virtualFiles i with name := name } rfl]
      simp only [Kernel.setFile, Function.update_of_ne hji] at hj ⊢
      exact (findFile_eq_none hk).mp hnew j hj
  rw [createFile, hcpy]
  exact hspec

/-- Opening a path shorter than the name field returns and keeps the invariant. -/
theorem sysHandlerOpen_inv (hk : Inv L k owned l)
    (hlen : path.chars.length < 64) :
    ∃ r k' l', sysHandlerOpen L (some path) flags k = some (r, k') ∧ Inv L k' owned l' := by
  have hinit : vfsInit L k = k := by rw [vfsInit, if_pos hk.initialized]
  simp only [sysHandlerOpen, hinit]
  cases hfind : findFile path k with
  | some i => exact ⟨_, _, l, rfl, openFd_inv hk (findFile_eq_some hfind)⟩
  | none =>
      dsimp only
      split_ifs with hcreate
      · cases hslot : freeSlot k with
        | none => exact ⟨_, _, l, rfl, hk⟩
        | some i =>
            obtain ⟨r, k', l', hc, hinv, huse⟩ :=
              createFile_spec hk (freeSlot_eq_some hslot) hlen hfind
            dsimp only
            rw [hc, Option.map_some]
            cases r with
            | none => exact ⟨_, _, l', rfl, hinv⟩
            | some j => exact ⟨_, _, l', rfl, openFd_inv hinv (huse j rfl)⟩
      · exact ⟨_, _, l, rfl, hk⟩

end Open

end MiqOSoft
