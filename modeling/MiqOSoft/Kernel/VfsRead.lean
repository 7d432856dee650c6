import MiqOSoft.Kernel.VfsRuns

/-!
What a read delivers.

* `ReadLaw`: a read returns the number of bytes the file has left at the position, at most
  those asked for, stores exactly these in the buffer and moves on by them.
* `Repeats`: what an overlap of the bytes read with the buffer behind them asks of these bytes.
* `read_law_iff`: in every state of the kernel, a read obeys the law exactly when the buffer is
  not null, the position is within the file, the position plus the count does not wrap, less
  than 64 KiB are due, and the buffer does not overlap the bytes due but for repeated ones.
* `read_after_truncate`: a file truncated through a second descriptor breaks it.
-/

namespace MiqOSoft

open Machine Tiling Transition

/-- The number of bytes due: what the file has left at the position, at most the count. -/
def readLength (k : Kernel) (d i : Fin 32) (count : Word) : ℕ :=
  min count.toNat ((k.virtualFiles i).size.toNat - (k.fileDescriptors d).position.toNat)

/-- The law of reads: the bytes due are returned, stored and passed over. -/
structure ReadLaw (k k' : Kernel) (d i : Fin 32) (buffer : Addr) (count res : Word) : Prop where
  result : res.toNat = readLength k d i count
  stored : k'.trace = .copy buffer (readLength k d i count) :: k.trace
  delivered : ∀ j < readLength k d i count, k'.mem (buffer + BitVec.ofNat 32 j)
    = k.mem ((k.virtualFiles i).data + (k.fileDescriptors d).position + BitVec.ofNat 32 j)
  untouched : ∀ a ∉ span buffer (readLength k d i count), k'.mem a = k.mem a
  position : (k'.fileDescriptors d).position.toNat
    = (k.fileDescriptors d).position.toNat + readLength k d i count

/-- The `n` bytes from `src` on repeat at the distance at which `dst` follows `src`; this asks
nothing unless `dst` is one of them behind the first. -/
def Repeats (m : Memory) (src dst : Addr) (n : ℕ) : Prop :=
  ∀ j < n, m (src + BitVec.ofNat 32 j) = m (src + BitVec.ofNat 32 (j % (dst - src).toNat))

lemma repeats_of_disjoint {m : Memory} {src dst : Addr} {n : ℕ}
    (hd : Disjoint (span dst n) (span src n)) : Repeats m src dst n := by
  intro j hj
  have hgap : n ≤ (dst - src).toNat := by
    by_contra hlt
    have hdst : dst ∈ span dst n := by
      rw [mem_span, BitVec.sub_self, BitVec.toNat_zero]
      omega
    exact Set.disjoint_left.mp hd hdst (mem_span.mpr (not_le.mp hlt))
  rw [Nat.mod_eq_of_lt (by omega)]

section Read

variable {L : Rodata} {k : Kernel} {owned : List Addr} {l : List Seg} {fd count : Word}
  {buffer : Addr} {d i : Fin 32}

/-- The bytes due are at most those of the file. -/
lemma readLength_le (k : Kernel) (d i : Fin 32) (count : Word) :
    readLength k d i count ≤ (k.virtualFiles i).size.toNat := by
  rw [readLength]
  omega

/-- What `sys_handler_read` computes is what is due exactly when the position is within the file
and nothing wraps. -/
lemma toRead_eq_readLength_iff :
    (toRead (k.virtualFiles i) (k.fileDescriptors d).position count).toNat = readLength k d i count
      ↔ (k.fileDescriptors d).position ≤ (k.virtualFiles i).size
        ∧ (k.fileDescriptors d).position.toNat + count.toNat < 2 ^ 32 := by
  have hsum : ((k.fileDescriptors d).position + count).toNat
      = ((k.fileDescriptors d).position.toNat + count.toNat) % 2 ^ 32 := BitVec.toNat_add _ _
  have hdiff : ((k.virtualFiles i).size - (k.fileDescriptors d).position).toNat
      = (2 ^ 32 - (k.fileDescriptors d).position.toNat + (k.virtualFiles i).size.toNat) % 2 ^ 32 :=
    BitVec.toNat_sub _ _
  rw [readLength, BitVec.le_def]
  rcases toRead_cases (k.virtualFiles i) (k.fileDescriptors d).position count with
    ⟨hlt, h⟩ | ⟨hle, h⟩ <;> rw [h]
  · rw [BitVec.lt_def] at hlt
    omega
  · rw [BitVec.le_def] at hle
    omega

/-- Memory of a caller does not meet the bytes due. -/
lemma Inv.repeats_of_owned (hk : Inv L k owned l) (hon : FdOn k fd d i)
    (hpos : (k.fileDescriptors d).position ≤ (k.virtualFiles i).size)
    (hown : ∀ a ∈ span buffer (readLength k d i count), CallerOwned L k a) :
    Repeats k.mem ((k.virtualFiles i).data + (k.fileDescriptors d).position) buffer
      (readLength k d i count) := by
  obtain ⟨-, hi, -⟩ := hk.fdOn hon
  have hsize := hk.tables.size_le i hi
  rw [BitVec.le_def] at hpos
  have hend : (k.fileDescriptors d).position.toNat + readLength k d i count
      ≤ (k.virtualFiles i).capacity.toNat := by
    rw [readLength]
    omega
  refine repeats_of_disjoint (Set.disjoint_left.mpr fun a ha hsrc => ?_)
  exact (hown a ha).notMem_file hk hi (span_add_subset hend hsrc)

/-- What a read that is carried out stores. -/
lemma copyBytes_read (hshort : readLength k d i count < 65536) {j : ℕ}
    (hj : j < readLength k d i count) :
    copyBytes buffer ((k.virtualFiles i).data + (k.fileDescriptors d).position)
        (readLength k d i count) k.mem (buffer + BitVec.ofNat 32 j)
      = k.mem ((k.virtualFiles i).data + (k.fileDescriptors d).position + BitVec.ofNat 32
          (j % (buffer - ((k.virtualFiles i).data + (k.fileDescriptors d).position)).toNat)) :=
  copyBytes_of_lt (by omega) j hj

/-- **When reads obey the law**: in whatever state the kernel is, a read through a descriptor in use
obeys the law if and only if the buffer is not null, the position is within the file, position
and count do not wrap, less than 64 KiB are due, and these repeat where the buffer overlaps
them. -/
theorem read_law_iff (hon : FdOn k fd d i) :
    ReadLaw k (sysHandlerRead fd buffer count k).2 d i buffer count
        (sysHandlerRead fd buffer count k).1 ↔
      buffer ≠ NULL ∧ (k.fileDescriptors d).position ≤ (k.virtualFiles i).size
        ∧ (k.fileDescriptors d).position.toNat + count.toNat < 2 ^ 32
        ∧ readLength k d i count < 65536
        ∧ Repeats k.mem ((k.virtualFiles i).data + (k.fileDescriptors d).position) buffer
          (readLength k d i count) := by
  by_cases hb : buffer = NULL
  · -- nothing is copied, although the law asks for a copy
    refine iff_of_false (fun hlaw => ?_) fun h => h.1 hb
    have hstored := hlaw.stored
    rw [sysHandlerRead_of_not (Or.inl hb)] at hstored
    exact List.cons_ne_self _ _ hstored.symm
  rw [sysHandlerRead_of_fdOn hon hb]
  have hlen : (len16 (toRead (k.virtualFiles i) (k.fileDescriptors d).position count)).toNat
      = (toRead (k.virtualFiles i) (k.fileDescriptors d).position count).toNat % 65536 :=
    toNat_len16 _
  constructor
  · rintro ⟨hres, hstored, hdelivered, -, -⟩
    obtain ⟨hpos, hwrap⟩ := toRead_eq_readLength_iff.mp hres
    simp only [Kernel.setFd, Kernel.memcpy, List.cons.injEq, Event.copy.injEq, true_and,
      and_true] at hstored
    -- the copy stores the length modulo `2^16` only
    have hshort : readLength k d i count < 65536 := by omega
    refine ⟨hb, hpos, hwrap, hshort, fun j hj => ?_⟩
    have hbyte := hdelivered j hj
    simp only [Kernel.setFd, Kernel.memcpy, MiqOSoft.memcpy, hstored] at hbyte
    exact hbyte.symm.trans (copyBytes_read hshort hj)
  · rintro ⟨-, hpos, hwrap, hshort, hrep⟩
    have hn := toRead_eq_readLength_iff.mpr ⟨hpos, hwrap⟩
    rw [hn, Nat.mod_eq_of_lt hshort] at hlen
    have hcount := count.isLt
    have hle : readLength k d i count ≤ count.toNat := min_le_left _ _
    refine ⟨hn, ?_, fun j hj => ?_, fun a ha => ?_, ?_⟩
    · simp only [Kernel.setFd, Kernel.memcpy, hlen]
    · simp only [Kernel.setFd, Kernel.memcpy, MiqOSoft.memcpy, hlen]
      exact (copyBytes_read hshort hj).trans (hrep j hj).symm
    · simp only [Kernel.setFd, Kernel.memcpy, MiqOSoft.memcpy, hlen]
      exact copyBytes_of_notMem (by omega) ha
    · simp only [Kernel.setFd, Function.update_self, BitVec.toNat_add, hn]
      omega

end Read

/-- A read of a file that has just been opened obeys the law. -/
theorem read_law_iff_open : ∃ w, FsRun sampleRodata blankKernel
    [.sysOpen (some welcomeName) 1#32] w ∧ FdOn w.kernel 3#32 3 0
    ∧ readLength w.kernel 3 0 10#32 = 10
    ∧ ReadLaw w.kernel (sysHandlerRead 3#32 0x300000#32 10#32 w.kernel).2 3 0 0x300000#32 10#32
        (sysHandlerRead 3#32 0x300000#32 10#32 w.kernel).1 := by
  obtain ⟨w, hrun⟩ := exists_run_open 1#32 (show welcomeName.chars.length < 64 by decide)
  have hon : FdOn w.kernel 3#32 3 0 := hrun.fdOn rfl (by decide +kernel)
  have hpos : (w.kernel.fileDescriptors 3).position = 0#32 :=
    hrun.eval (fun w => (w.kernel.fileDescriptors 3).position) (by decide +kernel)
  have hdue : readLength w.kernel 3 0 10#32 = 10 :=
    hrun.eval (fun w => readLength w.kernel 3 0 10#32) (by decide +kernel)
  obtain ⟨l, hinv⟩ := hrun.inv blankKernel_cold
  have hzero : (w.kernel.fileDescriptors 3).position ≤ (w.kernel.virtualFiles 0).size := by
    rw [hpos]
    exact Nat.zero_le _
  refine ⟨w, hrun, hon, hdue, (read_law_iff hon).mpr ⟨by decide, hzero, ?_, ?_, ?_⟩⟩
  · rw [hpos]
    decide
  · rw [hdue]
    decide
  · refine hinv.repeats_of_owned hon hzero fun a ha => callerOwned_sample (span_mono ?_ ha)
    rw [hdue]
    decide

/-- `welcome.txt` is read to position 10 and truncated through a second descriptor: nothing is
left to read, but a read of five bytes returns `-10`. -/
theorem read_after_truncate : ∃ w, FsRun sampleRodata blankKernel
    [.sysOpen (some welcomeName) 1#32, .sysRead 3#32 0x300000#32 10#32,
      .sysOpen (some welcomeName) 8#32] w
    ∧ FdOn w.kernel 3#32 3 0 ∧ readLength w.kernel 3 0 5#32 = 0
    ∧ (sysHandlerRead 3#32 0x300000#32 5#32 w.kernel).1 = -10#32
    ∧ ¬ReadLaw w.kernel (sysHandlerRead 3#32 0x300000#32 5#32 w.kernel).2 3 0 0x300000#32 5#32
        (sysHandlerRead 3#32 0x300000#32 5#32 w.kernel).1 := by
  obtain ⟨w₁, h₁⟩ := exists_run_open 1#32 (show welcomeName.chars.length < 64 by decide)
  obtain ⟨w₂, h₂⟩ := h₁.extend blankKernel_cold (tame_read_sample 3#32 10#32)
  obtain ⟨w, h⟩ := h₂.extend blankKernel_cold
    (tame_open 8#32 (show welcomeName.chars.length < 64 by decide))
  have hrun : FsRun sampleRodata blankKernel
    [.sysOpen (some welcomeName) 1#32, .sysRead 3#32 0x300000#32 10#32,
      .sysOpen (some welcomeName) 8#32] w := h
  have hon : FdOn w.kernel 3#32 3 0 := hrun.fdOn rfl (by decide +kernel)
  have hdue : readLength w.kernel 3 0 5#32 = 0 :=
    hrun.eval (fun w => readLength w.kernel 3 0 5#32) (by decide +kernel)
  have hres : (sysHandlerRead 3#32 0x300000#32 5#32 w.kernel).1 = -10#32 :=
    hrun.eval (fun w => (sysHandlerRead 3#32 0x300000#32 5#32 w.kernel).1) (by decide +kernel)
  refine ⟨w, hrun, hon, hdue, hres, fun hlaw => ?_⟩
  have hresult := hlaw.result
  rw [hres, hdue] at hresult
  exact absurd hresult (by decide)

end MiqOSoft
