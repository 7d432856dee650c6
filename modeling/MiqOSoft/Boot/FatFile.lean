import MiqOSoft.Boot.FatFailures

/-!
Reading a file whose chain holds it and can be read.

* `chainByte`: the bytes of a chain of clusters.
* `ChainFile`: a file just opened, with a chain that is long enough for it.
* `ChainFile.fatRead`: one call of `FAT_Read` delivers the bytes asked for, up to the size.
* `ChainFile.fatReads`: how the calls cut the file does not matter.
-/

namespace MiqOSoft

open Machine Transition Linked

/-- Byte `k` of the chain `c`. -/
def chainByte (disk : Partition) (s : FatState) (c : ℕ → Word) (k : ℕ) : Byte :=
  disk.bytesAt (Follows.lba s c (k / 512)) (k % 512)

/-- The sum of byte counts. -/
def totalCount (byteCounts : List Word) : ℕ := (byteCounts.map BitVec.toNat).sum

/-- A file just opened that is no directory, and the first `N` sectors of its chain: they hold it,
and each of them can be read. -/
structure ChainFile (disk : Partition) (i : Fin MAX_FILE_HANDLES) (s : FatState) (c : ℕ → Word)
    (N : ℕ) : Prop extends Follows disk i s c N where
  long : (s.openedFiles i).size.toNat ≤ 512 * N
  reads : ∀ m < N, lastReadOk disk 1 (walk disk (.slot i) s m).requests = true
  regular : (s.openedFiles i).isDirectory = false
  front : (s.openedFiles i).buffer = disk.bytesAt (Follows.lba s c 0)

namespace ChainFile

variable {disk : Partition} {i : Fin MAX_FILE_HANDLES} {s : FatState} {c : ℕ → Word} {N m o k : ℕ}

lemma lastRead_eq (h : ChainFile disk i s c N) (hm : m < N) : lastRead disk (.slot i) s m = m := by
  cases m with
  | zero => rfl
  | succ m => exact if_pos (h.reads (m + 1) hm)

/-- The bytes that pass through the buffer are those of the chain. -/
lemma dirByte (h : ChainFile disk i s c N) (hk : k < (s.openedFiles i).size.toNat) :
    dirByte disk (.slot i) s k = chainByte disk s c k := by
  have hlong := h.long
  have hsector : k / 512 < N := by omega
  have hbuffer := h.toFollows.buffer h.front hsector
  rw [h.lastRead_eq hsector] at hbuffer
  rw [MiqOSoft.dirByte, FatState.file, hbuffer, chainByte]

/-- A move inside the file does not fail. -/
lemma move (h : ChainFile disk i s c N) (hm : m + 1 < N) :
    (fatNextSector disk (.slot i) (walk disk (.slot i) s m)).1 = true :=
  (h.toFollows.moved hm).result.trans (h.reads (m + 1) hm)

/-- The end of the chain can only come at the end of the file. -/
lemma sizeAfter_eq (h : ChainFile disk i s c N) {len : ℕ}
    (hlen : o + len ≤ (s.openedFiles i).size.toNat) :
    sizeAfter disk (.slot i) s o len (s.openedFiles i).size = (s.openedFiles i).size := by
  have hlong := h.long
  rw [sizeAfter]
  split_ifs with hend
  · obtain ⟨-, haligned, hends⟩ := hend
    have hN : N ≤ (o + len) / 512 := by
      by_contra hlt
      exact h.toFollows.not_chainEnds (not_le.mp hlt) hends
    have hsize : o + len = (s.openedFiles i).size.toNat := by omega
    rw [hsize, BitVec.ofNat_toNat, BitVec.setWidth_eq]
  · rfl

/-- **One call of `FAT_Read`** delivers the bytes asked for, up to the size. -/
theorem fatRead (h : ChainFile disk i s c N) (ho : o ≤ (s.openedFiles i).size.toNat)
    (byteCount : Word) :
    fatRead disk (.slot i) byteCount (streamState disk (.slot i) s o (s.openedFiles i).size)
      = ((List.range (min byteCount.toNat ((s.openedFiles i).size.toNat - o))).map
            fun k => chainByte disk s c (o + k),
          streamState disk (.slot i) s (o + min byteCount.toNat ((s.openedFiles i).size.toNat - o))
            (s.openedFiles i).size) := by
  have hlong := h.long
  have hlt := (s.openedFiles i).size.isLt
  have hr := @fatRead_streams disk (.slot i) s byteCount o (s.openedFiles i).size
  have hclamp : (((streamState disk (.slot i) s o (s.openedFiles i).size).file (.slot i)).clamp
      byteCount).toNat = min byteCount.toNat ((s.openedFiles i).size.toNat - o) := by
    have hoff : (BitVec.ofNat 32 o).toNat = o := toNat_ofNat_of_lt (by omega)
    have hdir : ¬((s.file (.slot i)).isDirectory = true ∧ (s.openedFiles i).size = 0#32) :=
      fun hdir => Bool.false_ne_true (h.regular.symm.trans hdir.1)
    rw [FatFileData.clamp, isDirectory_streamState, size_streamState, position_streamState,
      if_neg hdir, toNat_wordMin, BitVec.toNat_sub_of_le (by rw [BitVec.le_def, hoff]; exact ho),
      hoff]
  rw [hclamp] at hr
  generalize hn : min byteCount.toNat ((s.openedFiles i).size.toNat - o) = n at hr ⊢
  generalize MiqOSoft.fatRead disk (.slot i) byteCount
    (streamState disk (.slot i) s o (s.openedFiles i).size) = r at hr ⊢
  have hlength : r.1.length = n := by
    refine hr.length.antisymm (not_lt.mp fun hshort => ?_)
    obtain ⟨m, hm, -, hfails⟩ := hr.short hshort
    exact Bool.false_ne_true (hfails.symm.trans (h.move (by omega)))
  refine Prod.ext (hr.bytes.trans ?_) (hr.state.trans ?_)
  · rw [hlength]
    refine List.map_congr_left fun k hk => h.dirByte ?_
    have hk := List.mem_range.mp hk
    omega
  · rw [hlength, h.sizeAfter_eq (by omega)]

/-- **Any calls of `FAT_Read`** deliver the bytes of the chain, however they cut them. -/
theorem fatReads (h : ChainFile disk i s c N) (ho : o ≤ (s.openedFiles i).size.toNat)
    (byteCounts : List Word) :
    (fatReads disk (.slot i) byteCounts
        (streamState disk (.slot i) s o (s.openedFiles i).size)).1.flatten
      = (List.range (min (totalCount byteCounts) ((s.openedFiles i).size.toNat - o))).map
          (fun k => chainByte disk s c (o + k)) ∧
    (fatReads disk (.slot i) byteCounts
        (streamState disk (.slot i) s o (s.openedFiles i).size)).2
      = streamState disk (.slot i) s
          (o + min (totalCount byteCounts) ((s.openedFiles i).size.toNat - o))
          (s.openedFiles i).size := by
  induction byteCounts generalizing o with
  | nil => exact ⟨rfl, rfl⟩
  | cons byteCount byteCounts ih =>
      have hread := h.fatRead ho byteCount
      generalize hn : min byteCount.toNat ((s.openedFiles i).size.toNat - o) = n at hread
      obtain ⟨hbytes, hstate⟩ := ih (o := o + n) (by omega)
      have hsum : min (totalCount (byteCount :: byteCounts)) ((s.openedFiles i).size.toNat - o)
          = n + min (totalCount byteCounts) ((s.openedFiles i).size.toNat - (o + n)) := by
        rw [totalCount, List.map_cons, List.sum_cons, ← totalCount]
        omega
      rw [MiqOSoft.fatReads, hread]
      dsimp only
      rw [List.flatten_cons, hbytes, hstate, hsum, List.range_add, List.map_append, List.map_map,
        ← Nat.add_assoc]
      refine ⟨congrArg _ (List.map_congr_left fun k _ => ?_), rfl⟩
      rw [Function.comp_apply, Nat.add_assoc]

end ChainFile

/-! ### From the opening of a file -/

/-- What any calls have delivered of a file, and what the next one does: the first bytes of the
chain, as many as were asked for and the file has. -/
structure Delivers (disk : Partition) (i : Fin MAX_FILE_HANDLES) (s : FatState) (c : ℕ → Word)
    (fileSize : Word) (byteCounts : List Word) (r : List (List Byte) × FatState) : Prop where
  bytes : r.1.flatten
    = (List.range (min (totalCount byteCounts) fileSize.toNat)).map (chainByte disk s c)
  size : (r.2.openedFiles i).size = fileSize
  position : (r.2.openedFiles i).position.toNat = min (totalCount byteCounts) fileSize.toNat
  next : ∀ byteCount, (fatRead disk (.slot i) byteCount r.2).1.length
    = min byteCount.toNat (fileSize.toNat - (r.2.openedFiles i).position.toNat)

section

variable {disk : Partition} {i : Fin MAX_FILE_HANDLES} {entry : FatDirectoryEntry}
  {s₁ s : FatState} {c : ℕ → Word} {L : ℕ}

/-- **A file whose chain holds it and can be read** is delivered in any pieces. -/
theorem fatReads_file (hopen : fatOpenEntry disk entry s₁ = (some (.slot i), s))
    (hregular : entry.attributes &&& FAT_ATTRIBUTE_DIRECTORY = 0#8)
    (hchain : Follows disk i s c (L * clusterSize s))
    (hlong : entry.size.toNat ≤ 512 * (L * clusterSize s))
    (hreads : ∀ m < L * clusterSize s,
      lastReadOk disk 1 (walk disk (.slot i) s m).requests = true) (byteCounts : List Word) :
    Delivers disk i s c entry.size byteCounts (fatReads disk (.slot i) byteCounts s) := by
  have hopened := opened_of_openEntry hopen
  have hfirst : c 0 = entry.firstCluster := hchain.first.cluster.symm.trans hopened.cluster
  have hfile : ChainFile disk i s c (L * clusterSize s) :=
    { hchain with
      long := by rw [hopened.size]; exact hlong
      reads := hreads
      regular := by rw [hopened.isDirectory, hregular]; rfl
      front := by
        rw [hopened.buffer, Follows.lba, Nat.zero_div, Nat.zero_mod, hfirst] }
  have hzero : streamState disk (.slot i) s 0 (s.openedFiles i).size = s :=
    @streamState_zero disk (.slot i) s hopened.position
  obtain ⟨hbytes, hstate⟩ := hfile.fatReads (Nat.zero_le _) byteCounts
  have hlt := (s.openedFiles i).size.isLt
  have hsize := @size_streamState disk (.slot i) s
    (min (totalCount byteCounts) (s.openedFiles i).size.toNat) (s.openedFiles i).size
  have hposition := @position_streamState disk (.slot i) s
    (min (totalCount byteCounts) (s.openedFiles i).size.toNat) (s.openedFiles i).size
  have hnext := hfile.fatRead (o := min (totalCount byteCounts) (s.openedFiles i).size.toNat)
    (by omega)
  rw [hzero] at hbytes hstate
  simp only [Nat.zero_add, Nat.sub_zero] at hbytes hstate
  rw [← hstate] at hsize hposition
  simp only [← hstate] at hnext
  have hoff : ((fatReads disk (.slot i) byteCounts s).2.openedFiles i).position.toNat
      = min (totalCount byteCounts) (s.openedFiles i).size.toNat := by
    rw [← FatState.file, hposition, BitVec.toNat_ofNat]
    omega
  rw [← hopened.size]
  refine ⟨hbytes, hsize, hoff, fun byteCount => ?_⟩
  rw [hnext byteCount, hoff, List.length_map, List.length_range]

end

theorem fatReads_file_kernel :
    Delivers rootDisk 0 kernelState (fun j => BitVec.ofNat 32 (2 + j)) 513#32
      [512#32, 512#32] (fatReads rootDisk (.slot 0) [512#32, 512#32] kernelState) := by
  have hsize : clusterSize kernelState = 1 := by decide +kernel
  have hlength : kernelEntry.size = 513#32 := by decide +kernel
  have hchain : Follows rootDisk 0 kernelState (fun j => BitVec.ofNat 32 (2 + j))
      (2 * clusterSize kernelState) := by
    refine ⟨⟨by decide +kernel, by decide +kernel⟩, by decide +kernel, fun j hj => ?_,
      fun j hj => ?_⟩
    · rw [hsize] at hj ⊢
      obtain rfl : j = 0 := by omega
      decide +kernel
    · rw [hsize] at hj
      have hj : j = 0 ∨ j = 1 := by omega
      rcases hj with rfl | rfl <;> decide +kernel
  have h := fatReads_file kernelEntry_opened (by decide +kernel) hchain
    (by rw [hsize, hlength]; decide) (fun m hm => ?_) [512#32, 512#32]
  · rwa [hlength] at h
  · rw [hsize] at hm
    have hm : m = 0 ∨ m = 1 := by omega
    rcases hm with rfl | rfl <;> decide +kernel

end MiqOSoft
