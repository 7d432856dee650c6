import MiqOSoft.Boot.FatRequests

/-!
Reading a file of which not every sector can be read.

* `contentByte`: the content of a file on disk.
* `reads_le_left`: of a file that is no directory no more than its size is delivered.
* `dirByte_of_cell`: what stands in the buffer is the last sector that was read.
* `fatReads_content_iff`: which of the bytes delivered are those of the file.
-/

namespace MiqOSoft

open Machine Transition Linked

/-- Byte `k` of the content of a file on disk; only the size of a directory does not count. -/
def contentByte (disk : Partition) (s : FatState) (entry : FatDirectoryEntry) (k : ℕ) :
    Option Byte :=
  if entry.attributes &&& FAT_ATTRIBUTE_DIRECTORY = 0#8 ∧ entry.size.toNat ≤ k then none
  else fileByte disk s entry.firstCluster.toNat k

/-! ### Not more than the size -/

/-- The bytes from the position to the end of the file. -/
def FatFileData.left (fd : FatFileData) : ℕ := fd.size.toNat - fd.position.toNat

section

variable {disk : Partition} {file : FatHandle} {s : FatState}

/-- One call, for a file that is no directory. -/
lemma read_le_left (hdir : (s.file file).isDirectory = false)
    (hle : (s.file file).position.toNat ≤ (s.file file).size.toNat) (byteCount : Word) :
    ((fatRead disk file byteCount s).2.file file).position.toNat
        ≤ ((fatRead disk file byteCount s).2.file file).size.toNat ∧
      (fatRead disk file byteCount s).1.length
          + ((fatRead disk file byteCount s).2.file file).left ≤ (s.file file).left := by
  have hread := advances_read disk file s byteCount
  generalize fatRead disk file byteCount s = r at hread ⊢
  have hlength := hread.length
  have hlt := (s.file file).size.isLt
  have hclamp : ¬((s.file file).isDirectory = true ∧ (s.file file).size = 0#32) := by
    rw [hdir]
    exact fun h => Bool.false_ne_true h.1
  rw [FatFileData.clamp, if_neg hclamp, toNat_wordMin,
    BitVec.toNat_sub_of_le (BitVec.le_def.mpr hle)] at hlength
  have hposition : (r.2.file file).position.toNat = (s.file file).position.toNat + r.1.length := by
    rw [hread.position, BitVec.toNat_add, BitVec.toNat_ofNat]
    omega
  rw [FatFileData.left, FatFileData.left]
  rcases hread.size with hsize | hsize <;> rw [hsize] <;> omega

/-- **Any calls** for a file that is no directory. -/
theorem reads_le_left (hdir : (s.file file).isDirectory = false)
    (hle : (s.file file).position.toNat ≤ (s.file file).size.toNat) (byteCounts : List Word) :
    (fatReads disk file byteCounts s).1.flatten.length ≤ (s.file file).left := by
  induction byteCounts generalizing s with
  | nil => exact Nat.zero_le _
  | cons byteCount byteCounts ih =>
      obtain ⟨hle', hlength⟩ := @read_le_left disk file s hdir hle byteCount
      have hrest := ih ((frame_read disk file byteCount s).isDirectory.trans hdir) hle'
      rw [fatReads]
      dsimp only
      rw [List.flatten_cons, List.length_append]
      omega

end

/-! ### The bytes delivered -/

section

variable {disk : Partition} {i : Fin MAX_FILE_HANDLES} {entry : FatDirectoryEntry}
  {g s₀ s₁ s : FatState} {fuel k : ℕ} {cs : List FatCall}

/-- In a sector of the chain the buffer holds the last sector that was read. -/
lemma dirByte_of_cell (hopened : Opened disk entry i s₁ s)
    (hfile : SoundFile disk i s entry.firstCluster.toNat (k / 512))
    (hcells : ∀ m ≤ k / 512,
      cell (diskNext disk s) (clusterSize s) entry.firstCluster.toNat m ≠ none) :
    some (dirByte disk (.slot i) s k) = fileByte disk s entry.firstCluster.toNat
      (512 * lastRead disk (.slot i) s (k / 512) + k % 512) := by
  have hfollows := hfile.follows (N := k / 512 + 1) le_rfl fun m hm => hcells m (by omega)
  have hfirst : (s.openedFiles i).buffer
      = disk.bytesAt (Follows.lba s (chainCluster disk s entry.firstCluster.toNat) 0) := by
    rw [hopened.buffer, Follows.lba, Nat.zero_div, Nat.zero_mod, chainCluster_of_some follow_zero,
      BitVec.ofNat_toNat, BitVec.setWidth_eq]
  have hbuffer := hfollows.buffer hfirst (Nat.lt_succ_self (k / 512))
  have hdiv : (512 * lastRead disk (.slot i) s (k / 512) + k % 512) / 512
      = lastRead disk (.slot i) s (k / 512) := by omega
  have hmod : (512 * lastRead disk (.slot i) s (k / 512) + k % 512) % 512 = k % 512 := by omega
  rw [dirByte, FatState.file, hbuffer, fileByte, hdiv, hmod,
    fileSector_of_cell (hcells _ lastRead_le), Option.map_some]

/-- What is delivered of a file that is no directory lies in front of its size. -/
lemma contentByte_of_lt (hopened : Opened disk entry i s₁ s) (byteCounts : List Word)
    (hk : k < (fatReads disk (.slot i) byteCounts s).1.flatten.length) :
    contentByte disk s entry k = fileByte disk s entry.firstCluster.toNat k := by
  refine if_neg fun h => ?_
  have hdir : (s.openedFiles i).isDirectory = false := by
    rw [hopened.isDirectory, h.1]
    rfl
  have hposition : (s.openedFiles i).position.toNat = 0 := by
    rw [hopened.position]
    rfl
  have hle := @reads_le_left disk (.slot i) s hdir (hposition.trans_le (Nat.zero_le _)) byteCounts
  rw [FatState.file, FatFileData.left, hopened.size] at hle
  have hsize := h.2
  omega

/-- **A byte that is delivered** is that of the file if and only if the last sector that was read
without a failure holds the same byte in its place. -/
theorem fatReads_content_iff (hinit : fatInitialize disk g = (some true, s₀))
    (hrun : FatRun disk fuel s₀ cs s₁) (hopen : fatOpenEntry disk entry s₁ = (some (.slot i), s))
    (byteCounts : List Word) (hk : k < (fatReads disk (.slot i) byteCounts s).1.flatten.length)
    (hsound : SoundUpTo disk i s entry.firstCluster.toNat (k / 512))
    (hwrap : NoWrap disk i s entry.firstCluster.toNat) :
    (fatReads disk (.slot i) byteCounts s).1.flatten[k]? = contentByte disk s entry k ↔
      contentByte disk s entry (512 * lastRead disk (.slot i) s (k / 512) + k % 512)
        = contentByte disk s entry k := by
  have hopened := opened_of_openEntry hopen
  have hfile := soundFile_of_opened hinit hrun hopen hsound
  have hle := @lastRead_le disk s (.slot i) (k / 512)
  rw [contentByte_of_lt hopened byteCounts hk, contentByte_of_lt hopened byteCounts (by omega)]
  obtain ⟨len, hbytes, hstate⟩ := reads_stream hfile hwrap byteCounts
    (.inl (inChain_zero hopened.position))
  have hlen : (fatReads disk (.slot i) byteCounts s).1.flatten.length = len := by
    rw [hbytes, List.length_map, List.length_range]
  rw [hlen] at hk
  rw [Nat.zero_add] at hstate
  have hcells : ∀ m ≤ k / 512,
      cell (diskNext disk s) (clusterSize s) entry.firstCluster.toNat m ≠ none := fun m hm => by
    rcases hstate with hin | hend
    · exact hin.cells m (by omega) hm
    · have haligned := hend.aligned
      have hle := hend.le
      exact hend.cells m (by omega)
  have hbyte : (fatReads disk (.slot i) byteCounts s).1.flatten[k]?
      = some (dirByte disk (.slot i) s k) := by
    rw [hbytes, List.getElem?_map, List.getElem?_range hk, Option.map_some, Nat.zero_add]
  rw [hbyte, dirByte_of_cell hopened hfile hcells]

end

theorem fatReads_content_iff_kernel :
    (fatReads rootDisk (.slot 0) [512#32, 512#32] kernelState).1.flatten[512]?
        = contentByte rootDisk kernelState kernelEntry 512 ↔
      contentByte rootDisk kernelState kernelEntry
          (512 * lastRead rootDisk (.slot 0) kernelState (512 / 512) + 512 % 512)
        = contentByte rootDisk kernelState kernelEntry 512 := by
  have hcluster : kernelEntry.firstCluster.toNat = 2 := by decide +kernel
  refine fatReads_content_iff rootDisk_initialized
    (Run.nil rootState : FatRun rootDisk 0 rootState [] rootState) kernelEntry_opened
    [512#32, 512#32] (by decide +kernel) ?_ (fun hdir => absurd hdir (by decide +kernel))
  rw [hcluster]
  exact kernelEntry_sound

/-- The volume with two sectors that are not zero.  The first read of the second one fails. -/
def shakyDisk : Partition where
  sector lba k := if lba = 4#32 ∨ lba = 5#32 then lba.setWidth 8 else rootDisk.sector lba k
  fails h lba n := rootDisk.fails h lba n || decide (lba = 5#32 ∧ n = 1 ∧ (5#32, 1) ∉ h)

/-- The state after `FAT_Initialize`. -/
def shakyState : FatState := (fatInitialize shakyDisk blankState).2

/-- The state after `FAT_OpenEntry` of the file. -/
def shakyOpened : FatState := (fatOpenEntry shakyDisk kernelEntry shakyState).2

/-- **A sector served twice**: the second one cannot be read when the first one is used up, and
the next call delivers the first one again. -/
theorem fatRead_serves_stale :
    (fatInitialize shakyDisk blankState).1 = some true ∧
      fatDirectoryEntry (shakyDisk.sector 2#32) = kernelEntry ∧
      (fatOpenEntry shakyDisk kernelEntry shakyState).1 = some (.slot 0) ∧
      (fatReads shakyDisk (.slot 0) [512#32, 1#32] shakyOpened).1.flatten[512]?
        = some 4#8 ∧
      contentByte shakyDisk shakyOpened kernelEntry 512 = some 5#8 := by
  refine ⟨?_, ?_, ?_, ?_, ?_⟩ <;> decide +kernel

end MiqOSoft
