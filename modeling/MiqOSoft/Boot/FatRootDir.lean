import MiqOSoft.Boot.FatDiskChain
import MiqOSoft.Boot.FatSearch

/-!
The root directory of a FAT32 volume.

* `afterEntries`: the state after some calls of `FAT_ReadEntry`.
* `chainEntry`: the entries of a directory on disk, in the order of its cluster chain.
* `countedEntry`: the entries in the sectors that the root handle counts through.
* `fatReadEntry_root`: what the root handle delivers.
* `rootEntries_iff`: when that is the directory on disk.
-/

namespace MiqOSoft

open Machine Linked

/-- The state after `n` entries were asked for. -/
def afterEntries (disk : Partition) (file : FatHandle) (s : FatState) : ℕ → FatState
  | 0 => s
  | n + 1 => (fatReadEntry disk file (afterEntries disk file s n)).2

/-- Entry `n` of the directory with first cluster `c₀`, if its chain is so long. -/
def chainEntry (disk : Partition) (s : FatState) (c₀ n : ℕ) : Option FatDirectoryEntry :=
  (fileSector disk s c₀ (n / 16)).map fun lba =>
    fatDirectoryEntry fun k => disk.bytesAt lba (32 * (n % 16) + k)

/-- Entry `n` of the sectors from the first one of the root directory on.  In place of a sector
that cannot be read stands the one before it. -/
def countedEntry (disk : Partition) (s : FatState) (n : ℕ) : FatDirectoryEntry :=
  fatDirectoryEntry fun k =>
    disk.bytesAt
      (s.rootDirectory.firstCluster + BitVec.ofNat 32 (lastRead disk .root s (n / 16)))
      (32 * (n % 16) + k)

/-! ### One entry -/

section

variable {disk : Partition} {s : FatState} {size : Word} {n : ℕ}

/-- The bytes of an entry inside the directory. -/
lemma fatRead_more (hdir : s.rootDirectory.isDirectory = true)
    (hmore : size = 0#32 ∨ 32 * (n + 1) ≤ size.toNat) :
    fatRead disk .root 32#32 (streamState disk .root s (32 * n) size)
      = ((List.range 32).map fun k => dirByte disk .root s (32 * n + k),
          streamState disk .root s (32 * (n + 1)) size) := by
  have hr := @fatRead_streams disk .root s 32#32 (32 * n) size
  have hclamp : ((streamState disk .root s (32 * n) size).file .root).clamp 32#32 = 32#32 := by
    rw [FatFileData.clamp, isDirectory_streamState, size_streamState, position_streamState]
    rcases hmore with rfl | hmore
    · exact if_pos ⟨hdir, rfl⟩
    · have hlt := size.isLt
      have hoff : (BitVec.ofNat 32 (32 * n)).toNat = 32 * n := toNat_ofNat_of_lt (by omega)
      have hsize : size ≠ 0#32 := fun hzero => by
        rw [hzero] at hmore
        exact absurd hmore (by simp)
      rw [if_neg fun h => hsize h.2]
      refine BitVec.eq_of_toNat_eq ?_
      rw [toNat_wordMin, BitVec.toNat_sub_of_le (by rw [BitVec.le_def, hoff]; omega), hoff]
      change min 32 _ = 32
      omega
  rw [hclamp] at hr
  change Streams disk .root s (32 * n) 32 size _ at hr
  cases hread : fatRead disk .root 32#32 (streamState disk .root s (32 * n) size) with
  | mk bytes t =>
  rw [hread] at hr
  -- an entry lies in one sector, so that a move that fails comes behind it
  have hlength : bytes.length = 32 := by
    refine hr.length.antisymm (not_lt.mp fun hshort => ?_)
    obtain ⟨m, hm, hle, -⟩ := hr.short hshort
    omega
  have hbytes : bytes = _ := hr.bytes
  have hstate : t = _ := hr.state
  dsimp only at hstate
  rw [hlength] at hbytes
  rw [hstate, hlength, sizeAfter, if_neg fun h => h.2.2]
  exact Prod.ext hbytes rfl

/-- An entry inside the directory. -/
lemma fatReadEntry_more (hdir : s.rootDirectory.isDirectory = true)
    (hmore : size = 0#32 ∨ 32 * (n + 1) ≤ size.toNat) :
    fatReadEntry disk .root (streamState disk .root s (32 * n) size)
      = (some (entryAt disk .root s (32 * n)), streamState disk .root s (32 * (n + 1)) size) := by
  rw [fatReadEntry_of_read (fatRead_more hdir hmore) (by simp)]
  refine Prod.ext (congrArg some (fatDirectoryEntry_congr fun k hk => ?_)) rfl
  rw [List.getD_eq_getElem?_getD, List.getElem?_map, List.getElem?_range hk]
  rfl

/-- The end of a directory that has a size. -/
lemma fatReadEntry_end (hsize : size ≠ 0#32) (hend : BitVec.ofNat 32 (32 * n) = size) :
    fatReadEntry disk .root (streamState disk .root s (32 * n) size)
      = (none, streamState disk .root s (32 * n) size) := by
  have hclamp : ((streamState disk .root s (32 * n) size).file .root).clamp 32#32 = 0#32 := by
    rw [FatFileData.clamp, isDirectory_streamState, size_streamState, position_streamState,
      if_neg fun h => hsize h.2, hend, BitVec.sub_self]
    rfl
  have hread : fatRead disk .root 32#32 (streamState disk .root s (32 * n) size)
      = ([], streamState disk .root s (32 * n) size) := by
    rw [fatRead, hclamp, fatReadLoop_zero]
  exact fatReadEntry_of_short hread (by decide)

/-! ### The sectors that the root handle counts through -/

lemma buffer_walk_root_lastRead
    (hcluster : s.rootDirectory.currentCluster = s.rootDirectory.firstCluster)
    (hbuffer : s.rootDirectory.buffer = disk.bytesAt s.rootDirectory.firstCluster) (m : ℕ) :
    (walk disk .root s m).rootDirectory.buffer = disk.bytesAt
      (s.rootDirectory.firstCluster + BitVec.ofNat 32 (lastRead disk .root s m)) := by
  induction m with
  | zero => rw [walk, hbuffer, lastRead, BitVec.add_zero]
  | succ m ih =>
      obtain ⟨-, hrequests, hmoved⟩ := @fatNextSector_root disk
        (walk disk .root s m)
      rw [lba_walk_root, hcluster] at hrequests hmoved
      rw [lastRead, walk, hmoved, hrequests, lastReadOk, if_pos rfl]
      cases disk.fails (walk disk .root s m).requests
          (s.rootDirectory.firstCluster + BitVec.ofNat 32 (m + 1)) 1 with
      | true => exact ih
      | false => rfl

lemma dirByte_root (hcluster : s.rootDirectory.currentCluster = s.rootDirectory.firstCluster)
    (hbuffer : s.rootDirectory.buffer = disk.bytesAt s.rootDirectory.firstCluster) {k : ℕ}
    (hk : k < 32) :
    dirByte disk .root s (32 * n + k) = disk.bytesAt
      (s.rootDirectory.firstCluster + BitVec.ofNat 32 (lastRead disk .root s (n / 16)))
      (32 * (n % 16) + k) := by
  have hdiv : (32 * n + k) / 512 = n / 16 := by omega
  have hmod : (32 * n + k) % 512 = 32 * (n % 16) + k := by omega
  rw [dirByte, FatState.file, hdiv, hmod, buffer_walk_root_lastRead hcluster hbuffer]

lemma entryAt_root (hcluster : s.rootDirectory.currentCluster = s.rootDirectory.firstCluster)
    (hbuffer : s.rootDirectory.buffer = disk.bytesAt s.rootDirectory.firstCluster) (n : ℕ) :
    entryAt disk .root s (32 * n) = countedEntry disk s n :=
  fatDirectoryEntry_congr fun _ hk => dirByte_root hcluster hbuffer hk

end

/-! ### All entries -/

section

variable {disk : Partition} {g s : FatState} {n L : ℕ}

/-- The entries that the root directory has by its boot sector. -/
def rootCount (s : FatState) : ℕ := s.bootSector.dirEntryCount.toNat

lemma toNat_size_root (h : Initialized disk s) :
    s.rootDirectory.size.toNat = 32 * rootCount s := by
  have hcount := s.bootSector.dirEntryCount.isLt
  have hsize : s.rootDirectory.size = 32#32 * s.bootSector.dirEntryCount.setWidth 32 := by
    rw [h.root]
  rw [hsize, BitVec.toNat_mul, BitVec.toNat_setWidth_of_le (by omega), rootCount]
  change 32 * _ % 2 ^ 32 = _
  omega

/-- The entries in front of the position once `n` were asked for: it stops at the size, if there
is one. -/
def passedEntries (s : FatState) (n : ℕ) : ℕ :=
  if rootCount s = 0 then n else min n (rootCount s)

/-- **One entry** of the root directory. -/
lemma fatReadEntry_passed (h : Initialized disk s) (n : ℕ) :
    fatReadEntry disk .root
        (streamState disk .root s (32 * passedEntries s n) s.rootDirectory.size)
      = (if rootCount s = 0 ∨ n < rootCount s then some (countedEntry disk s n) else none,
          streamState disk .root s (32 * passedEntries s (n + 1)) s.rootDirectory.size) := by
  have hdir : s.rootDirectory.isDirectory = true := by rw [h.root]
  have hcluster : s.rootDirectory.currentCluster = s.rootDirectory.firstCluster := by rw [h.root]
  have hbuffer : s.rootDirectory.buffer = disk.bytesAt s.rootDirectory.firstCluster :=
    congrArg FatFileData.buffer h.root
  have htoNat := toNat_size_root h
  rw [passedEntries, passedEntries, ← entryAt_root hcluster hbuffer]
  by_cases hcount : rootCount s = 0
  · have hsize : s.rootDirectory.size = 0#32 := by
      refine BitVec.eq_of_toNat_eq ?_
      rw [htoNat, hcount]
      rfl
    rw [if_pos hcount, if_pos hcount, if_pos (.inl hcount), fatReadEntry_more hdir (.inl hsize)]
  · rw [if_neg hcount, if_neg hcount]
    rcases Nat.lt_or_ge n (rootCount s) with hlt | hge
    · rw [min_eq_left hlt.le, min_eq_left hlt, if_pos (.inr hlt),
        fatReadEntry_more hdir (.inr (by omega))]
    · have hsize : s.rootDirectory.size ≠ 0#32 := fun hzero => by
        rw [hzero] at htoNat
        exact hcount (by simpa using htoNat.symm)
      have hend : BitVec.ofNat 32 (32 * rootCount s) = s.rootDirectory.size := by
        rw [← htoNat, BitVec.ofNat_toNat, BitVec.setWidth_eq]
      rw [min_eq_right hge, min_eq_right (by omega), if_neg (by omega),
        fatReadEntry_end hsize hend]

/-- The state after any number of entries. -/
lemma afterEntries_root (h : Initialized disk s) (n : ℕ) :
    afterEntries disk .root s n
      = streamState disk .root s (32 * passedEntries s n) s.rootDirectory.size := by
  induction n with
  | zero =>
      have hposition : (s.file .root).position = 0#32 := by rw [FatState.file, h.root]
      have hzero : passedEntries s 0 = 0 := by
        rw [passedEntries]
        split_ifs
        · rfl
        · exact Nat.zero_min _
      rw [afterEntries, hzero]
      exact (streamState_zero hposition).symm
  | succ n ih => rw [afterEntries, ih, fatReadEntry_passed h]

/-- **The root handle** delivers the entries in the sectors that it counts through, without an
end if the boot sector gives none. -/
theorem fatReadEntry_root (h : Initialized disk s) (n : ℕ) :
    (fatReadEntry disk .root (afterEntries disk .root s n)).1
      = if rootCount s = 0 ∨ n < rootCount s then some (countedEntry disk s n) else none := by
  rw [afterEntries_root h, fatReadEntry_passed h]

/-- The directory of a chain of `L` clusters has 16 entries in each sector of them. -/
lemma chainEntry_eq_none_iff {c₀ : ℕ} (hchain : HasLength (diskNext disk s) c₀ L)
    (hsize : 0 < clusterSize s) :
    chainEntry disk s c₀ n = none ↔ 16 * (clusterSize s * L) ≤ n := by
  rw [chainEntry, Option.map_eq_none_iff, fileSector_eq_none_iff, hchain.cell_eq_none_iff hsize,
    Nat.le_div_iff_mul_le (by decide), Nat.mul_comm]

/-- The first cluster of the root directory of a FAT32 volume. -/
def rootCluster (s : FatState) : ℕ := s.bootSector.ebr32RootDirectoryCluster.toNat

/-- **The root directory is that of its cluster chain** if and only if the boot sector gives the
number of its entries, and the sectors that the root handle counts through hold what the clusters
of the chain do. -/
theorem rootEntries_iff (hinit : fatInitialize disk g = (some true, s))
    (hchain : HasLength (diskNext disk s) (rootCluster s) L) :
    (∀ n, (fatReadEntry disk .root (afterEntries disk .root s n)).1
        = chainEntry disk s (rootCluster s) n) ↔
      rootCount s = 16 * (clusterSize s * L) ∧
        ∀ n < rootCount s, some (countedEntry disk s n) = chainEntry disk s (rootCluster s) n := by
  have hready := fatInitialize_ready hinit
  have hsize := clusterSize_pos hready
  have hL : 0 < L := by
    refine Nat.pos_of_ne_zero fun hzero => ?_
    have hnone := hchain.none_at
    rw [hzero, follow_zero] at hnone
    exact Option.some_ne_none _ hnone
  have hpos : 0 < clusterSize s * L := Nat.mul_pos hsize hL
  have hnone : ∀ n, chainEntry disk s (rootCluster s) n = none ↔ 16 * (clusterSize s * L) ≤ n :=
    fun n => chainEntry_eq_none_iff hchain hsize
  simp only [fatReadEntry_root hready]
  constructor
  · intro hentries
    have hcount : rootCount s ≠ 0 := fun hzero => by
      have hlast := hentries (16 * (clusterSize s * L))
      rw [if_pos (.inl hzero), (hnone _).mpr le_rfl] at hlast
      exact Option.some_ne_none _ hlast
    have hle : rootCount s ≤ 16 * (clusterSize s * L) := by
      have hlast := hentries (16 * (clusterSize s * L))
      rw [(hnone _).mpr le_rfl] at hlast
      by_contra hlt
      rw [if_pos (.inr (not_le.mp hlt))] at hlast
      exact Option.some_ne_none _ hlast
    have hge : 16 * (clusterSize s * L) ≤ rootCount s := by
      have hend := hentries (rootCount s)
      rw [if_neg (by omega)] at hend
      exact (hnone _).mp hend.symm
    refine ⟨hle.antisymm hge, fun n hn => ?_⟩
    have hentry := hentries n
    rwa [if_pos (.inr hn)] at hentry
  · rintro ⟨hcount, hentries⟩ n
    rcases Nat.lt_or_ge n (rootCount s) with hlt | hge
    · rw [if_pos (.inr hlt)]
      exact hentries n hlt
    · rw [if_neg (by omega), (hnone n).mpr (by omega)]

end

theorem rootEntries_iff_fat32 :
    (∀ n, (fatReadEntry fat32Disk .root (afterEntries fat32Disk .root fat32State n)).1
        = chainEntry fat32Disk fat32State (rootCluster fat32State) n) ↔
      rootCount fat32State = 16 * (clusterSize fat32State * 1) ∧
        ∀ n < rootCount fat32State, some (countedEntry fat32Disk fat32State n)
          = chainEntry fat32Disk fat32State (rootCluster fat32State) n := by
  refine rootEntries_iff fat32Disk_initialized ⟨fun j hj => ?_, by decide +kernel⟩
  obtain rfl := Nat.lt_one_iff.mp hj
  exact Option.some_ne_none _

/-- A FAT32 volume whose root directory is the clusters 2 and 4. -/
def splitDisk : Partition := Partition.image 5000 ([
  (32, 8, [0x04#8, 0x00#8, 0x00#8, 0x00#8]),
  (32, 16, [0xFF#8, 0xFF#8, 0xFF#8, 0x0F#8]),
  (73, 0, ascii "DATA"),
  (74, 0, ascii "KERNEL  ELF")] ++ fat32Pieces)

/-- The state after `FAT_Initialize`. -/
def splitState : FatState := (fatInitialize splitDisk blankState).2

/-- **Another file read as a directory**: the entry behind those of the first cluster is taken
from cluster 3, which is none of the root directory. -/
theorem rootEntries_split :
    fatInitialize splitDisk blankState = (some true, splitState) ∧ splitState.fatType = .fat32 ∧
      HasLength (diskNext splitDisk splitState) (rootCluster splitState) 2 ∧
      ((chainEntry splitDisk splitState (rootCluster splitState) 16).map FatDirectoryEntry.name)
        = some (ascii "KERNEL  ELF") ∧
      ¬∀ n, (fatReadEntry splitDisk .root (afterEntries splitDisk .root splitState n)).1
        = chainEntry splitDisk splitState (rootCluster splitState) n := by
  have hready : (fatInitialize splitDisk blankState).1 = some true := by decide +kernel
  have hlength : HasLength (diskNext splitDisk splitState) (rootCluster splitState) 2 := by
    refine ⟨fun j hj => ?_, by decide +kernel⟩
    have hj : j = 0 ∨ j = 1 := by omega
    rcases hj with rfl | rfl <;> decide +kernel
  refine ⟨Prod.ext hready rfl, by decide +kernel, hlength, by decide +kernel, fun h => ?_⟩
  exact absurd (h 16) (by decide +kernel)

end MiqOSoft
