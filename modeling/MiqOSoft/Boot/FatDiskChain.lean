import MiqOSoft.Boot.FatChain

/-!
The cluster chain of a file on disk, and the walk along it.

* `diskNext`: the successor of a cluster, by the FAT on disk.
* `fileSector`, `fileByte`: the sectors and the bytes of a file, by its chain.
* `SoundLookup`: a lookup through a window that was read, of an entry that lies in the window and
  whose reserved bits are those that the driver takes for granted (`next_of_sound`).
* `SoundUpTo`: the lookups of the walk through a file are sound, up to a sector.
* `Opened`: what `FAT_OpenEntry` leaves in its slot.
* `SoundFile.follows`, `SoundFile.ends`: then the walk follows the chain on disk to its end.
-/

namespace MiqOSoft

open Machine Transition Linked

/-! ### The chain on disk -/

namespace FatType

/-- The cluster number in an entry: in FAT32 the upper four bits are reserved. -/
def cluster : FatType → ℕ → ℕ
  | fat12, v => v
  | fat16, v => v
  | fat32, v => v % 2 ^ 28

lemma entry_lt_of_fat16 (c : ℕ) (b : ℕ → Byte) : entry fat16 c b < 65536 := by
  have h0 := (b 0).isLt
  have h1 := (b 1).isLt
  simp only [entry]
  omega

/-- The smallest end marker. -/
def endMark : FatType → ℕ
  | fat12 => 0xFF8
  | fat16 => 0xFFF8
  | fat32 => 0x0FFFFFF8

end FatType

/-- The entry of cluster `c` of the FAT on disk. -/
def rawEntry (disk : Partition) (s : FatState) (c : ℕ) : ℕ :=
  s.fatType.entry c fun k => fatByte disk s (s.fatType.offset c + k)

/-- The successor of cluster `c`; there is none behind an end marker. -/
def diskNext (disk : Partition) (s : FatState) (c : ℕ) : Option ℕ :=
  if s.fatType.endMark ≤ s.fatType.cluster (rawEntry disk s c) then none
  else some (s.fatType.cluster (rawEntry disk s c))

/-- The address of sector `m` of the file with first cluster `c₀`, if its chain is so long. -/
def fileSector (disk : Partition) (s : FatState) (c₀ m : ℕ) : Option Word :=
  (cell (diskNext disk s) (clusterSize s) c₀ m).map fun p => sectorLba s (BitVec.ofNat 32 p.1) p.2

/-- Byte `k` of the file with first cluster `c₀`. -/
def fileByte (disk : Partition) (s : FatState) (c₀ k : ℕ) : Option Byte :=
  (fileSector disk s c₀ (k / 512)).map fun lba => disk.bytesAt lba (k % 512)

section

variable {disk : Partition} {s t : FatState} {c b : ℕ}

lemma diskNext_congr (h : Continues s t) : diskNext disk t = diskNext disk s := by
  funext c
  rw [diskNext, diskNext, rawEntry, rawEntry, h.fatType, fatByte_congr h.bootSector]

lemma rawEntry_lt : rawEntry disk s c < 2 ^ 32 := by
  rw [rawEntry]
  generalize (fun k => fatByte disk s (s.fatType.offset c + k)) = b
  have h0 := (b 0).isLt
  have h1 := (b 1).isLt
  have h2 := (b 2).isLt
  have h3 := (b 3).isLt
  cases s.fatType <;> simp only [FatType.entry]
  · split <;> omega
  · omega
  · omega

lemma diskNext_eq_none_iff :
    diskNext disk s c = none ↔ s.fatType.endMark ≤ s.fatType.cluster (rawEntry disk s c) := by
  by_cases h : s.fatType.endMark ≤ s.fatType.cluster (rawEntry disk s c)
  · exact iff_of_true (if_pos h) h
  · refine iff_of_false ?_ h
    rw [diskNext, if_neg h]
    exact Option.some_ne_none _

lemma diskNext_lt (h : diskNext disk s c = some b) : b < 2 ^ 32 := by
  rw [diskNext] at h
  split_ifs at h
  obtain rfl := Option.some.inj h
  have hlt := @rawEntry_lt disk s c
  cases s.fatType <;> simp only [FatType.cluster] <;> omega

lemma follow_lt {c₀ : ℕ} (h₀ : c₀ < 2 ^ 32) {j : ℕ}
    (h : follow (diskNext disk s) c₀ j = some b) : b < 2 ^ 32 := by
  cases j with
  | zero =>
      obtain rfl := Option.some.inj h
      exact h₀
  | succ j =>
      obtain ⟨a, -, hb⟩ := Option.bind_eq_some_iff.mp h
      exact diskNext_lt hb

lemma fileSector_congr (h : Continues s t) : fileSector disk t = fileSector disk s := by
  funext c₀ m
  rw [fileSector, fileSector, diskNext_congr h, clusterSize_congr h]
  simp only [sectorLba_congr h]

lemma fileSector_eq_none_iff {c₀ m : ℕ} :
    fileSector disk s c₀ m = none ↔ cell (diskNext disk s) (clusterSize s) c₀ m = none :=
  Option.map_eq_none_iff

end

/-! ### Sound lookups -/

/-- The reserved bits of a FAT32 entry are set in an end marker and clear elsewhere. -/
def ReservedBits (disk : Partition) (s : FatState) (c : ℕ) : Prop :=
  rawEntry disk s c / 2 ^ 28 = if 0x0FFFFFF8 ≤ rawEntry disk s c % 2 ^ 28 then 0xF else 0

/-- The lookup of cluster `c` is served by a window whose read succeeded, the entry does not run
over its end, its offset is not cut to 32 bits, and its reserved bits are as the driver takes
them for granted. -/
structure SoundLookup (disk : Partition) (s : FatState) (c : ℕ) : Prop where
  read : lastReadOk disk FAT_CACHE_SIZE
    (fatNextCluster disk (BitVec.ofNat 32 c) s).2.requests = true
  whole : ¬Overruns disk s (fatNextCluster disk (BitVec.ofNat 32 c) s).2.fatCachePosition
    (BitVec.ofNat 32 c)
  index : (fatIndex s.fatType (BitVec.ofNat 32 c)).toNat = s.fatType.offset c
  reserved : s.fatType = .fat32 → ReservedBits disk s c

section

variable {disk : Partition} {s : FatState} {c b : ℕ}

/-- A sound lookup returns the entry of the disk, with the end markers extended. -/
lemma toNat_next_of_sound (h : CacheTraced disk s) (hc : c < 2 ^ 32)
    (hsound : SoundLookup disk s c) :
    (fatNextCluster disk (BitVec.ofNat 32 c) s).1.toNat = s.fatType.extend (rawEntry disk s c) := by
  have hholds : CacheHolds disk (fatNextCluster disk (BitVec.ofNat 32 c) s).2 := by
    have hnext := cacheTraced_next h (BitVec.ofNat 32 c)
    refine hnext.holds (fun hempty => ?_) hsound.read
    obtain ⟨hlow, -⟩ : InWindow (fatNextCluster disk (BitVec.ofNat 32 c) s).2.fatCachePosition
      (fatIndex s.fatType (BitVec.ofNat 32 c) / SECTOR_SIZE) := inWindow_next h.valid
    rw [hempty, toNat_sectorOf] at hlow
    have hlt := (fatIndex s.fatType (BitVec.ofNat 32 c)).isLt
    change 4294967295 ≤ _ at hlow
    omega
  have hvalue := (fatNextCluster_value_iff h.valid hholds).mpr hsound.whole
  rwa [hsound.index, toNat_ofNat_of_lt hc] at hvalue

/-- **A sound lookup** finds the end of the chain, and nothing else for it. -/
theorem end_of_sound (h : CacheTraced disk s) (hc : c < 2 ^ 32) (hsound : SoundLookup disk s c) :
    FAT_CHAIN_END ≤ (fatNextCluster disk (BitVec.ofNat 32 c) s).1 ↔ diskNext disk s c = none := by
  have hvalue := toNat_next_of_sound h hc hsound
  have hreserved := hsound.reserved
  have hlt := @rawEntry_lt disk s c
  have hend : FAT_CHAIN_END.toNat = 0xFFFFFFF8 := rfl
  rw [BitVec.le_def, hvalue, hend, diskNext_eq_none_iff]
  cases ht : s.fatType with
  | fat12 =>
      have hlt : rawEntry disk s c < 4096 := by
        rw [rawEntry, ht]
        exact FatType.entry_lt_of_fat12 _ _
      simp only [FatType.extend, FatType.endMark, FatType.cluster]
      split_ifs <;> omega
  | fat16 =>
      have hlt : rawEntry disk s c < 65536 := by
        rw [rawEntry, ht]
        exact FatType.entry_lt_of_fat16 _ _
      simp only [FatType.extend, FatType.endMark, FatType.cluster]
      split_ifs <;> omega
  | fat32 =>
      have hbits := hreserved ht
      rw [ReservedBits] at hbits
      simp only [FatType.extend, FatType.endMark, FatType.cluster]
      split_ifs at hbits <;> omega

/-- **A sound lookup** returns the successor on disk. -/
theorem next_of_sound (h : CacheTraced disk s) (hc : c < 2 ^ 32) (hsound : SoundLookup disk s c)
    (hnext : diskNext disk s c = some b) :
    (fatNextCluster disk (BitVec.ofNat 32 c) s).1 = BitVec.ofNat 32 b := by
  have hvalue := toNat_next_of_sound h hc hsound
  have hreserved := hsound.reserved
  have hlt := @rawEntry_lt disk s c
  have hblt := diskNext_lt hnext
  refine BitVec.eq_of_toNat_eq ?_
  rw [hvalue, toNat_ofNat_of_lt hblt]
  rw [diskNext] at hnext
  split_ifs at hnext with hend
  obtain rfl := Option.some.inj hnext
  cases ht : s.fatType with
  | fat12 =>
      rw [ht] at hend
      exact if_neg hend
  | fat16 =>
      rw [ht] at hend
      exact if_neg hend
  | fat32 =>
      have hbits := hreserved ht
      rw [ReservedBits] at hbits
      rw [ht] at hend
      simp only [FatType.endMark, FatType.cluster] at hend
      rw [if_neg hend] at hbits
      simp only [FatType.extend, FatType.cluster]
      omega

end

/-! ### A file just opened -/

/-- The first cluster of an entry. -/
def FatDirectoryEntry.firstCluster (entry : FatDirectoryEntry) : Word :=
  entry.firstClusterLow.setWidth 32 + entry.firstClusterHigh.setWidth 32 <<< 16

/-- What `FAT_OpenEntry` leaves in the slot that it returns. -/
structure Opened (disk : Partition) (entry : FatDirectoryEntry) (i : Fin MAX_FILE_HANDLES)
    (s₁ s : FatState) : Prop extends Continues s₁ s, Stands i s entry.firstCluster 0 where
  isDirectory : (s.openedFiles i).isDirectory
    = decide (entry.attributes &&& FAT_ATTRIBUTE_DIRECTORY ≠ 0#8)
  position : (s.openedFiles i).position = 0#32
  size : (s.openedFiles i).size = entry.size
  requests : dataRequests s = dataRequests s₁ ++ [sectorLba s entry.firstCluster 0]
  result : lastReadOk disk 1 s.requests = true
  buffer : (s.openedFiles i).buffer = disk.bytesAt (sectorLba s entry.firstCluster 0)

section

variable {disk : Partition} {entry : FatDirectoryEntry} {i : Fin MAX_FILE_HANDLES}
  {s₁ s : FatState}

theorem opened_of_openEntry (h : fatOpenEntry disk entry s₁ = (some (.slot i), s)) :
    Opened disk entry i s₁ s := by
  have hcontinues := continues_openEntry disk entry s₁
  rw [h] at hcontinues
  cases hfree : freeHandle s₁ with
  | none =>
      rw [fatOpenEntry_full hfree] at h
      cases h
  | some j =>
      cases hread : entryRead disk entry j s₁ with
      | mk ok t =>
      cases ok with
      | false =>
          rw [fatOpenEntry_fails hfree hread] at h
          cases h
      | true =>
          rw [fatOpenEntry_opens hfree hread] at h
          obtain ⟨hj, hs⟩ := Prod.mk.inj h
          obtain rfl : j = i := by simpa using hj
          rw [entryRead] at hread
          have hcluster : (entry.fileData (s₁.openedFiles j)).currentCluster
            = entry.firstCluster := rfl
          rw [hcluster] at hread
          have hlba : sectorLba s entry.firstCluster 0
              = fatClusterToLba (entryState entry j s₁) entry.firstCluster := by
            rw [sectorLba_congr hcontinues, sectorLba]
            exact BitVec.add_zero _
          rw [← hlba] at hread
          generalize hl : sectorLba s entry.firstCluster 0 = lba at hread
          cases hfails : disk.fails (entryState entry j s₁).requests lba 1 with
          | true =>
              rw [fatReadBuffer_of_fails hfails] at hread
              cases hread
          | false =>
              rw [fatReadBuffer_of_not_fails hfails] at hread
              obtain rfl := (Prod.mk.inj hread).2
              have hrequests : s.requests = (lba, 1) :: s₁.requests := by
                rw [← hs]
                rfl
              have hfile : s.openedFiles j = { entry.fileData (s₁.openedFiles j) with
                  buffer := disk.bytesAt lba, opened := true } := by
                rw [← hs, FatState.openedFiles_setFile_self, FatState.openedFiles_setFile_self,
                  FatState.file, entryState]
                simp [FatState.setFile]
              exact
                { hcontinues with
                  cluster := by rw [hfile]; rfl
                  sector := by rw [hfile]; rfl
                  isDirectory := by rw [hfile]; rfl
                  position := by rw [hfile]; rfl
                  size := by rw [hfile]; rfl
                  requests := by rw [hl]; exact dataRequests_cons hrequests
                  result := by
                    have hsame : (entryState entry j s₁).requests = s₁.requests := rfl
                    rw [hrequests, lastReadOk, if_pos rfl, ← hsame, hfails]
                    rfl
                  buffer := by rw [hfile, hl] }

end

/-! ### The walk through a file -/

/-- The lookups of the walk through the file with first cluster `c₀` are sound up to sector `K`,
and its first cluster is not taken for an end marker. -/
structure SoundUpTo (disk : Partition) (i : Fin MAX_FILE_HANDLES) (s : FatState) (c₀ K : ℕ) :
    Prop where
  first : ¬FAT_CHAIN_END ≤ BitVec.ofNat 32 c₀
  lookups : ∀ j b, (j + 1) * clusterSize s ≤ K → follow (diskNext disk s) c₀ j = some b →
    SoundLookup disk (walk disk (.slot i) s ((j + 1) * clusterSize s - 1)) b

/-- A file just opened, with what its walk rests on. -/
structure SoundFile (disk : Partition) (i : Fin MAX_FILE_HANDLES) (s : FatState) (c₀ K : ℕ) :
    Prop where
  stands : Stands i s (BitVec.ofNat 32 c₀) 0
  size_pos : 0 < clusterSize s
  traced : CacheTraced disk s
  lt : c₀ < 2 ^ 32
  sound : SoundUpTo disk i s c₀ K

/-- The clusters of the chain on disk, as words. -/
def chainCluster (disk : Partition) (s : FatState) (c₀ j : ℕ) : Word :=
  BitVec.ofNat 32 ((follow (diskNext disk s) c₀ j).getD 0)

section

variable {disk : Partition} {i : Fin MAX_FILE_HANDLES} {s : FatState} {c₀ b K N M m j : ℕ}

lemma chainCluster_of_some (h : follow (diskNext disk s) c₀ j = some b) :
    chainCluster disk s c₀ j = BitVec.ofNat 32 b := by
  rw [chainCluster, h, Option.getD_some]

lemma fileSector_of_cell (h : cell (diskNext disk s) (clusterSize s) c₀ m ≠ none) :
    fileSector disk s c₀ m = some (Follows.lba s (chainCluster disk s c₀) m) := by
  rw [Ne, cell_eq_none_iff_follow] at h
  obtain ⟨b, hb⟩ := Option.ne_none_iff_exists'.mp h
  rw [fileSector, cell_of_some hb, Option.map_some, Follows.lba, chainCluster_of_some hb]

lemma follow_of_cell (hpos : 0 < clusterSize s)
    (h : cell (diskNext disk s) (clusterSize s) c₀ (j * clusterSize s) ≠ none) :
    ∃ b, follow (diskNext disk s) c₀ j = some b := by
  rw [Ne, cell_eq_none_iff_follow, Nat.mul_div_cancel _ hpos] at h
  exact Option.ne_none_iff_exists'.mp h

/-- The lookup of a cluster of the chain. -/
lemma SoundFile.lookup (h : SoundFile disk i s c₀ K) (hj : (j + 1) * clusterSize s ≤ K)
    (hb : follow (diskNext disk s) c₀ j = some b) :
    let v := (fatNextCluster disk (chainCluster disk s c₀ j)
      (walk disk (.slot i) s ((j + 1) * clusterSize s - 1))).1
    (FAT_CHAIN_END ≤ v ↔ diskNext disk s b = none) ∧
      ∀ b', diskNext disk s b = some b' → v = BitVec.ofNat 32 b' := by
  have hlt := follow_lt h.lt hb
  have hsame := @diskNext_congr disk s _
    (frame_walk disk (.slot i) s ((j + 1) * clusterSize s - 1)).toContinues
  have hwalk : CacheTraced disk (walk disk (.slot i) s ((j + 1) * clusterSize s - 1)) := by
    generalize (j + 1) * clusterSize s - 1 = m
    induction m with
    | zero => exact h.traced
    | succ m ih => exact (cacheTraced_kept disk).nextSector _ ih
  have hlookup := h.sound.lookups j b hj hb
  rw [chainCluster_of_some hb]
  refine ⟨?_, fun b' hb' => ?_⟩
  · rw [end_of_sound hwalk hlt hlookup, hsame]
  · exact next_of_sound hwalk hlt hlookup (by rwa [hsame])

/-- **The walk follows the chain on disk** as far as its lookups are sound. -/
theorem SoundFile.follows (h : SoundFile disk i s c₀ K) (hN : N ≤ K + 1)
    (hlive : ∀ m < N, cell (diskNext disk s) (clusterSize s) c₀ m ≠ none) :
    Follows disk i s (chainCluster disk s c₀) N where
  first := by
    rw [chainCluster_of_some follow_zero]
    exact h.stands
  size_pos := h.size_pos
  next j hj := by
    have hle : j * clusterSize s ≤ (j + 1) * clusterSize s := Nat.mul_le_mul_right _ (Nat.le_succ j)
    obtain ⟨b, hb⟩ := follow_of_cell h.size_pos (hlive (j * clusterSize s) (hle.trans_lt hj))
    obtain ⟨b', hb'⟩ := follow_of_cell h.size_pos (hlive ((j + 1) * clusterSize s) hj)
    rw [chainCluster_of_some hb']
    rw [follow_succ_of_some hb] at hb'
    exact (h.lookup (by omega) hb).2 b' hb'
  live j hj := by
    obtain ⟨b, hb⟩ := follow_of_cell h.size_pos (hlive (j * clusterSize s) hj)
    rw [chainCluster_of_some hb]
    cases j with
    | zero =>
        obtain rfl := Option.some.inj hb
        exact h.sound.first
    | succ j =>
        have hle : j * clusterSize s ≤ (j + 1) * clusterSize s :=
          Nat.mul_le_mul_right _ (Nat.le_succ j)
        obtain ⟨a, ha⟩ := follow_of_cell h.size_pos (hlive (j * clusterSize s) (hle.trans_lt hj))
        rw [follow_succ_of_some ha] at hb
        obtain ⟨hend, hnext⟩ := h.lookup (by omega) ha
        rw [← hnext b hb, hend, hb]
        exact Option.some_ne_none b

/-- **The end of the chain on disk** ends the walk. -/
theorem SoundFile.ends (h : SoundFile disk i s c₀ K) (hM : M ≤ K)
    (hlive : ∀ m < M, cell (diskNext disk s) (clusterSize s) c₀ m ≠ none)
    (hnone : cell (diskNext disk s) (clusterSize s) c₀ M = none) :
    0 < M ∧ ChainEnds (.slot i) (walk disk (.slot i) s M) ∧
      dataRequests (walk disk (.slot i) s M) = dataRequests (walk disk (.slot i) s (M - 1)) := by
  obtain ⟨m, rfl⟩ : ∃ m, M = m + 1 := by
    refine Nat.exists_eq_succ_of_ne_zero fun hzero => ?_
    rw [hzero, cell_zero] at hnone
    exact Option.some_ne_none _ hnone
  obtain ⟨b, hb⟩ := Option.ne_none_iff_exists'.mp fun hf =>
    hlive m (Nat.lt_succ_self m) (cell_eq_none_iff_follow.mpr hf)
  -- the chain ends behind the last sector of a cluster
  obtain ⟨hlast, hnext⟩ := cell_last h.size_pos (cell_of_some hb) hnone
  have hsector := succ_div_mul_of_le h.size_pos hlast
  have hend := (h.lookup (by rw [hsector]; exact hM) hb).1.mpr hnext
  have hfollows := h.follows (by omega) hlive
  rw [← hsector] at hfollows ⊢
  exact ⟨by omega, hfollows.ends hend⟩

end

end MiqOSoft
