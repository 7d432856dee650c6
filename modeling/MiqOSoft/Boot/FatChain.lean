import MiqOSoft.Boot.FatRuns
import MiqOSoft.Boot.FatStream
import MiqOSoft.Linked.Chain

/-!
Moving through a file along its cluster chain.

* `lastReadOk`, `dataRequests`, `lastRead`: what the trace of requests says.
* `CacheTraced`: the cache holds the sectors of the FAT if the last read of it succeeded.  The
  whole driver keeps this.
* `Stands`: the cluster and the sector in it that a file stands in.
* `Advanced`, `Moved`: what a move to another sector leaves.
* `Follows`: a file whose lookups return the clusters of a chain.  Its walk stands in one sector
  of the chain after the other (`Follows.stands`) and requests them (`Follows.requests`).
-/

namespace MiqOSoft

open Machine Transition Linked

/-! ### The trace of requests -/

/-- The last request of `n` sectors in a trace did not fail. -/
def lastReadOk (disk : Partition) (n : ℕ) : List (Word × ℕ) → Bool
  | [] => true
  | (lba, m) :: h => if m = n then !disk.fails h lba m else lastReadOk disk n h

/-- The sectors that were requested one by one, in order. -/
def dataRequests (s : FatState) : List Word :=
  ((s.requests.filter fun r => r.2 = 1).map Prod.fst).reverse

section

variable {disk : Partition} {s t : FatState} {c : Word}

lemma dataRequests_congr (h : t.requests = s.requests) : dataRequests t = dataRequests s := by
  rw [dataRequests, dataRequests, h]

lemma dataRequests_cons {lba : Word} (h : t.requests = (lba, 1) :: s.requests) :
    dataRequests t = dataRequests s ++ [lba] := by
  rw [dataRequests, dataRequests, h, List.filter_cons_of_pos (by rfl), List.map_cons,
    List.reverse_cons]

/-- What a lookup requests. -/
lemma requests_nextCluster : (fatNextCluster disk c s).2.requests = s.requests ∨
    ∃ lba, (fatNextCluster disk c s).2.requests = (lba, FAT_CACHE_SIZE) :: s.requests := by
  have hrequests : (fatNextCluster disk c s).2.requests
      = (fatLoadCache disk (fatIndex s.fatType c / SECTOR_SIZE) s).requests := rfl
  set sector := fatIndex s.fatType c / SECTOR_SIZE with hsector
  rw [hrequests, fatLoadCache]
  split_ifs
  · refine .inr ⟨s.bootSector.reservedSectors.setWidth 32 + sector, ?_⟩
    cases hfails : disk.fails s.requests (s.bootSector.reservedSectors.setWidth 32 + sector)
        FAT_CACHE_SIZE with
    | true => rw [fatReadFat_of_fails hfails]
    | false => rw [fatReadFat_of_not_fails hfails]
  · exact .inl rfl

/-- Lookups request no sector of a file. -/
lemma dataRequests_nextCluster : dataRequests (fatNextCluster disk c s).2 = dataRequests s := by
  rcases @requests_nextCluster disk s c with h | ⟨lba, h⟩
  · exact dataRequests_congr h
  · rw [dataRequests, dataRequests, h, List.filter_cons_of_neg (by simp [FAT_CACHE_SIZE])]

/-- The last of the sectors up to sector `m` whose read did not fail. -/
def lastRead (disk : Partition) (file : FatHandle) (s : FatState) : ℕ → ℕ
  | 0 => 0
  | m + 1 => if lastReadOk disk 1 (walk disk file s (m + 1)).requests then m + 1
      else lastRead disk file s m

lemma lastRead_le {file : FatHandle} {m : ℕ} : lastRead disk file s m ≤ m := by
  induction m with
  | zero => exact le_rfl
  | succ m ih =>
      rw [lastRead]
      split_ifs
      · exact le_rfl
      · exact ih.trans (Nat.le_succ m)

end

/-! ### The cache and the trace -/

/-- The cache is valid, and holds its sectors if the last read of the FAT succeeded. -/
structure CacheTraced (disk : Partition) (s : FatState) : Prop where
  valid : CacheValid disk s
  holds : s.fatCachePosition ≠ 0xFFFFFFFF#32 →
    lastReadOk disk FAT_CACHE_SIZE s.requests = true → CacheHolds disk s

section

variable {disk : Partition} {s t : FatState}

lemma CacheTraced.congr (h : CacheTraced disk s) (hboot : t.bootSector = s.bootSector)
    (hcache : t.fatCache = s.fatCache) (hposition : t.fatCachePosition = s.fatCachePosition)
    (htrace : lastReadOk disk FAT_CACHE_SIZE t.requests
      = lastReadOk disk FAT_CACHE_SIZE s.requests) : CacheTraced disk t where
  valid := cacheValid_congr h.valid hboot hcache hposition
  holds := by
    rw [CacheHolds, hcache, hposition, htrace, fatByte_congr hboot]
    exact h.holds

/-- **A lookup** fills the cache by a read, or leaves it. -/
theorem cacheTraced_next (h : CacheTraced disk s) (c : Word) :
    CacheTraced disk (fatNextCluster disk c s).2 := by
  refine ⟨cacheValid_next h.valid c, fun _ hok => ?_⟩
  have hindex := (fatIndex s.fatType c).isLt
  have hsector : (fatIndex s.fatType c / SECTOR_SIZE).toNat < 2 ^ 23 := by
    rw [toNat_sectorOf]
    omega
  rw [CacheHolds]
  change lastReadOk disk FAT_CACHE_SIZE
    (fatLoadCache disk (fatIndex s.fatType c / SECTOR_SIZE) s).requests = true at hok
  change ∀ k < 2560, (fatLoadCache disk (fatIndex s.fatType c / SECTOR_SIZE) s).fatCache k
    = fatByte disk (fatLoadCache disk (fatIndex s.fatType c / SECTOR_SIZE) s)
        ((fatLoadCache disk (fatIndex s.fatType c / SECTOR_SIZE) s).fatCachePosition.toNat * 512
          + k)
  rw [fatByte_congr bootSector_fatLoadCache]
  by_cases hwindow : InWindow s.fatCachePosition (fatIndex s.fatType c / SECTOR_SIZE)
  · rw [fatLoadCache_of_inWindow h.valid hsector hwindow] at hok ⊢
    refine h.holds (fun hempty => ?_) hok
    have hlow := hwindow.1
    rw [hempty] at hlow
    change 4294967295 ≤ _ at hlow
    omega
  · rw [fatLoadCache_of_not_inWindow h.valid hsector hwindow] at hok ⊢
    cases hfails : disk.fails s.requests (s.bootSector.reservedSectors.setWidth 32
        + fatIndex s.fatType c / SECTOR_SIZE) FAT_CACHE_SIZE with
    | true =>
        rw [fatReadFat_of_fails hfails] at hok
        simp [lastReadOk, hfails] at hok
    | false =>
        intro k _
        rw [fatReadFat_of_not_fails hfails]
        exact bytesAt_add disk _ _ k

lemma cacheTraced_setFile (h : CacheTraced disk s) (file : FatHandle) (fd : FatFileData) :
    CacheTraced disk (s.setFile file fd) := by
  cases file <;> exact h.congr rfl rfl rfl rfl

/-- **The whole driver** keeps the cache as the trace says. -/
theorem cacheTraced_kept (disk : Partition) : Kept disk (CacheTraced disk) where
  setFile _ file fd h := cacheTraced_setFile h file fd
  readBuffer s file lba h := by
    have hrequests : CacheTraced disk { s with requests := (lba, 1) :: s.requests } :=
      h.congr rfl rfl rfl rfl
    obtain ⟨buffer, heq⟩ := fatReadBuffer_eq disk file lba s
    rw [heq]
    exact cacheTraced_setFile hrequests file _
  nextCluster _ c h := cacheTraced_next h c

lemma cacheTraced_initialized (h : Initialized disk s) : CacheTraced disk s :=
  ⟨.inl h.cache, fun hne => absurd h.cache hne⟩

end

/-! ### Standing in a sector -/

/-- The file in slot `i` stands in sector `k` of cluster `c`. -/
structure Stands (i : Fin MAX_FILE_HANDLES) (s : FatState) (c : Word) (k : ℕ) : Prop where
  cluster : (s.openedFiles i).currentCluster = c
  sector : (s.openedFiles i).currentSectorInCluster = BitVec.ofNat 32 k

/-- `SectorsPerCluster`, as a number. -/
def clusterSize (s : FatState) : ℕ := s.bootSector.sectorsPerCluster.toNat

/-- The address of sector `k` of cluster `c`. -/
def sectorLba (s : FatState) (c : Word) (k : ℕ) : Word :=
  fatClusterToLba s c + BitVec.ofNat 32 k

section

variable {disk : Partition} {i : Fin MAX_FILE_HANDLES} {s t : FatState} {c c' : Word} {k k' : ℕ}

lemma sectorLba_congr (h : Continues s t) (c : Word) (k : ℕ) :
    sectorLba t c k = sectorLba s c k := by
  rw [sectorLba, sectorLba, fatClusterToLba, fatClusterToLba, h.dataSectionLba, h.bootSector]

lemma clusterSize_congr (h : Continues s t) : clusterSize t = clusterSize s := by
  rw [clusterSize, clusterSize, h.bootSector]

/-- `FAT_Initialize` has divided by it. -/
lemma clusterSize_pos (h : Initialized disk s) : 0 < clusterSize s :=
  Nat.pos_of_ne_zero fun hzero => h.sectorsPerCluster (BitVec.eq_of_toNat_eq hzero)

/-- The comparison in `FAT_Read` finds the last sector of a cluster. -/
lemma lastSector_iff (h : Stands i s c k) (hk : k < clusterSize s) :
    s.bootSector.sectorsPerCluster.setWidth 32
        ≤ (s.openedFiles i).currentSectorInCluster + 1#32 ↔ clusterSize s ≤ k + 1 := by
  have hsize := s.bootSector.sectorsPerCluster.isLt
  rw [clusterSize] at hk ⊢
  have hsector : ((s.openedFiles i).currentSectorInCluster + 1#32).toNat = k + 1 := by
    rw [h.sector, BitVec.toNat_add, BitVec.toNat_ofNat]
    change (k % 2 ^ 32 + 1) % 2 ^ 32 = k + 1
    omega
  rw [BitVec.le_def, hsector, BitVec.toNat_setWidth_of_le (by omega)]

/-- What moving on to a sector leaves, before it is read. -/
structure Advanced (i : Fin MAX_FILE_HANDLES) (s t : FatState) (c : Word) (k : ℕ) : Prop
    extends FrameOf (.slot i) s t, Stands i t c k where
  requests : dataRequests t = dataRequests s
  buffer : (t.openedFiles i).buffer = (s.openedFiles i).buffer

/-- Inside a cluster. -/
lemma advanced_within (h : Stands i s c k) (hk : k + 1 < clusterSize s) :
    Advanced i s (fatAdvance disk i s) c (k + 1) := by
  have hlast : ¬(s.bootSector.sectorsPerCluster.setWidth 32
      ≤ (s.openedFiles i).currentSectorInCluster + 1#32) := by
    rw [lastSector_iff h (by omega)]
    omega
  have hadvance : fatAdvance disk i s = s.setFile (.slot i) { s.openedFiles i with
      currentSectorInCluster := (s.openedFiles i).currentSectorInCluster + 1#32 } := if_neg hlast
  refine ⟨frame_advance disk s i, ⟨?_, ?_⟩, ?_, ?_⟩
  · rw [hadvance, FatState.openedFiles_setFile_self]
    exact h.cluster
  · rw [hadvance, FatState.openedFiles_setFile_self, BitVec.ofNat_add, ← h.sector]
  · rw [hadvance]
    rfl
  · rw [hadvance, FatState.openedFiles_setFile_self]

/-- At the end of a cluster. -/
lemma advanced_across (h : Stands i s c k) (hk : k + 1 = clusterSize s) :
    Advanced i s (fatAdvance disk i s) (fatNextCluster disk c s).1 0 := by
  have hlast : s.bootSector.sectorsPerCluster.setWidth 32
      ≤ (s.openedFiles i).currentSectorInCluster + 1#32 := by
    rw [lastSector_iff h (by omega)]
    omega
  have hadvance : fatAdvance disk i s = (fatNextCluster disk c s).2.setFile (.slot i)
      { s.openedFiles i with
        currentCluster := (fatNextCluster disk c s).1
        currentSectorInCluster := 0#32 } := by
    rw [fatAdvance, if_pos hlast, h.cluster]
  refine ⟨frame_advance disk s i, ⟨?_, ?_⟩, ?_, ?_⟩
  · rw [hadvance, FatState.openedFiles_setFile_self]
  · rw [hadvance, FatState.openedFiles_setFile_self]
  · rw [hadvance]
    exact (dataRequests_congr (FatState.requests_setFile _ _ _)).trans dataRequests_nextCluster
  · rw [hadvance, FatState.openedFiles_setFile_self]

/-- What a move leaves that requests a sector. -/
structure Moved (disk : Partition) (i : Fin MAX_FILE_HANDLES) (s : FatState) (r : Bool × FatState)
    (c : Word) (k : ℕ) : Prop extends Stands i r.2 c k where
  requests : dataRequests r.2 = dataRequests s ++ [sectorLba s c k]
  result : r.1 = lastReadOk disk 1 r.2.requests
  buffer : (r.2.openedFiles i).buffer
    = if r.1 = true then disk.bytesAt (sectorLba s c k) else (s.openedFiles i).buffer

/-- The sector that the file has moved on to is requested. -/
lemma moved_of_advanced (h : Advanced i s (fatAdvance disk i s) c k)
    (hgo : ¬FAT_CHAIN_END ≤ c) : Moved disk i s (fatNextSector disk (.slot i) s) c k := by
  have hlba : fatClusterToLba (fatAdvance disk i s)
        ((fatAdvance disk i s).openedFiles i).currentCluster
      + ((fatAdvance disk i s).openedFiles i).currentSectorInCluster = sectorLba s c k := by
    rw [← sectorLba_congr h.toContinues, sectorLba, h.cluster, h.sector]
  have hend : ¬FAT_CHAIN_END ≤ ((fatAdvance disk i s).openedFiles i).currentCluster := by
    rwa [h.cluster]
  rw [fatNextSector_slot hend, hlba]
  obtain ⟨buffer, heq⟩ := fatReadBuffer_eq disk (.slot i) (sectorLba s c k) (fatAdvance disk i s)
  have hrequests : (fatReadBuffer disk (.slot i) (sectorLba s c k) (fatAdvance disk i s)).2.requests
      = (sectorLba s c k, 1) :: (fatAdvance disk i s).requests := by
    rw [heq]
    rfl
  refine ⟨⟨?_, ?_⟩, ?_, ?_, ?_⟩
  · rw [heq, FatState.openedFiles_setFile_self]
    exact h.cluster
  · rw [heq, FatState.openedFiles_setFile_self]
    exact h.sector
  · rw [dataRequests_cons hrequests, h.requests]
  · rw [hrequests, lastReadOk, if_pos rfl]
    cases hfails : disk.fails (fatAdvance disk i s).requests (sectorLba s c k) 1 with
    | true =>
        rw [fatReadBuffer_of_fails hfails]
        rfl
    | false =>
        rw [fatReadBuffer_of_not_fails hfails]
        rfl
  · cases hfails : disk.fails (fatAdvance disk i s).requests (sectorLba s c k) 1 with
    | true =>
        rw [fatReadBuffer_of_fails hfails, if_neg Bool.false_ne_true]
        exact h.buffer
    | false =>
        rw [fatReadBuffer_of_not_fails hfails, FatState.openedFiles_setFile_self, if_pos rfl]

end

/-! ### Walking along a chain -/

/-- A file that has just been opened follows the clusters `c` for `N` sectors: each of them is
what the lookup of the one before returns, and none is an end marker. -/
structure Follows (disk : Partition) (i : Fin MAX_FILE_HANDLES) (s : FatState) (c : ℕ → Word)
    (N : ℕ) : Prop where
  first : Stands i s (c 0) 0
  size_pos : 0 < clusterSize s
  next : ∀ j, (j + 1) * clusterSize s < N →
    (fatNextCluster disk (c j) (walk disk (.slot i) s ((j + 1) * clusterSize s - 1))).1 = c (j + 1)
  live : ∀ j, j * clusterSize s < N → ¬FAT_CHAIN_END ≤ c j

namespace Follows

variable {disk : Partition} {i : Fin MAX_FILE_HANDLES} {s : FatState} {c : ℕ → Word} {N m : ℕ}

/-- One move, from a sector that the file stands in. -/
lemma moved_of_stands (h : Follows disk i s c N) (hm : m + 1 < N)
    (hstands : Stands i (walk disk (.slot i) s m) (c (m / clusterSize s)) (m % clusterSize s)) :
    Moved disk i (walk disk (.slot i) s m) (fatNextSector disk (.slot i) (walk disk (.slot i) s m))
      (c ((m + 1) / clusterSize s)) ((m + 1) % clusterSize s) := by
  have hsize := clusterSize_congr (frame_walk disk (.slot i) s m).toContinues
  have hlive : ¬FAT_CHAIN_END ≤ c ((m + 1) / clusterSize s) :=
    h.live _ ((Nat.div_mul_le_self _ _).trans_lt hm)
  by_cases hlast : m % clusterSize s + 1 < clusterSize s
  · obtain ⟨hdiv, hmod⟩ := div_succ_of_lt hlast
    rw [hdiv] at hlive ⊢
    rw [hmod]
    exact moved_of_advanced (advanced_within hstands (by rwa [hsize])) hlive
  · obtain ⟨hdiv, hmod⟩ := div_succ_of_le h.size_pos (not_lt.mp hlast)
    have hmodlt := Nat.mod_lt m h.size_pos
    have hsector := succ_div_mul_of_le h.size_pos (not_lt.mp hlast)
    have hnext := h.next (m / clusterSize s) (by rwa [hsector])
    rw [hsector, Nat.add_sub_cancel] at hnext
    rw [hdiv] at hlive ⊢
    rw [hmod, ← hnext]
    refine moved_of_advanced (advanced_across hstands (by rw [hsize]; omega)) ?_
    rwa [hnext]

/-- **The walk** stands in one sector of the chain after the other. -/
theorem stands (h : Follows disk i s c N) (hm : m < N) :
    Stands i (walk disk (.slot i) s m) (c (m / clusterSize s)) (m % clusterSize s) := by
  induction m with
  | zero =>
      rw [Nat.zero_div, Nat.zero_mod]
      exact h.first
  | succ m ih => exact (h.moved_of_stands hm (ih (by omega))).toStands

lemma moved (h : Follows disk i s c N) (hm : m + 1 < N) :
    Moved disk i (walk disk (.slot i) s m) (fatNextSector disk (.slot i) (walk disk (.slot i) s m))
      (c ((m + 1) / clusterSize s)) ((m + 1) % clusterSize s) :=
  h.moved_of_stands hm (h.stands (by omega))

/-- The address of sector `m` of the chain. -/
def lba (s : FatState) (c : ℕ → Word) (m : ℕ) : Word :=
  sectorLba s (c (m / clusterSize s)) (m % clusterSize s)

/-- **The requests of the walk** are the sectors of the chain, in order. -/
theorem requests (h : Follows disk i s c N) (hm : m < N) :
    dataRequests (walk disk (.slot i) s m)
      = dataRequests s ++ (List.range m).map fun j => lba s c (j + 1) := by
  induction m with
  | zero => simp [walk]
  | succ m ih =>
      have hlba := sectorLba_congr (frame_walk disk (.slot i) s m).toContinues
      rw [walk, (h.moved hm).requests, ih (by omega), hlba, List.range_succ, List.map_append,
        List.append_assoc]
      rfl

/-- A move along the chain does not run into its end. -/
lemma not_chainEnds (h : Follows disk i s c N) (hm : m < N) :
    ¬ChainEnds (.slot i) (walk disk (.slot i) s m) := by
  rw [ChainEnds, (h.stands hm).cluster]
  exact h.live _ ((Nat.div_mul_le_self _ _).trans_lt hm)

/-- **The buffer** holds the last sector that was read without a failure. -/
theorem buffer (h : Follows disk i s c N)
    (hfirst : (s.openedFiles i).buffer = disk.bytesAt (lba s c 0)) (hm : m < N) :
    ((walk disk (.slot i) s m).openedFiles i).buffer
      = disk.bytesAt (lba s c (lastRead disk (.slot i) s m)) := by
  induction m with
  | zero => exact hfirst
  | succ m ih =>
      have hmoved := h.moved hm
      have hresult : (fatNextSector disk (.slot i) (walk disk (.slot i) s m)).1
        = lastReadOk disk 1 (walk disk (.slot i) s (m + 1)).requests := hmoved.result
      rw [walk, hmoved.buffer, hresult, lastRead]
      split_ifs
      · rw [sectorLba_congr (frame_walk disk (.slot i) s m).toContinues]
        rfl
      · exact ih (by omega)

/-- The lookup of the last cluster returns an end marker, and the file moves on: the chain
ends, and nothing is requested. -/
lemma ends {j : ℕ} (h : Follows disk i s c ((j + 1) * clusterSize s))
    (hend : FAT_CHAIN_END ≤ (fatNextCluster disk (c j)
      (walk disk (.slot i) s ((j + 1) * clusterSize s - 1))).1) :
    ChainEnds (.slot i) (walk disk (.slot i) s ((j + 1) * clusterSize s)) ∧
      dataRequests (walk disk (.slot i) s ((j + 1) * clusterSize s))
        = dataRequests (walk disk (.slot i) s ((j + 1) * clusterSize s - 1)) := by
  have hpos := h.size_pos
  have hsucc : (j + 1) * clusterSize s = j * clusterSize s + (clusterSize s - 1) + 1 := by
    rw [Nat.add_mul, Nat.one_mul]
    omega
  have hstands := h.stands (m := (j + 1) * clusterSize s - 1) (by omega)
  have hdiv : ((j + 1) * clusterSize s - 1) / clusterSize s = j := by
    rw [hsucc, Nat.add_sub_cancel, Nat.mul_comm, Nat.mul_add_div hpos,
      Nat.div_eq_of_lt (by omega), Nat.add_zero]
  have hmod : ((j + 1) * clusterSize s - 1) % clusterSize s = clusterSize s - 1 := by
    rw [hsucc, Nat.add_sub_cancel, Nat.mul_comm, Nat.mul_add_mod, Nat.mod_eq_of_lt (by omega)]
  rw [hdiv, hmod] at hstands
  generalize hm : (j + 1) * clusterSize s - 1 = m at *
  have hm' : (j + 1) * clusterSize s = m + 1 := by omega
  have hsize := clusterSize_congr (frame_walk disk (.slot i) s m).toContinues
  have hadvanced := @advanced_across disk _ _ _ _ hstands (by rw [hsize]; omega)
  rw [hm', walk, chainEnds_next_iff, hadvanced.cluster]
  refine ⟨hend, ?_⟩
  rw [fatNextSector_end (by rwa [hadvanced.cluster])]
  exact hadvanced.requests

end Follows

end MiqOSoft
