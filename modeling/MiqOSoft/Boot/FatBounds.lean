import MiqOSoft.Boot.FatLayout
import MiqOSoft.Boot.FatDiskChain

/-!
Whether the driver stays inside its partition.

* `PartitionExtent`, `Inside`: the place of a partition on its disk, and the ranges of sectors that
  `Partition_ReadSectors` asks `DISK_ReadSectors` for inside of it.  Nothing compares a range with
  `partitionSize`.
* `LookupInside`, `SectorInside`, `MoveInside`: what the cluster numbers that the driver meets have
  to satisfy.
* `readMoves`: the states in which `FAT_Read` moves on to another sector.
* `DriverCall`, `CallInside`, `callInside_iff`: the same for a call, and its ranges.
* `run_inside_iff`: all ranges of a run lie inside the partition if and only if every call meets its
  condition.
-/

namespace MiqOSoft

open Machine Transition

/-! ### Ranges of sectors -/

/-- The fields of `Partition` in `mbr.h`. -/
structure PartitionExtent where
  partitionOffset : Word
  partitionSize : Word

/-- What `Partition_ReadSectors` asks `DISK_ReadSectors` for lies in
`[partitionOffset, partitionOffset + partitionSize)`. -/
def Inside (e : PartitionExtent) (r : Word × ℕ) : Prop :=
  e.partitionOffset.toNat ≤ (r.1 + e.partitionOffset).toNat ∧
    (r.1 + e.partitionOffset).toNat + r.2 ≤ e.partitionOffset.toNat + e.partitionSize.toNat

instance (e : PartitionExtent) (r : Word × ℕ) : Decidable (Inside e r) :=
  inferInstanceAs (Decidable (_ ∧ _))

/-- All of some requests lie inside. -/
def AllInside (e : PartitionExtent) (requests : List (Word × ℕ)) : Prop :=
  ∀ r ∈ requests, Inside e r

lemma allInside_cons {e : PartitionExtent} {r : Word × ℕ} {requests : List (Word × ℕ)} :
    AllInside e (r :: requests) ↔ Inside e r ∧ AllInside e requests :=
  List.forall_mem_cons

/-- On a partition that lies on its disk a range is inside if its addresses, counted from the start
of the partition, are. -/
theorem inside_iff {e : PartitionExtent}
    (hdisk : e.partitionOffset.toNat + e.partitionSize.toNat ≤ 2 ^ 32) (lba : Word) {n : ℕ}
    (hn : 0 < n) : Inside e (lba, n) ↔ lba.toNat + n ≤ e.partitionSize.toNat := by
  have hlba := lba.isLt
  rw [Inside, BitVec.toNat_add]
  dsimp only
  omega

/-! ### What the driver meets -/

/-- The sectors of the FAT that a lookup of cluster `c` reads, if the cache does not hold its
entry. -/
def LookupInside (e : PartitionExtent) (s : FatState) (c : Word) : Prop :=
  (fatIndex s.fatType c / SECTOR_SIZE < s.fatCachePosition ∨
      s.fatCachePosition + BitVec.ofNat 32 FAT_CACHE_SIZE ≤ fatIndex s.fatType c / SECTOR_SIZE) →
    Inside e (s.bootSector.reservedSectors.setWidth 32 + fatIndex s.fatType c / SECTOR_SIZE,
      FAT_CACHE_SIZE)

/-- Sector `k` of cluster `c`, unless `c` ends a chain. -/
def SectorInside (e : PartitionExtent) (s : FatState) (c k : Word) : Prop :=
  c < FAT_CHAIN_END → Inside e (fatClusterToLba s c + k, 1)

/-- The sector that a file moves on to, and the lookup in front of it. -/
def MoveInside (e : PartitionExtent) (disk : Partition) (s : FatState) : FatHandle → Prop
  | .root => Inside e (s.rootDirectory.currentCluster + 1#32, 1)
  | .slot i =>
      let fd := s.openedFiles i
      if s.bootSector.sectorsPerCluster.setWidth 32 ≤ fd.currentSectorInCluster + 1#32 then
        LookupInside e s fd.currentCluster ∧
          SectorInside e s (fatNextCluster disk fd.currentCluster s).1 0#32
      else SectorInside e s fd.currentCluster (fd.currentSectorInCluster + 1#32)

/-- The states in which the loop of `FAT_Read` moves on to another sector. -/
def readMoves (disk : Partition) (file : FatHandle) : ℕ → Word → FatState → List FatState
  | 0, _, _ => []
  | fuel + 1, byteCount, s =>
      if byteCount = 0#32 then []
      else
        let fd := s.file file
        let take := wordMin byteCount fd.leftInBuffer
        let s := s.setFile file (fd.moved take)
        if fd.leftInBuffer = take then
          match fatNextSector disk file s with
          | (false, _) => [s]
          | (true, t) => s :: readMoves disk file fuel (byteCount - take) t
        else readMoves disk file fuel (byteCount - take) s

/-! ### What is requested -/

section requests

variable {e : PartitionExtent} {disk : Partition} {s : FatState}

lemma requests_readBuffer (file : FatHandle) (lba : Word) :
    (fatReadBuffer disk file lba s).2.requests = (lba, 1) :: s.requests := by
  obtain ⟨buffer, heq⟩ := fatReadBuffer_eq disk file lba s
  rw [heq, FatState.requests_setFile]

lemma requests_readFat (sector : Word) :
    (fatReadFat disk sector s).2.requests =
      (s.bootSector.reservedSectors.setWidth 32 + sector, FAT_CACHE_SIZE) :: s.requests := by
  cases hfails : disk.fails s.requests (s.bootSector.reservedSectors.setWidth 32 + sector)
      FAT_CACHE_SIZE with
  | true => rw [fatReadFat_of_fails hfails]
  | false => rw [fatReadFat_of_not_fails hfails]

/-- **A lookup.** -/
lemma allInside_nextCluster (c : Word) :
    AllInside e (fatNextCluster disk c s).2.requests ↔
      AllInside e s.requests ∧ LookupInside e s c := by
  have hrequests : (fatNextCluster disk c s).2.requests
      = (fatLoadCache disk (fatIndex s.fatType c / SECTOR_SIZE) s).requests := rfl
  rw [hrequests, fatLoadCache, LookupInside]
  by_cases hmiss : fatIndex s.fatType c / SECTOR_SIZE < s.fatCachePosition ∨
      s.fatCachePosition + BitVec.ofNat 32 FAT_CACHE_SIZE ≤ fatIndex s.fatType c / SECTOR_SIZE
  · rw [if_pos hmiss]
    change AllInside e (fatReadFat disk _ s).2.requests ↔ _
    rw [requests_readFat, allInside_cons, and_comm, forall_prop_of_true hmiss]
  · rw [if_neg hmiss]
    exact (and_iff_left fun h => absurd h hmiss).symm

lemma sectorInside_congr {t : FatState} (h : Continues s t) (c k : Word) :
    SectorInside e t c k ↔ SectorInside e s c k := by
  rw [SectorInside, SectorInside, fatClusterToLba, fatClusterToLba, h.bootSector, h.dataSectionLba]

/-- A move of a slot requests a sector once the file has been advanced. -/
lemma allInside_nextSector_slot (i : Fin MAX_FILE_HANDLES) :
    AllInside e (fatNextSector disk (.slot i) s).2.requests ↔
      AllInside e (fatAdvance disk i s).requests ∧
        SectorInside e s ((fatAdvance disk i s).openedFiles i).currentCluster
          ((fatAdvance disk i s).openedFiles i).currentSectorInCluster := by
  rw [← sectorInside_congr (frame_advance disk s i).toContinues, SectorInside]
  by_cases hend : FAT_CHAIN_END ≤ ((fatAdvance disk i s).openedFiles i).currentCluster
  · rw [fatNextSector_end hend, FatState.requests_setFile]
    exact (and_iff_left fun hlt => absurd hend (BitVec.not_le.mpr hlt)).symm
  · rw [fatNextSector_slot hend, requests_readBuffer, allInside_cons, and_comm,
      forall_prop_of_true (BitVec.not_le.mp hend)]

/-- **A move.** -/
lemma allInside_nextSector (file : FatHandle) :
    AllInside e (fatNextSector disk file s).2.requests ↔
      AllInside e s.requests ∧ MoveInside e disk s file := by
  cases file with
  | root =>
      rw [fatNextSector, requests_readBuffer, FatState.requests_setFile, allInside_cons, and_comm]
      rfl
  | slot i =>
      rw [allInside_nextSector_slot, MoveInside, fatAdvance]
      dsimp only
      by_cases hlast : s.bootSector.sectorsPerCluster.setWidth 32
          ≤ (s.openedFiles i).currentSectorInCluster + 1#32
      · rw [if_pos hlast, if_pos hlast, FatState.requests_setFile, allInside_nextCluster, and_assoc]
        simp [FatState.setFile]
      · rw [if_neg hlast, if_neg hlast, FatState.requests_setFile]
        simp [FatState.setFile]

/-- **The loop of `FAT_Read`.** -/
lemma allInside_readLoop (file : FatHandle) (fuel : ℕ) (byteCount : Word) :
    AllInside e (fatReadLoop disk file fuel byteCount s).2.requests ↔
      AllInside e s.requests ∧
        ∀ t ∈ readMoves disk file fuel byteCount s, MoveInside e disk t file := by
  induction fuel generalizing byteCount s with
  | zero => exact (and_iff_left fun t ht => absurd ht List.not_mem_nil).symm
  | succ fuel ih =>
      rw [fatReadLoop, readMoves]
      by_cases hzero : byteCount = 0#32
      · rw [if_pos hzero, if_pos hzero]
        exact (and_iff_left fun t ht => absurd ht List.not_mem_nil).symm
      rw [if_neg hzero, if_neg hzero]
      dsimp only
      set take := wordMin byteCount (s.file file).leftInBuffer with htake
      set u := s.setFile file ((s.file file).moved take) with hu
      have hmoved : AllInside e u.requests ↔ AllInside e s.requests := by
        rw [hu, FatState.requests_setFile]
      by_cases hused : (s.file file).leftInBuffer = take
      · rw [if_pos hused, if_pos hused]
        have hnext := @allInside_nextSector e disk u file
        cases heq : fatNextSector disk file u with
        | mk ok t =>
        rw [heq, hmoved] at hnext
        cases ok with
        | false => simpa using hnext
        | true =>
            dsimp only
            rw [ih, hnext, List.forall_mem_cons, and_assoc]
      · rw [if_neg hused, if_neg hused, ih, hmoved]

end requests

/-! ### Calls -/

/-- The calls of the driver that read, and `FAT_Close`. -/
inductive DriverCall
  | openEntry (entry : FatDirectoryEntry)
  | nextCluster (currentCluster : Word)
  | read (file : FatHandle) (byteCount : Word)
  | close (file : FatHandle)

/-- The state after a call. -/
def driverStep (disk : Partition) (s : FatState) : DriverCall → Option FatState
  | .openEntry entry => some (fatOpenEntry disk entry s).2
  | .nextCluster currentCluster => some (fatNextCluster disk currentCluster s).2
  | .read file byteCount => some (fatRead disk file byteCount s).2
  | .close file => some (fatClose file s)

/-- What the cluster numbers that a call meets have to satisfy. -/
def CallInside (e : PartitionExtent) (disk : Partition) (s : FatState) : DriverCall → Prop
  | .openEntry entry =>
      freeHandle s ≠ none → Inside e (fatClusterToLba s entry.firstCluster, 1)
  | .nextCluster currentCluster => LookupInside e s currentCluster
  | .read file byteCount =>
      ∀ t ∈ readMoves disk file ((s.file file).clamp byteCount).toNat
        ((s.file file).clamp byteCount) s, MoveInside e disk t file
  | .close _ => True

/-- What the boot sector has to satisfy: its own sector, and the first one of the root directory if
`FAT_Initialize` comes to read it. -/
def InitializeInside (e : PartitionExtent) (disk : Partition) : Prop :=
  Inside e (0#32, 1) ∧
    (disk.fails [] 0#32 1 = false →
      ¬(disk.bootSector.sectorsPerFat ≠ 0#16 ∧ disk.bootSector.bytesPerSector = 0#16) →
        Inside e (disk.bootSector.rootDirLba, 1))

section calls

variable {e : PartitionExtent} {disk : Partition} {g s t : FatState}

lemma allInside_openEntry (entry : FatDirectoryEntry) :
    AllInside e (fatOpenEntry disk entry s).2.requests ↔ AllInside e s.requests ∧
      (freeHandle s ≠ none → Inside e (fatClusterToLba s entry.firstCluster, 1)) := by
  cases hfree : freeHandle s with
  | none =>
      rw [fatOpenEntry_full hfree]
      exact (and_iff_left fun h => absurd rfl h).symm
  | some i =>
      have hread : (entryRead disk entry i s).2.requests =
          (fatClusterToLba s entry.firstCluster, 1) :: s.requests := by
        rw [entryRead, requests_readBuffer]
        rfl
      have hrequests : (fatOpenEntry disk entry s).2.requests =
          (fatClusterToLba s entry.firstCluster, 1) :: s.requests := by
        cases heq : entryRead disk entry i s with
        | mk ok t =>
        rw [heq] at hread
        cases ok with
        | false => rw [fatOpenEntry_fails hfree heq, hread]
        | true => rw [fatOpenEntry_opens hfree heq, FatState.requests_setFile, hread]
      rw [hrequests, allInside_cons, and_comm, forall_prop_of_true (Option.some_ne_none i)]

/-- **A call** stays inside the partition exactly under its condition. -/
theorem callInside_iff {c : DriverCall} (h : driverStep disk s c = some t) :
    AllInside e t.requests ↔ AllInside e s.requests ∧ CallInside e disk s c := by
  cases c with
  | openEntry entry =>
      obtain rfl := Option.some.inj h
      exact allInside_openEntry entry
  | nextCluster currentCluster =>
      obtain rfl := Option.some.inj h
      exact allInside_nextCluster currentCluster
  | read file byteCount =>
      obtain rfl := Option.some.inj h
      exact allInside_readLoop file _ _
  | close file =>
      obtain rfl := Option.some.inj h
      have hrequests : (fatClose file s).requests = s.requests := by
        cases file <;> rfl
      rw [hrequests]
      exact (and_iff_left trivial).symm

/-- **`FAT_Initialize`.** -/
theorem initializeInside_iff (hfresh : g.requests = []) :
    AllInside e (fatInitialize disk g).2.requests ↔ InitializeInside e disk := by
  have hnil : AllInside e [] := fun r hr => absurd hr List.not_mem_nil
  rw [InitializeInside, ← hfresh]
  cases hboot : disk.fails g.requests 0#32 1 with
  | true =>
      rw [fatInitialize, fatReadBootSector_of_fails hboot]
      dsimp only
      rw [allInside_cons, hfresh]
      exact ⟨fun h => ⟨h.1, fun hf => absurd hf.symm Bool.false_ne_true⟩, fun h => ⟨h.1, hnil⟩⟩
  | false =>
      rw [fatInitialize, fatReadBootSector_of_not_fails hboot, ← bootSector_bootedState disk g]
      dsimp only
      have hbooted : AllInside e (bootedState disk g).requests ↔ Inside e (0#32, 1) := by
        change AllInside e ((0#32, 1) :: g.requests) ↔ _
        rw [allInside_cons, hfresh]
        exact and_iff_left hnil
      by_cases hbytes : (bootedState disk g).bootSector.sectorsPerFat ≠ 0#16 ∧
          (bootedState disk g).bootSector.bytesPerSector = 0#16
      · rw [if_pos hbytes, hbooted]
        exact (and_iff_left fun _ h => absurd hbytes h).symm
      · have hroot : ∀ r, fatReadBuffer disk .root
            (fatLayout (bootedState disk g)).rootDirectory.firstCluster
            (fatLayout (bootedState disk g)) = r →
          (AllInside e r.2.requests ↔ Inside e (0#32, 1) ∧
            Inside e ((bootedState disk g).bootSector.rootDirLba, 1)) := by
          rintro r rfl
          rw [requests_readBuffer, allInside_cons, firstCluster_fatLayout, and_comm, ← hbooted]
          rfl
        rw [if_neg hbytes, forall_prop_of_true rfl, forall_prop_of_true hbytes]
        cases heq : fatReadBuffer disk .root
            (fatLayout (bootedState disk g)).rootDirectory.firstCluster
            (fatLayout (bootedState disk g)) with
        | mk ok t =>
        rw [← hroot _ heq]
        cases ok with
        | false => rfl
        | true =>
            dsimp only
            split_ifs <;> rfl

/-- **Staying inside the partition**: in every state of a run from `FAT_Initialize` on, all ranges
that were read lie inside the partition, if and only if the boot sector and every call meet their
conditions. -/
theorem run_inside_iff (hfresh : g.requests = []) {calls : List DriverCall}
    (hrun : Run (driverStep disk) (fun _ _ => True) (fatInitialize disk g).2 calls t) :
    (∀ pre post u, calls = pre ++ post →
        Run (driverStep disk) (fun _ _ => True) (fatInitialize disk g).2 pre u →
          AllInside e u.requests) ↔
      InitializeInside e disk ∧ ∀ pre c post u, calls = pre ++ c :: post →
        Run (driverStep disk) (fun _ _ => True) (fatInitialize disk g).2 pre u →
          CallInside e disk u c := by
  rw [← initializeInside_iff hfresh]
  have hruns := fun hstart => Run.forall_prefix_iff
    (P := fun u : FatState => AllInside e u.requests) (Q := fun u => AllInside e u.requests)
    (fun _ hu => hu)
    (fun u c u' hu _ hc hstep => (callInside_iff hstep).mpr ⟨hu, hc⟩)
    (fun u c u' _ _ hc hstep hu' => hc ((callInside_iff hstep).mp hu').2) hstart hrun
  constructor
  · intro hall
    have hstart := hall [] calls _ rfl (Run.nil _)
    exact ⟨hstart, (hruns hstart).mpr hall⟩
  · rintro ⟨hstart, hcond⟩
    exact (hruns hstart).mp hcond

end calls

/-- A FAT12 volume of 64 sectors, in front of other partitions.  The one file in its root directory
has the first cluster `cluster`. -/
def boundedDisk (cluster : Byte) : Partition :=
  { Partition.image 64 [
      (0, 11, [0x00#8, 0x02#8, 0x01#8, 0x01#8, 0x00#8, 0x01#8, 0x20#8, 0x00#8, 0x40#8, 0x00#8,
        0xF0#8, 0x01#8, 0x00#8]),
      (1, 0, [0xF0#8, 0xFF#8, 0xFF#8, 0xFF#8, 0x0F#8]),
      (2, 0, ascii "KERNEL  ELF"),
      (2, 26, [cluster, 0x00#8, 0x01#8, 0x02#8])] with
    fails := fun _ _ _ => false }

/-- Where the volume lies on its disk. -/
def boundedExtent : PartitionExtent := ⟨2048#32, 64#32⟩

/-- The entry of the file. -/
def boundedEntry (cluster : Byte) : FatDirectoryEntry :=
  ⟨ascii "KERNEL  ELF", 0#8, 0#16, cluster.setWidth 16, 513#32⟩

/-- **Outside the partition**: an entry with a first cluster behind the end of the volume is read
from the next partition. -/
theorem not_allInside_boundedDisk :
    ∃ s, fatInitialize (boundedDisk 0xF0#8) blankState = (some true, s) ∧
      (fatReadEntry (boundedDisk 0xF0#8) .root s).1 = some (boundedEntry 0xF0#8) ∧
      ¬∀ calls t, Run (driverStep (boundedDisk 0xF0#8)) (fun _ _ => True) s calls t →
        AllInside boundedExtent t.requests := by
  refine ⟨_, Prod.ext (by decide +kernel) rfl, by decide +kernel, fun hall => ?_⟩
  have hrun := hall [.openEntry (boundedEntry 0xF0#8)] _
    (Run.cons trivial rfl (Run.nil _)) (242#32, 1) (by decide +kernel)
  exact absurd hrun (by decide +kernel)

/-- A file whose first cluster is the first one of the volume is opened inside the partition. -/
theorem allInside_boundedDisk :
    ∃ u, Run (driverStep (boundedDisk 0x02#8)) (fun _ _ => True)
        (fatInitialize (boundedDisk 0x02#8) blankState).2 [.openEntry (boundedEntry 0x02#8)] u ∧
      AllInside boundedExtent u.requests := by
  have hrun : Run (driverStep (boundedDisk 0x02#8)) (fun _ _ => True)
      (fatInitialize (boundedDisk 0x02#8) blankState).2 [.openEntry (boundedEntry 0x02#8)] _ :=
    Run.cons trivial rfl (Run.nil _)
  refine ⟨_, hrun, (run_inside_iff rfl hrun).mpr ⟨by rw [InitializeInside]; decide +kernel, ?_⟩
    _ [] _ (List.append_nil _).symm hrun⟩
  intro pre c post v hcalls hpre
  cases pre with
  | nil =>
      obtain ⟨rfl, -⟩ := List.cons.inj hcalls
      cases hpre
      rw [CallInside]
      decide +kernel
  | cons d pre =>
      have hlength := congrArg List.length hcalls
      simp at hlength

end MiqOSoft
