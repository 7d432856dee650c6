import MiqOSoft.Boot.Fat

/-!
What the functions of the FAT driver do.

* `Partition.image`: a partition given by its size and the pieces of it that are not zero.
* `Initialized`: what `FAT_Initialize` establishes (`fatInitialize_ready`).
* `fatOpenLoop_found`, `fatOpenLoop_absent`, …: one turn of the loop of `FAT_Open`.
-/

namespace MiqOSoft

open Machine

/-! ### Images -/

/-- The partition of `size` sectors that is zero but for the given pieces: sector, offset and
bytes.  Reads past its end fail. -/
def Partition.image (size : ℕ) (pieces : List (ℕ × ℕ × List Byte)) : Partition where
  sector lba k :=
    (pieces.findSome? fun (l, o, bytes) =>
      if lba.toNat = l ∧ o ≤ k then bytes[k - o]? else none).getD 0#8
  fails _ lba n := decide (size < lba.toNat + n)

/-- A byte of an image is zero or comes from a piece. -/
lemma Partition.image_sector (size : ℕ) (pieces : List (ℕ × ℕ × List Byte)) (lba : Word) (k : ℕ) :
    (image size pieces).sector lba k ∈ 0#8 :: pieces.flatMap fun piece => piece.2.2 := by
  rw [image]
  dsimp only
  cases hfind : pieces.findSome? _ with
  | none => exact List.mem_cons_self
  | some b =>
      obtain ⟨⟨l, o, bytes⟩, hmem, hb⟩ := List.exists_of_findSome?_eq_some hfind
      refine List.mem_cons_of_mem _ (List.mem_flatMap.mpr ⟨_, hmem, ?_⟩)
      dsimp only at hb
      split_ifs at hb
      exact List.mem_of_getElem? hb

/-- The memory at `MEMORY_FAT_ADDR` before the driver uses it. -/
def blankState : FatState :=
  let fd : FatFileData := ⟨fun _ => 0#8, false, 0#32, 0#32, false, 0#32, 0#32, 0#32⟩
  ⟨fatBootSector fun _ => 0#8, fd, fun _ => fd, fun _ => 0#8, 0#32, 0#32, .fat12, 0#32, 0#32,
    [], []⟩

/-- The boot sector of a FAT32 volume, and the entry of the only cluster of its root directory. -/
def fat32Pieces : List (ℕ × ℕ × List Byte) := [
  (0, 11, [0x00#8, 0x02#8, 0x01#8, 0x20#8, 0x00#8, 0x01#8, 0x00#8, 0x00#8, 0x00#8, 0x00#8,
    0xF8#8, 0x00#8, 0x00#8]),
  (0, 32, [0x88#8, 0x13#8, 0x00#8, 0x00#8, 0x28#8, 0x00#8, 0x00#8, 0x00#8]),
  (0, 44, [0x02#8, 0x00#8, 0x00#8, 0x00#8]),
  (32, 8, [0xFF#8, 0xFF#8, 0xFF#8, 0x0F#8])]

/-- A FAT12 volume with a directory `BOOT` of one cluster, which is empty. -/
def directoryDisk : Partition :=
  Partition.image 64 [
    (0, 11, [0x00#8, 0x02#8, 0x01#8, 0x01#8, 0x00#8, 0x01#8, 0x10#8, 0x00#8, 0x40#8, 0x00#8,
      0xF0#8, 0x01#8, 0x00#8]),
    (1, 0, [0xF0#8, 0xFF#8, 0xFF#8, 0xFF#8, 0x0F#8]),
    (2, 0, ascii "BOOT       " ++ [FAT_ATTRIBUTE_DIRECTORY]),
    (2, 26, [0x02#8, 0x00#8])]

/-- The state after `FAT_Initialize`. -/
def directoryState : FatState := (fatInitialize directoryDisk blankState).2

lemma directoryDisk_initialized :
    fatInitialize directoryDisk blankState = (some true, directoryState) :=
  Prod.ext (by decide +kernel : (fatInitialize directoryDisk blankState).1 = some true) rfl

/-- The path of the directory. -/
def directoryPath : CString := ⟨ascii "boot", by decide⟩

/-- The state after `FAT_Open`, the buffer `name` having been zero. -/
def directoryOpened (path : CString) : FatState :=
  (fatOpen directoryDisk 40 (fun _ => 0#8) path directoryState).2.2

/-- The slots are numbered from 0 on. -/
instance : NeZero MAX_FILE_HANDLES := ⟨by decide⟩

/-! ### Files of a state -/

namespace FatState

variable (s : FatState) (file file' : FatHandle) (fd : FatFileData)

@[simp] lemma file_setFile_self : (s.setFile file fd).file file = fd := by
  cases file with
  | root => rfl
  | slot i => exact Function.update_self i fd s.openedFiles

@[simp] lemma openedFiles_setFile_self (i : Fin MAX_FILE_HANDLES) :
    (s.setFile (.slot i) fd).openedFiles i = fd :=
  file_setFile_self s (.slot i) fd

lemma file_setFile_of_ne (h : file' ≠ file) : (s.setFile file fd).file file' = s.file file' := by
  cases file with
  | root =>
      cases file' with
      | root => exact absurd rfl h
      | slot j => rfl
  | slot i =>
      cases file' with
      | root => rfl
      | slot j => exact Function.update_of_ne (fun hij => h (congrArg _ hij)) fd s.openedFiles

@[simp] lemma setFile_file : s.setFile file (s.file file) = s := by
  cases file with
  | root => rfl
  | slot i => rw [setFile, file, Function.update_eq_self]

@[simp] lemma setFile_setFile (fd' : FatFileData) :
    (s.setFile file fd).setFile file fd' = s.setFile file fd' := by
  cases file with
  | root => rfl
  | slot i => simp only [setFile, Function.update_idem]

@[simp] lemma bootSector_setFile : (s.setFile file fd).bootSector = s.bootSector := by
  cases file <;> rfl

@[simp] lemma fatCache_setFile : (s.setFile file fd).fatCache = s.fatCache := by
  cases file <;> rfl

@[simp] lemma fatCachePosition_setFile :
    (s.setFile file fd).fatCachePosition = s.fatCachePosition := by
  cases file <;> rfl

@[simp] lemma dataSectionLba_setFile : (s.setFile file fd).dataSectionLba = s.dataSectionLba := by
  cases file <;> rfl

@[simp] lemma fatType_setFile : (s.setFile file fd).fatType = s.fatType := by
  cases file <;> rfl

@[simp] lemma sectorsPerFat_setFile : (s.setFile file fd).sectorsPerFat = s.sectorsPerFat := by
  cases file <;> rfl

@[simp] lemma requests_setFile : (s.setFile file fd).requests = s.requests := by
  cases file <;> rfl

@[simp] lemma lookups_setFile : (s.setFile file fd).lookups = s.lookups := by
  cases file <;> rfl

end FatState

/-! ### Reading a sector -/

/-- The bytes of the sectors from `lba` on. -/
def Partition.bytesAt (disk : Partition) (lba : Word) (k : ℕ) : Byte :=
  disk.sector (lba + BitVec.ofNat 32 (k / 512)) (k % 512)

section

variable {disk : Partition} {file : FatHandle} {lba : Word} {s : FatState}

lemma fatReadBuffer_of_fails (h : disk.fails s.requests lba 1 = true) :
    fatReadBuffer disk file lba s = (false, { s with requests := (lba, 1) :: s.requests }) := by
  rw [fatReadBuffer, partitionReadSectors, if_pos h]

lemma fatReadBuffer_of_not_fails (h : disk.fails s.requests lba 1 = false) :
    fatReadBuffer disk file lba s
      = (true, { s with requests := (lba, 1) :: s.requests }.setFile file
          { s.file file with buffer := disk.bytesAt lba }) := by
  rw [fatReadBuffer, partitionReadSectors, if_neg (by rw [h]; exact Bool.false_ne_true)]
  cases file <;> rfl

lemma fatReadFat_of_fails
    (h : disk.fails s.requests (s.bootSector.reservedSectors.setWidth 32 + lba) FAT_CACHE_SIZE
      = true) :
    fatReadFat disk lba s = (false, { s with
      requests := (s.bootSector.reservedSectors.setWidth 32 + lba, FAT_CACHE_SIZE)
        :: s.requests }) := by
  rw [fatReadFat, partitionReadSectors, if_pos h]

lemma fatReadFat_of_not_fails
    (h : disk.fails s.requests (s.bootSector.reservedSectors.setWidth 32 + lba) FAT_CACHE_SIZE
      = false) :
    fatReadFat disk lba s = (true, { s with
      requests := (s.bootSector.reservedSectors.setWidth 32 + lba, FAT_CACHE_SIZE)
        :: s.requests
      fatCache := disk.bytesAt (s.bootSector.reservedSectors.setWidth 32 + lba) }) := by
  rw [fatReadFat, partitionReadSectors, if_neg (by rw [h]; exact Bool.false_ne_true)]
  rfl

end

/-- A read into the buffer of a file changes that and the trace, whether it fails or not. -/
lemma fatReadBuffer_eq (disk : Partition) (file : FatHandle) (lba : Word) (s : FatState) :
    ∃ buffer, (fatReadBuffer disk file lba s).2
      = { s with requests := (lba, 1) :: s.requests }.setFile file
          { s.file file with buffer := buffer } := by
  cases hfails : disk.fails s.requests lba 1 with
  | true =>
      refine ⟨(s.file file).buffer, ?_⟩
      rw [fatReadBuffer_of_fails hfails]
      exact (FatState.setFile_file { s with requests := (lba, 1) :: s.requests } file).symm
  | false => exact ⟨_, by rw [fatReadBuffer_of_not_fails hfails]⟩

lemma fatReadFat_eq (disk : Partition) (lba : Word) (s : FatState) :
    ∃ cache requests, (fatReadFat disk lba s).2 = { s with fatCache := cache, requests } := by
  cases hfails : disk.fails s.requests
      (s.bootSector.reservedSectors.setWidth 32 + lba) FAT_CACHE_SIZE with
  | true => exact ⟨_, _, by rw [fatReadFat_of_fails hfails]⟩
  | false => exact ⟨_, _, by rw [fatReadFat_of_not_fails hfails]⟩

/-- A lookup in the FAT changes the cache, its position and the traces. -/
lemma fatNextCluster_eq (disk : Partition) (c : Word) (s : FatState) :
    ∃ cache position requests lookup, (fatNextCluster disk c s).2
      = { s with
          fatCache := cache
          fatCachePosition := position
          requests
          lookups := lookup :: s.lookups } := by
  rw [fatNextCluster]
  dsimp only
  rw [fatLoadCache]
  split_ifs
  · obtain ⟨cache, requests, heq⟩ := fatReadFat_eq disk (fatIndex s.fatType c / SECTOR_SIZE) s
    exact ⟨cache, _, requests, _, by rw [heq]⟩
  · exact ⟨s.fatCache, s.fatCachePosition, s.requests, _, rfl⟩

lemma fatReadFat_setFile (disk : Partition) (lba : Word) (s : FatState) (file : FatHandle)
    (fd : FatFileData) :
    (fatReadFat disk lba (s.setFile file fd)).2 = (fatReadFat disk lba s).2.setFile file fd := by
  cases hfails : disk.fails s.requests
      (s.bootSector.reservedSectors.setWidth 32 + lba) FAT_CACHE_SIZE with
  | true =>
      rw [fatReadFat_of_fails hfails, fatReadFat_of_fails (by simpa using hfails)]
      cases file <;> rfl
  | false =>
      rw [fatReadFat_of_not_fails hfails, fatReadFat_of_not_fails (by simpa using hfails)]
      cases file <;> rfl

/-- A lookup in the FAT does not look at the files. -/
lemma fatNextCluster_setFile (disk : Partition) (c : Word) (s : FatState) (file : FatHandle)
    (fd : FatFileData) :
    fatNextCluster disk c (s.setFile file fd)
      = ((fatNextCluster disk c s).1, (fatNextCluster disk c s).2.setFile file fd) := by
  have hload : fatLoadCache disk (fatIndex s.fatType c / SECTOR_SIZE) (s.setFile file fd)
      = (fatLoadCache disk (fatIndex s.fatType c / SECTOR_SIZE) s).setFile file fd := by
    simp only [fatLoadCache, FatState.fatCachePosition_setFile, fatReadFat_setFile]
    split_ifs
    · cases file <;> rfl
    · rfl
  rw [fatNextCluster, FatState.fatType_setFile, hload]
  cases file <;> rfl

/-! ### Frames -/

/-- From `s` to `s'` the layout of the volume remains, and the trace of lookups grows. -/
structure Continues (s s' : FatState) : Prop where
  bootSector : s'.bootSector = s.bootSector
  dataSectionLba : s'.dataSectionLba = s.dataSectionLba
  fatType : s'.fatType = s.fatType
  sectorsPerFat : s'.sectorsPerFat = s.sectorsPerFat
  lookups : s.lookups <:+ s'.lookups

namespace Continues

variable {s s' s'' : FatState}

@[refl] lemma refl (s : FatState) : Continues s s := ⟨rfl, rfl, rfl, rfl, List.suffix_rfl⟩

@[trans] lemma trans (h : Continues s s') (h' : Continues s' s'') : Continues s s'' where
  bootSector := h'.bootSector.trans h.bootSector
  dataSectionLba := h'.dataSectionLba.trans h.dataSectionLba
  fatType := h'.fatType.trans h.fatType
  sectorsPerFat := h'.sectorsPerFat.trans h.sectorsPerFat
  lookups := h.lookups.trans h'.lookups

end Continues

lemma continues_setFile (s : FatState) (file : FatHandle) (fd : FatFileData) :
    Continues s (s.setFile file fd) where
  bootSector := FatState.bootSector_setFile s file fd
  dataSectionLba := FatState.dataSectionLba_setFile s file fd
  fatType := FatState.fatType_setFile s file fd
  sectorsPerFat := FatState.sectorsPerFat_setFile s file fd
  lookups := by rw [FatState.lookups_setFile]

/-- Besides, the other files remain, and what a file is. -/
structure FrameOf (file : FatHandle) (s s' : FatState) : Prop extends Continues s s' where
  others : ∀ file' ≠ file, s'.file file' = s.file file'
  isDirectory : (s'.file file).isDirectory = (s.file file).isDirectory
  opened : (s'.file file).opened = (s.file file).opened
  firstCluster : (s'.file file).firstCluster = (s.file file).firstCluster

namespace FrameOf

variable {file : FatHandle} {s s' s'' : FatState}

@[refl] lemma refl (file : FatHandle) (s : FatState) : FrameOf file s s :=
  ⟨Continues.refl s, fun _ _ => rfl, rfl, rfl, rfl⟩

@[trans] lemma trans (h : FrameOf file s s') (h' : FrameOf file s' s'') : FrameOf file s s'' where
  toContinues := h.toContinues.trans h'.toContinues
  others file' hne := (h'.others file' hne).trans (h.others file' hne)
  isDirectory := h'.isDirectory.trans h.isDirectory
  opened := h'.opened.trans h.opened
  firstCluster := h'.firstCluster.trans h.firstCluster

end FrameOf

lemma frame_setFile (s : FatState) (file : FatHandle) {fd : FatFileData}
    (hdir : fd.isDirectory = (s.file file).isDirectory)
    (hopened : fd.opened = (s.file file).opened)
    (hfirst : fd.firstCluster = (s.file file).firstCluster) :
    FrameOf file s (s.setFile file fd) where
  toContinues := continues_setFile s file fd
  others file' hne := FatState.file_setFile_of_ne s file file' fd hne
  isDirectory := by rw [FatState.file_setFile_self, hdir]
  opened := by rw [FatState.file_setFile_self, hopened]
  firstCluster := by rw [FatState.file_setFile_self, hfirst]

section

variable (disk : Partition) (file : FatHandle) (s : FatState)

lemma frame_readBuffer (lba : Word) : FrameOf file s (fatReadBuffer disk file lba s).2 := by
  obtain ⟨buffer, heq⟩ := fatReadBuffer_eq disk file lba s
  have hrequests : FrameOf file s { s with requests := (lba, 1) :: s.requests } :=
    ⟨⟨rfl, rfl, rfl, rfl, List.suffix_rfl⟩, fun file' _ => by cases file' <;> rfl,
      by cases file <;> rfl, by cases file <;> rfl, by cases file <;> rfl⟩
  rw [heq]
  exact hrequests.trans (frame_setFile _ file (by cases file <;> rfl) (by cases file <;> rfl)
    (by cases file <;> rfl))

lemma frame_nextCluster (c : Word) : FrameOf file s (fatNextCluster disk c s).2 := by
  obtain ⟨cache, position, requests, lookup, heq⟩ := fatNextCluster_eq disk c s
  rw [heq]
  exact ⟨⟨rfl, rfl, rfl, rfl, List.suffix_cons _ _⟩, fun file' _ => by cases file' <;> rfl,
    by cases file <;> rfl, by cases file <;> rfl, by cases file <;> rfl⟩

lemma frame_advance (i : Fin MAX_FILE_HANDLES) : FrameOf (.slot i) s (fatAdvance disk i s) := by
  rw [fatAdvance]
  split_ifs
  · have hnext := frame_nextCluster disk (.slot i) s (s.openedFiles i).currentCluster
    exact hnext.trans (frame_setFile _ _ hnext.isDirectory.symm hnext.opened.symm
      hnext.firstCluster.symm)
  · exact frame_setFile _ _ rfl rfl rfl

/-- Moving on to the next sector. -/
theorem frame_nextSector : FrameOf file s (fatNextSector disk file s).2 := by
  cases file with
  | root =>
      have hmove : FrameOf .root s (s.setFile .root { s.rootDirectory with
          currentCluster := s.rootDirectory.currentCluster + 1#32 }) :=
        frame_setFile s .root rfl rfl rfl
      exact hmove.trans (frame_readBuffer disk .root _ _)
  | slot i =>
      have hadvance := frame_advance disk s i
      rw [fatNextSector]
      split_ifs
      · exact hadvance.trans (frame_setFile _ _ rfl rfl rfl)
      · exact hadvance.trans (frame_readBuffer disk (.slot i) _ _)

end

/-! ### One turn of `FAT_Read` -/

section

variable {disk : Partition} {i : Fin MAX_FILE_HANDLES} {s : FatState}

/-- The end of the cluster chain is the end of the file. -/
lemma fatNextSector_end
    (hend : FAT_CHAIN_END ≤ ((fatAdvance disk i s).openedFiles i).currentCluster) :
    fatNextSector disk (.slot i) s = (false, (fatAdvance disk i s).setFile (.slot i)
      { (fatAdvance disk i s).openedFiles i with
        size := ((fatAdvance disk i s).openedFiles i).position }) :=
  if_pos hend

lemma fatNextSector_slot
    (hend : ¬FAT_CHAIN_END ≤ ((fatAdvance disk i s).openedFiles i).currentCluster) :
    fatNextSector disk (.slot i) s = fatReadBuffer disk (.slot i)
      (fatClusterToLba (fatAdvance disk i s) ((fatAdvance disk i s).openedFiles i).currentCluster
        + ((fatAdvance disk i s).openedFiles i).currentSectorInCluster) (fatAdvance disk i s) :=
  if_neg hend

/-- The lookup comes first. -/
lemma continues_advance_nextSector :
    Continues (fatAdvance disk i s) (fatNextSector disk (.slot i) s).2 := by
  rw [fatNextSector]
  split_ifs
  · exact continues_setFile _ (.slot i) _
  · exact (frame_readBuffer disk (.slot i) _ _).toContinues

end

section

variable {disk : Partition} {file : FatHandle} {s t : FatState} {fuel : ℕ} {byteCount : Word}

lemma wordMin_of_lt {a b : Word} (h : a.toNat < b.toNat) : wordMin a b = a := if_pos h

lemma wordMin_of_le {a b : Word} (h : b.toNat ≤ a.toNat) : wordMin a b = b :=
  if_neg (not_lt.mpr h)

lemma toNat_mod_sector (w : Word) : (w % SECTOR_SIZE).toNat = w.toNat % 512 := by
  rw [BitVec.toNat_umod]
  rfl

lemma toNat_leftInBuffer (fd : FatFileData) :
    fd.leftInBuffer.toNat = 512 - fd.position.toNat % 512 := by
  have hmod := toNat_mod_sector fd.position
  have hsize : SECTOR_SIZE.toNat = 512 := rfl
  have hle : fd.position % SECTOR_SIZE ≤ SECTOR_SIZE := by
    rw [BitVec.le_def, hmod, hsize]
    omega
  rw [FatFileData.leftInBuffer, BitVec.toNat_sub_of_le hle, hmod, hsize]

@[simp] lemma position_moved (fd : FatFileData) (take : Word) :
    (fd.moved take).position = fd.position + take :=
  rfl

@[simp] lemma size_moved (fd : FatFileData) (take : Word) : (fd.moved take).size = fd.size := rfl

lemma length_taken (fd : FatFileData) (take : Word) : (fd.taken take).length = take.toNat := by
  simp [FatFileData.taken]

lemma getD_taken (fd : FatFileData) {take : Word} {k : ℕ} (hk : k < take.toNat) :
    (fd.taken take).getD k 0#8 = fd.buffer (fd.position.toNat % 512 + k) := by
  rw [FatFileData.taken, toNat_mod_sector, List.getD_eq_getElem _ _ (by simpa using hk)]
  simp

lemma fatReadLoop_zero : fatReadLoop disk file fuel 0#32 s = ([], s) := by
  cases fuel with
  | zero => rfl
  | succ fuel => exact if_pos rfl

/-- The buffer is not used up. -/
lemma fatReadLoop_inside (hpos : byteCount ≠ 0#32)
    (hleft : (s.file file).leftInBuffer ≠ wordMin byteCount (s.file file).leftInBuffer) :
    fatReadLoop disk file (fuel + 1) byteCount s
      = let take := wordMin byteCount (s.file file).leftInBuffer
        let rest := fatReadLoop disk file fuel (byteCount - take)
          (s.setFile file ((s.file file).moved take))
        ((s.file file).taken take ++ rest.1, rest.2) := by
  rw [fatReadLoop, if_neg hpos]
  exact if_neg hleft

/-- The buffer is used up, and the file has no next sector, or it cannot be read. -/
lemma fatReadLoop_break (hpos : byteCount ≠ 0#32)
    (hleft : (s.file file).leftInBuffer = wordMin byteCount (s.file file).leftInBuffer)
    (hnext : fatNextSector disk file (s.setFile file
      ((s.file file).moved (s.file file).leftInBuffer)) = (false, t)) :
    fatReadLoop disk file (fuel + 1) byteCount s
      = ((s.file file).taken (s.file file).leftInBuffer, t) := by
  rw [fatReadLoop, if_neg hpos]
  dsimp only
  rw [if_pos hleft, ← hleft, hnext]

/-- The buffer is used up and filled again. -/
lemma fatReadLoop_next (hpos : byteCount ≠ 0#32)
    (hleft : (s.file file).leftInBuffer = wordMin byteCount (s.file file).leftInBuffer)
    (hnext : fatNextSector disk file (s.setFile file
      ((s.file file).moved (s.file file).leftInBuffer)) = (true, t)) :
    fatReadLoop disk file (fuel + 1) byteCount s
      = let rest := fatReadLoop disk file fuel (byteCount - (s.file file).leftInBuffer) t
        ((s.file file).taken (s.file file).leftInBuffer ++ rest.1, rest.2) := by
  rw [fatReadLoop, if_neg hpos]
  dsimp only
  rw [if_pos hleft, ← hleft, hnext]

end

section

variable (disk : Partition) (file : FatHandle) (s : FatState)

lemma file_nextCluster (c : Word) : (fatNextCluster disk c s).2.file file = s.file file := by
  obtain ⟨cache, position, requests, lookup, heq⟩ := fatNextCluster_eq disk c s
  rw [heq]
  cases file <;> rfl

/-- A read into the buffer leaves the position and the size. -/
lemma position_readBuffer (lba : Word) :
    ((fatReadBuffer disk file lba s).2.file file).position = (s.file file).position ∧
      ((fatReadBuffer disk file lba s).2.file file).size = (s.file file).size := by
  obtain ⟨buffer, heq⟩ := fatReadBuffer_eq disk file lba s
  rw [heq, FatState.file_setFile_self]
  exact ⟨rfl, rfl⟩

lemma position_advance (i : Fin MAX_FILE_HANDLES) :
    ((fatAdvance disk i s).file (.slot i)).position = (s.file (.slot i)).position ∧
      ((fatAdvance disk i s).file (.slot i)).size = (s.file (.slot i)).size := by
  rw [fatAdvance]
  split_ifs <;> (rw [FatState.file_setFile_self]; exact ⟨rfl, rfl⟩)

/-- Moving on leaves the position, and the size except at the end of the chain. -/
theorem position_nextSector :
    ((fatNextSector disk file s).2.file file).position = (s.file file).position ∧
      (((fatNextSector disk file s).2.file file).size = (s.file file).size ∨
        (fatNextSector disk file s).1 = false ∧
          ((fatNextSector disk file s).2.file file).size = (s.file file).position) := by
  cases file with
  | root =>
      obtain ⟨hpos, hsize⟩ := position_readBuffer disk .root (s.setFile .root { s.rootDirectory with
        currentCluster := s.rootDirectory.currentCluster + 1#32 })
        (s.rootDirectory.currentCluster + 1#32)
      exact ⟨hpos, .inl hsize⟩
  | slot i =>
      obtain ⟨hpos, hsize⟩ := position_advance disk s i
      by_cases hend : FAT_CHAIN_END ≤ ((fatAdvance disk i s).openedFiles i).currentCluster
      · rw [fatNextSector_end hend, FatState.file_setFile_self]
        exact ⟨hpos, .inr ⟨rfl, hpos⟩⟩
      · obtain ⟨hpos', hsize'⟩ := position_readBuffer disk (.slot i) (fatAdvance disk i s)
          (fatClusterToLba (fatAdvance disk i s)
              ((fatAdvance disk i s).openedFiles i).currentCluster
            + ((fatAdvance disk i s).openedFiles i).currentSectorInCluster)
        rw [fatNextSector_slot hend]
        exact ⟨hpos'.trans hpos, .inl (hsize'.trans hsize)⟩

/-- What a read does to a file: it delivers at most the bytes asked for, moves the position by
what it delivers, and can find out that the position is the size. -/
structure Advances (byteCount : ℕ) (s : FatState) (r : List Byte × FatState) : Prop where
  length : r.1.length ≤ byteCount
  position : (r.2.file file).position = (s.file file).position + BitVec.ofNat 32 r.1.length
  size : (r.2.file file).size = (s.file file).size ∨
    (r.2.file file).size = (r.2.file file).position

lemma advances_nil (byteCount : ℕ) : Advances file byteCount s ([], s) :=
  ⟨Nat.zero_le _, (BitVec.add_zero _).symm, .inl rfl⟩

theorem advances_readLoop (fuel : ℕ) (byteCount : Word) :
    Advances file byteCount.toNat s (fatReadLoop disk file fuel byteCount s) := by
  induction fuel generalizing byteCount s with
  | zero => exact advances_nil file s _
  | succ fuel ih =>
      by_cases hzero : byteCount = 0#32
      · rw [hzero, fatReadLoop_zero]
        exact advances_nil file s _
      have hmoved : ∀ take, (s.setFile file ((s.file file).moved take)).file file
          = (s.file file).moved take := fun take => FatState.file_setFile_self s file _
      -- the bytes of one turn, and of the rest
      have hcons : ∀ (take : Word) (t : FatState) (r : List Byte × FatState),
          take.toNat ≤ byteCount.toNat →
          (t.file file).position = (s.file file).position + take →
          (t.file file).size = (s.file file).size →
          Advances file (byteCount.toNat - take.toNat) t r →
          Advances file byteCount.toNat s ((s.file file).taken take ++ r.1, r.2) := by
        intro take t r hle hpos hsize hr
        have hlength : ((s.file file).taken take ++ r.1).length = take.toNat + r.1.length := by
          rw [List.length_append, length_taken]
        refine ⟨?_, ?_, ?_⟩
        · have := hr.length
          dsimp only
          omega
        · dsimp only
          rw [hlength, hr.position, hpos, BitVec.ofNat_add, BitVec.ofNat_toNat,
            BitVec.setWidth_eq, BitVec.add_assoc]
        · rw [← hsize]
          exact hr.size
      by_cases hleft : (s.file file).leftInBuffer = wordMin byteCount (s.file file).leftInBuffer
      · have hle : (s.file file).leftInBuffer.toNat ≤ byteCount.toNat := by
          rw [hleft, toNat_wordMin]
          exact min_le_left _ _
        obtain ⟨hpos, hsize⟩ := position_nextSector disk file
          (s.setFile file ((s.file file).moved (s.file file).leftInBuffer))
        cases hnext : fatNextSector disk file
          (s.setFile file ((s.file file).moved (s.file file).leftInBuffer)) with
        | mk ok t =>
        rw [hnext, hmoved, position_moved] at hpos
        rw [hnext, hmoved, size_moved, position_moved] at hsize
        cases ok with
        | false =>
            rw [fatReadLoop_break hzero hleft hnext]
            refine ⟨by rw [length_taken]; exact hle, ?_, ?_⟩
            · rw [length_taken, BitVec.ofNat_toNat, BitVec.setWidth_eq]
              exact hpos
            · rcases hsize with hsize | ⟨-, hsize⟩
              · exact .inl hsize
              · exact .inr (hsize.trans hpos.symm)
        | true =>
            have hsize' := hsize.resolve_right fun h => Bool.false_ne_true h.1.symm
            have hrest := ih t (byteCount - (s.file file).leftInBuffer)
            rw [BitVec.toNat_sub_of_le (BitVec.le_def.mpr hle)] at hrest
            rw [fatReadLoop_next hzero hleft hnext]
            exact hcons (s.file file).leftInBuffer t _ hle hpos hsize' hrest
      · have hle : (wordMin byteCount (s.file file).leftInBuffer).toNat ≤ byteCount.toNat := by
          rw [toNat_wordMin]
          exact min_le_left _ _
        have hrest := ih (s.setFile file ((s.file file).moved
          (wordMin byteCount (s.file file).leftInBuffer)))
          (byteCount - wordMin byteCount (s.file file).leftInBuffer)
        rw [BitVec.toNat_sub_of_le (BitVec.le_def.mpr hle)] at hrest
        rw [fatReadLoop_inside hzero hleft]
        exact hcons (wordMin byteCount (s.file file).leftInBuffer) _ _ hle
          (by rw [hmoved, position_moved]) (by rw [hmoved, size_moved]) hrest

lemma advances_read (byteCount : Word) :
    Advances file ((s.file file).clamp byteCount).toNat s (fatRead disk file byteCount s) :=
  advances_readLoop disk file s _ _

end

lemma fatReadEntry_of_read {disk : Partition} {file : FatHandle} {s t : FatState}
    {bytes : List Byte} (hread : fatRead disk file 32#32 s = (bytes, t))
    (hlen : bytes.length = 32) :
    fatReadEntry disk file s = (some (fatDirectoryEntry fun k => bytes.getD k 0#8), t) := by
  rw [fatReadEntry, hread]
  dsimp only
  rw [if_pos hlen]

lemma fatReadEntry_of_short {disk : Partition} {file : FatHandle} {s t : FatState}
    {bytes : List Byte} (hread : fatRead disk file 32#32 s = (bytes, t))
    (hlen : bytes.length ≠ 32) : fatReadEntry disk file s = (none, t) := by
  rw [fatReadEntry, hread]
  dsimp only
  rw [if_neg hlen]

lemma fatDirectoryEntry_congr {b b' : ℕ → Byte} (h : ∀ k < 32, b k = b' k) :
    fatDirectoryEntry b = fatDirectoryEntry b' := by
  have hhalf : ∀ o, o + 2 ≤ 32 → halfAt b o = halfAt b' o := fun o ho => by
    rw [halfAt, halfAt, h o (by omega), h (o + 1) (by omega)]
  refine FatDirectoryEntry.ext ?_ (h 11 (by omega)) (hhalf 20 (by omega)) (hhalf 26 (by omega)) ?_
  · exact List.map_congr_left fun k hk => h k (by have := List.mem_range.mp hk; omega)
  · change wordAt b 28 = wordAt b' 28
    rw [wordAt, wordAt, h 28 (by omega), h 29 (by omega), h 30 (by omega), h 31 (by omega)]

/-- The `FAT_DirectoryEntry` of the 32 bytes delivered. -/
lemma fatDirectoryEntry_taken (fd : FatFileData) :
    (fatDirectoryEntry fun k => (fd.taken 32#32).getD k 0#8)
      = fatDirectoryEntry fun k => fd.buffer (fd.position.toNat % 512 + k) :=
  fatDirectoryEntry_congr fun _ hk => getD_taken fd hk

/-- A read that ends in front of the end of the buffer. -/
lemma fatRead_within {disk : Partition} {file : FatHandle} {s : FatState} {byteCount : Word}
    (h : (s.file file).position.toNat % 512 + ((s.file file).clamp byteCount).toNat < 512) :
    fatRead disk file byteCount s = ((s.file file).taken ((s.file file).clamp byteCount),
      s.setFile file ((s.file file).moved ((s.file file).clamp byteCount))) := by
  rw [fatRead]
  generalize (s.file file).clamp byteCount = n at h
  have hleft := toNat_leftInBuffer (s.file file)
  have htake : wordMin n (s.file file).leftInBuffer = n := wordMin_of_lt (by omega)
  by_cases hzero : n = 0#32
  · have hmoved : (s.file file).moved 0#32 = s.file file := by
      rw [FatFileData.moved, BitVec.add_zero]
    rw [hzero, fatReadLoop_zero, hmoved, FatState.setFile_file]
    rfl
  · have hne : (s.file file).leftInBuffer ≠ wordMin n (s.file file).leftInBuffer := by
      rw [htake]
      intro heq
      rw [heq] at hleft
      omega
    have hpos : n.toNat = n.toNat - 1 + 1 := by
      have : n.toNat ≠ 0 := fun h => hzero (BitVec.eq_of_toNat_eq h)
      omega
    rw [hpos, fatReadLoop_inside hzero hne]
    simp only [htake, BitVec.sub_self, fatReadLoop_zero, List.append_nil]

/-- What moving the position and moving on to the next sector keep, `FAT_Read` keeps. -/
theorem readLoop_invariant {disk : Partition} {file : FatHandle} {P : FatState → Prop}
    (hmove : ∀ s take, P s → P (s.setFile file ((s.file file).moved take)))
    (hnext : ∀ s, P s → P (fatNextSector disk file s).2) (fuel : ℕ) (byteCount : Word)
    {s : FatState} (hs : P s) : P (fatReadLoop disk file fuel byteCount s).2 := by
  induction fuel generalizing byteCount s with
  | zero => exact hs
  | succ fuel ih =>
      by_cases hzero : byteCount = 0#32
      · rw [hzero, fatReadLoop_zero]
        exact hs
      by_cases hleft : (s.file file).leftInBuffer = wordMin byteCount (s.file file).leftInBuffer
      · have hsector := hnext _ (hmove s (s.file file).leftInBuffer hs)
        cases heq : fatNextSector disk file
          (s.setFile file ((s.file file).moved (s.file file).leftInBuffer)) with
        | mk ok t =>
        rw [heq] at hsector
        cases ok with
        | false =>
            rw [fatReadLoop_break hzero hleft heq]
            exact hsector
        | true =>
            have hrest := ih (byteCount - (s.file file).leftInBuffer) hsector
            rw [fatReadLoop_next hzero hleft heq]
            exact hrest
      · have hrest := ih (byteCount - wordMin byteCount (s.file file).leftInBuffer)
          (hmove s (wordMin byteCount (s.file file).leftInBuffer) hs)
        rw [fatReadLoop_inside hzero hleft]
        exact hrest

/-- What `FAT_Read` leaves alone. -/
theorem frame_readLoop (disk : Partition) (file : FatHandle) (s : FatState) (fuel : ℕ)
    (byteCount : Word) : FrameOf file s (fatReadLoop disk file fuel byteCount s).2 :=
  readLoop_invariant (P := FrameOf file s)
    (fun t _ ht => ht.trans (frame_setFile t file rfl rfl rfl))
    (fun t ht => ht.trans (frame_nextSector disk file t)) fuel byteCount (FrameOf.refl file s)

/-- A turn that uses the buffer up moves on to the next sector first. -/
lemma continues_nextSector_readLoop {disk : Partition} {file : FatHandle} {s : FatState}
    {fuel : ℕ} {byteCount : Word} (hpos : byteCount ≠ 0#32)
    (hleft : (s.file file).leftInBuffer = wordMin byteCount (s.file file).leftInBuffer) :
    Continues
      (fatNextSector disk file (s.setFile file ((s.file file).moved (s.file file).leftInBuffer))).2
      (fatReadLoop disk file (fuel + 1) byteCount s).2 := by
  cases hnext : fatNextSector disk file
    (s.setFile file ((s.file file).moved (s.file file).leftInBuffer)) with
  | mk ok t =>
  cases ok with
  | false =>
      rw [fatReadLoop_break hpos hleft hnext]
  | true =>
      rw [fatReadLoop_next hpos hleft hnext]
      exact (frame_readLoop disk file t fuel (byteCount - (s.file file).leftInBuffer)).toContinues

lemma frame_read (disk : Partition) (file : FatHandle) (byteCount : Word) (s : FatState) :
    FrameOf file s (fatRead disk file byteCount s).2 :=
  frame_readLoop disk file s _ _

lemma frame_readEntry (disk : Partition) (file : FatHandle) (s : FatState) :
    FrameOf file s (fatReadEntry disk file s).2 :=
  frame_read disk file 32#32 s

/-- What a search leaves alone. -/
theorem frame_findLoop (disk : Partition) (file : FatHandle) (shortName : List Byte) (fuel : ℕ)
    (s : FatState) : FrameOf file s (fatFindLoop disk file shortName fuel s).2 := by
  induction fuel generalizing s with
  | zero => exact FrameOf.refl file s
  | succ fuel ih =>
      have hentry := frame_readEntry disk file s
      rw [fatFindLoop]
      cases hread : fatReadEntry disk file s with
      | mk entry t =>
      rw [hread] at hentry
      cases entry with
      | none => exact hentry
      | some entry =>
          dsimp only
          split_ifs
          · exact hentry
          · exact hentry.trans (ih t)

/-- A search reads an entry first. -/
lemma continues_readEntry_findLoop {disk : Partition} {file : FatHandle} {shortName : List Byte}
    {fuel : ℕ} {s : FatState} :
    Continues (fatReadEntry disk file s).2 (fatFindLoop disk file shortName (fuel + 1) s).2 := by
  rw [fatFindLoop]
  cases hread : fatReadEntry disk file s with
  | mk entry t =>
  cases entry with
  | none => exact Continues.refl t
  | some entry =>
      dsimp only
      split_ifs
      · exact Continues.refl t
      · exact (frame_findLoop disk file shortName fuel t).toContinues

/-! ### The state after `FAT_Initialize` -/

/-- What `FAT_Initialize` establishes when it returns true. -/
structure Initialized (disk : Partition) (s : FatState) : Prop where
  sectorsPerCluster : s.bootSector.sectorsPerCluster ≠ 0#8
  sectorsPerFat : s.sectorsPerFat = if s.bootSector.sectorsPerFat = 0#16
    then s.bootSector.ebr32SectorsPerFat else s.bootSector.sectorsPerFat.setWidth 32
  fat16 : s.fatType = .fat16 → s.bootSector.sectorsPerFat ≠ 0#16
  cache : s.fatCachePosition = 0xFFFFFFFF#32
  closed : ∀ i, (s.openedFiles i).opened = false
  root : s.rootDirectory =
    { buffer := disk.bytesAt s.rootDirectory.firstCluster
      isDirectory := true
      position := 0#32
      size := 32#32 * s.bootSector.dirEntryCount.setWidth 32
      opened := true
      firstCluster := s.rootDirectory.firstCluster
      currentCluster := s.rootDirectory.firstCluster
      currentSectorInCluster := 0#32 }
  readable : ∃ h, disk.fails h s.rootDirectory.firstCluster 1 = false

lemma sectorsPerFat_fatLayout (s : FatState) :
    (fatLayout s).sectorsPerFat = if s.bootSector.sectorsPerFat = 0#16
      then s.bootSector.ebr32SectorsPerFat else s.bootSector.sectorsPerFat.setWidth 32 := by
  simp only [fatLayout, decide_eq_true_eq]

lemma fatDetect_fat16 {s : FatState} (h : (fatDetect s).fatType = .fat16) :
    s.bootSector.sectorsPerFat ≠ 0#16 := by
  rw [fatDetect] at h
  simp only at h
  split_ifs at h with h12 h16
  exact h16

theorem fatInitialize_ready {disk : Partition} {g s : FatState}
    (h : fatInitialize disk g = (some true, s)) : Initialized disk s := by
  rw [fatInitialize] at h
  split at h
  · cases h
  rename_i s₁ hboot
  split_ifs at h
  · cases h
  set t := fatLayout s₁ with ht
  cases hfails : disk.fails t.requests t.rootDirectory.firstCluster 1 with
  | true =>
      simp only [fatReadBuffer_of_fails hfails] at h
      cases h
  | false =>
      simp only [fatReadBuffer_of_not_fails hfails] at h
      split_ifs at h with hzero
      · cases h
      obtain rfl := (Prod.mk.inj h).2
      exact ⟨hzero, sectorsPerFat_fatLayout s₁, fatDetect_fat16, rfl, fun _ => rfl, rfl, t.requests,
        hfails⟩

/-! ### Opening an entry -/

section

variable {disk : Partition} {entry : FatDirectoryEntry} {i : Fin MAX_FILE_HANDLES}
  {s t : FatState}

/-- The state in which `FAT_OpenEntry` reads the first sector into the slot it has found. -/
def entryState (entry : FatDirectoryEntry) (i : Fin MAX_FILE_HANDLES) (s : FatState) : FatState :=
  s.setFile (.slot i) (entry.fileData (s.openedFiles i))

/-- The read of the first sector of an entry. -/
def entryRead (disk : Partition) (entry : FatDirectoryEntry) (i : Fin MAX_FILE_HANDLES)
    (s : FatState) : Bool × FatState :=
  fatReadBuffer disk (.slot i)
    (fatClusterToLba (entryState entry i s) (entry.fileData (s.openedFiles i)).currentCluster)
    (entryState entry i s)

lemma fatOpenEntry_full (h : freeHandle s = none) : fatOpenEntry disk entry s = (none, s) := by
  rw [fatOpenEntry, h]

lemma fatOpenEntry_fails (h : freeHandle s = some i)
    (hread : entryRead disk entry i s = (false, t)) : fatOpenEntry disk entry s = (none, t) := by
  rw [fatOpenEntry, h]
  rw [entryRead, entryState] at hread
  simp only [hread]

lemma fatOpenEntry_opens (h : freeHandle s = some i)
    (hread : entryRead disk entry i s = (true, t)) :
    fatOpenEntry disk entry s = (some (.slot i),
      t.setFile (.slot i) { t.openedFiles i with opened := true }) := by
  rw [fatOpenEntry, h]
  rw [entryRead, entryState] at hread
  simp only [hread]

/-- A handle that is returned is that of the slot found. -/
lemma fatOpenEntry_slot {file : FatHandle} (h : (fatOpenEntry disk entry s).1 = some file) :
    ∃ i, file = .slot i := by
  cases hfree : freeHandle s with
  | none =>
      rw [fatOpenEntry_full hfree] at h
      cases h
  | some i =>
      cases hread : entryRead disk entry i s with
      | mk ok t =>
      cases ok with
      | false =>
          rw [fatOpenEntry_fails hfree hread] at h
          cases h
      | true =>
          rw [fatOpenEntry_opens hfree hread] at h
          exact ⟨i, (Option.some.inj h).symm⟩

/-- What `FAT_OpenEntry` leaves: the layout of the volume, and the files other than the slot it
has found, which stands at its beginning. -/
structure OpensAt (i : Fin MAX_FILE_HANDLES) (s t : FatState) : Prop extends Continues s t where
  others : ∀ file ≠ .slot i, t.file file = s.file file
  position : (t.file (.slot i)).position = 0#32

lemma opensAt_setFile {fd : FatFileData} (hpos : fd.position = 0#32) :
    OpensAt i s (s.setFile (.slot i) fd) where
  toContinues := continues_setFile s (.slot i) fd
  others file hne := FatState.file_setFile_of_ne s (.slot i) file fd hne
  position := by rw [FatState.file_setFile_self, hpos]

lemma OpensAt.trans {u : FatState} (h : OpensAt i s t) (h' : OpensAt i t u) : OpensAt i s u where
  toContinues := h.toContinues.trans h'.toContinues
  others file hne := (h'.others file hne).trans (h.others file hne)
  position := h'.position

lemma opensAt_entryRead : OpensAt i s (entryRead disk entry i s).2 := by
  have hread := frame_readBuffer disk (.slot i) (entryState entry i s)
    (fatClusterToLba (entryState entry i s) (entry.fileData (s.openedFiles i)).currentCluster)
  have hpos := (position_readBuffer disk (.slot i) (entryState entry i s)
    (fatClusterToLba (entryState entry i s) (entry.fileData (s.openedFiles i)).currentCluster)).1
  have hset : OpensAt i s (entryState entry i s) := opensAt_setFile rfl
  exact hset.trans ⟨hread.toContinues, hread.others, hpos.trans hset.position⟩

/-- Without a free slot the state remains. -/
theorem fatOpenEntry_frame (disk : Partition) (entry : FatDirectoryEntry) (s : FatState) :
    (fatOpenEntry disk entry s).2 = s ∨
      ∃ i, freeHandle s = some i ∧ OpensAt i s (fatOpenEntry disk entry s).2 := by
  cases hfree : freeHandle s with
  | none => exact .inl (by rw [fatOpenEntry_full hfree])
  | some i =>
      refine .inr ⟨i, rfl, ?_⟩
      have hat : OpensAt i s (entryRead disk entry i s).2 := opensAt_entryRead
      cases hread : entryRead disk entry i s with
      | mk ok t =>
      rw [hread] at hat
      cases ok with
      | false =>
          rw [fatOpenEntry_fails hfree hread]
          exact hat
      | true =>
          rw [fatOpenEntry_opens hfree hread]
          exact hat.trans (opensAt_setFile hat.position)

end

/-! ### One turn of `FAT_Open` -/

section

variable {disk : Partition} {fuel n : ℕ} {path : List Byte} {name : ℕ → Byte}
  {current : Option FatHandle} {s s₁ : FatState}

lemma fatOpenLoop_nil :
    fatOpenLoop disk fuel n [] name current s = (.ofPointer current, [], s) := by
  cases n <;> rfl

/-- A component that is found is closed and opened; its attributes do not matter. -/
lemma fatOpenLoop_found {entry : FatDirectoryEntry} (hpath : path ≠ [])
    (hfind : fatFindFile disk fuel current (passedName name path) s = (.found entry, s₁)) :
    fatOpenLoop disk fuel (n + 1) path name current s
      = let opened := fatOpenEntry disk entry (fatCloseCurrent current s₁)
        let rest := fatOpenLoop disk fuel n (restPath path) (componentBuffer name path) opened.1
          opened.2
        (rest.1, ⟨passedName name path, .found entry⟩ :: rest.2.1, rest.2.2) := by
  have hmask : (FAT_ATTRIBUTE_DIRECTORY = 0#8) = False := eq_false (by decide)
  rw [fatOpenLoop, if_neg hpath]
  simp only [hfind, hmask, ↓reduceIte, BitVec.and_zero, ne_eq, not_true_eq_false, decide_false,
    Bool.and_false, Bool.false_eq_true]

lemma fatOpenLoop_absent (hpath : path ≠ [])
    (hfind : fatFindFile disk fuel current (passedName name path) s = (.absent, s₁)) :
    fatOpenLoop disk fuel (n + 1) path name current s
      = (.null, [⟨passedName name path, .absent⟩], fatCloseCurrent current s₁) := by
  rw [fatOpenLoop, if_neg hpath]
  simp only [hfind]

lemma fatOpenLoop_endless (hpath : path ≠ [])
    (hfind : fatFindFile disk fuel current (passedName name path) s = (.endless, s₁)) :
    fatOpenLoop disk fuel (n + 1) path name current s
      = (.endless, [⟨passedName name path, .endless⟩], s₁) := by
  rw [fatOpenLoop, if_neg hpath]
  simp only [hfind]

lemma fatOpenLoop_nullHandle (hpath : path ≠ [])
    (hfind : fatFindFile disk fuel current (passedName name path) s = (.nullHandle, s₁)) :
    fatOpenLoop disk fuel (n + 1) path name current s
      = (.nullHandle, [⟨passedName name path, .nullHandle⟩], s₁) := by
  rw [fatOpenLoop, if_neg hpath]
  simp only [hfind]

end

end MiqOSoft
