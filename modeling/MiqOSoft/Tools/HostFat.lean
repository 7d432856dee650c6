import MiqOSoft.Boot.FatLayout
import MiqOSoft.Boot.FatRootDir

/-!
The FAT driver of the host tool, `tools/fat/fat.c`, which reads an image file, and the root
directory as it and the boot loader's driver deliver it.

* `FatImage`: the image file, and the volume that the boot loader finds on it.
* `HostState`, `hostInitialize`, `hostNextCluster`, `hostRead`: the variables and functions of the
  tool's driver under their names.
* `hostAfter_root`: where the tool's root handle stands after some entries: it goes on from the
  first sector of the directory to sector 1 of the image.
* `sameEntries_iff`: when the two drivers deliver the same entries.
-/

namespace MiqOSoft

open Machine

/-! ### The image -/

/-- An image file. -/
structure FatImage where
  bytes : ℕ → Byte
  size : ℕ

namespace FatImage

variable (image : FatImage)

/-- The volume that the boot loader finds on the image: reads past its end fail. -/
def partition : Partition where
  sector lba k := image.bytes (512 * lba.toNat + k)
  fails _ lba n := decide (image.size < 512 * (lba.toNat + n))

/-- The boot sector of the image. -/
def bootSector : FatBootSector := fatBootSector image.bytes

/-- The first sector of the root directory. -/
def rootLba : ℕ :=
  image.bootSector.reservedSectors.toNat +
    image.bootSector.sectorsPerFat.toNat * image.bootSector.fatCount.toNat

/-- `DirEntryCount`. -/
def entryCount : ℕ := image.bootSector.dirEntryCount.toNat

/-- A FAT12 image with sectors of 512 bytes, as far as its root directory is concerned: it is not
laid out as FAT32, and the file does not end in front of the end of the directory. -/
structure WellFormed : Prop where
  bytesPerSector : image.bootSector.bytesPerSector = 512#16
  sectorsPerFat : image.bootSector.sectorsPerFat ≠ 0#16
  complete : 512 * (image.rootLba + (image.entryCount + 15) / 16) ≤ image.size

end FatImage

/-! ### The tool's driver -/

/-- `MEMORY_FAT_SIZE`. -/
def MEMORY_FAT_SIZE : ℕ := 0x10000

/-- `sizeof(FAT_Data)`: the boot sector and eleven files of 544 bytes. -/
def SIZEOF_FAT_DATA : ℕ := 512 + 11 * 544

/-- The variables of the tool's driver.  `fat` is the memory at `g_Fat`. -/
structure HostState where
  bootSector : FatBootSector
  rootDirectory : FatFileData
  openedFiles : Fin MAX_FILE_HANDLES → FatFileData
  fat : ℕ → Byte
  dataSectionLba : Word

namespace HostState

/-- The `FAT_FileData` of a handle. -/
def file (h : HostState) : FatHandle → FatFileData
  | .root => h.rootDirectory
  | .slot i => h.openedFiles i

/-- Storing the `FAT_FileData` of a handle. -/
def setFile (h : HostState) : FatHandle → FatFileData → HostState
  | .root, fd => { h with rootDirectory := fd }
  | .slot i, fd => { h with openedFiles := Function.update h.openedFiles i fd }

end HostState

section driver

variable (image : FatImage)

/-- `DISK_ReadSectors`: whether `fread` has read a whole sector, and the memory it has read into.
It reads what there is in front of the end of the file. -/
def hostReadSectors (lba : Word) (sectors : Byte) (memory : ℕ → Byte) : Bool × (ℕ → Byte) :=
  let offset := (lba * 512#32).toNat
  (decide (0 < min sectors.toNat ((image.size - offset) / 512)), fun k =>
    if k < 512 * sectors.toNat ∧ offset + k < image.size then image.bytes (offset + k)
    else memory k)

/-- A read of one sector into the `Buffer` of a file. -/
def hostReadBuffer (file : FatHandle) (lba : Word) (h : HostState) : Bool × HostState :=
  match hostReadSectors image lba 1#8 (h.file file).buffer with
  | (ok, buffer) => (ok, h.setFile file { h.file file with buffer })

/-- `FAT_ReadBootSector`.  What a read that fails leaves in the boot sector is not looked at. -/
def hostReadBootSector (h : HostState) : Bool × HostState :=
  match hostReadSectors image 0#32 1#8 fun _ => 0#8 with
  | (false, _) => (false, h)
  | (true, bytes) => (true, { h with bootSector := fatBootSector bytes })

/-- `FAT_ReadFat`; the number of sectors is passed as a byte. -/
def hostReadFat (h : HostState) : Bool × HostState :=
  match hostReadSectors image (h.bootSector.reservedSectors.setWidth 32)
      (h.bootSector.sectorsPerFat.setWidth 8) h.fat with
  | (ok, fat) => (ok, { h with fat })

/-- `FAT_Initialize`: its result, or `none` when the division by `BytesPerSector` stops it. -/
def hostInitialize (h : HostState) : Option Bool × HostState :=
  match hostReadBootSector image h with
  | (false, h) => (some false, h)
  | (true, h) =>
      let bs := h.bootSector
      let fatSize := bs.bytesPerSector.setWidth 32 * bs.sectorsPerFat.setWidth 32
      if MEMORY_FAT_SIZE ≤ SIZEOF_FAT_DATA + fatSize.toNat then (some false, h)
      else
        match hostReadFat image h with
        | (false, h) => (some false, h)
        | (true, h) =>
            let rootDirLba := bs.reservedSectors.setWidth 32 +
              bs.sectorsPerFat.setWidth 32 * bs.fatCount.setWidth 32
            let rootDirSize := 32#32 * bs.dirEntryCount.setWidth 32
            let h := { h with
              rootDirectory := { h.rootDirectory with
                isDirectory := true
                position := 0#32
                size := rootDirSize
                opened := true
                firstCluster := 0#32
                currentCluster := 0#32
                currentSectorInCluster := 0#32 } }
            match hostReadBuffer image .root rootDirLba h with
            | (false, h) => (some false, h)
            | (true, h) =>
                if bs.bytesPerSector = 0#16 then (none, h)
                else
                  let bytesPerSector := bs.bytesPerSector.setWidth 32
                  (some true, { h with
                    dataSectionLba :=
                      rootDirLba + (rootDirSize + bytesPerSector - 1#32) / bytesPerSector
                    openedFiles := fun i => { h.openedFiles i with opened := false } })

/-- `FAT_ClusterToLba`. -/
def hostClusterToLba (h : HostState) (cluster : Word) : Word :=
  h.dataSectionLba + (cluster - 2#32) * h.bootSector.sectorsPerCluster.setWidth 32

/-- `FAT_NextCluster`. -/
def hostNextCluster (h : HostState) (currentCluster : Word) : Word :=
  let fatIndex := (currentCluster * 3#32 / 2#32).toNat
  let entry : Word := (halfAt h.fat fatIndex).setWidth 32
  if currentCluster % 2#32 = 0#32 then entry &&& 0x0FFF#32 else entry >>> 4

/-- What `FAT_Read` does when the buffer is used up; `false` is its `break`. -/
def hostNextSector (file : FatHandle) (h : HostState) : Bool × HostState :=
  match file with
  | .root =>
      let lba := h.rootDirectory.currentCluster + 1#32
      hostReadBuffer image .root lba
        (h.setFile .root { h.rootDirectory with currentCluster := lba })
  | .slot i =>
      let fd := h.openedFiles i
      let fd :=
        if h.bootSector.sectorsPerCluster.setWidth 32 ≤ fd.currentSectorInCluster + 1#32 then
          { fd with
            currentSectorInCluster := 0#32
            currentCluster := hostNextCluster h fd.currentCluster }
        else { fd with currentSectorInCluster := fd.currentSectorInCluster + 1#32 }
      if 0xFF8#32 ≤ fd.currentCluster then
        (false, h.setFile (.slot i) { fd with size := fd.position })
      else
        hostReadBuffer image (.slot i)
          (hostClusterToLba h fd.currentCluster + fd.currentSectorInCluster)
          (h.setFile (.slot i) fd)

/-- The loop of `FAT_Read`, for at most `fuel` turns: the bytes delivered. -/
def hostReadLoop (file : FatHandle) : ℕ → Word → HostState → List Byte × HostState
  | 0, _, h => ([], h)
  | fuel + 1, byteCount, h =>
      if byteCount = 0#32 then ([], h)
      else
        let fd := h.file file
        let take := wordMin byteCount fd.leftInBuffer
        let h := h.setFile file (fd.moved take)
        if fd.leftInBuffer = take then
          match hostNextSector image file h with
          | (false, h) => (fd.taken take, h)
          | (true, h) =>
              match hostReadLoop file fuel (byteCount - take) h with
              | (rest, h) => (fd.taken take ++ rest, h)
        else
          match hostReadLoop file fuel (byteCount - take) h with
          | (rest, h) => (fd.taken take ++ rest, h)

/-- `FAT_Read`: the bytes delivered.  A directory is read without a bound. -/
def hostRead (file : FatHandle) (byteCount : Word) (h : HostState) : List Byte × HostState :=
  let fd := h.file file
  let byteCount :=
    if fd.isDirectory then byteCount else wordMin byteCount (fd.size - fd.position)
  hostReadLoop image file byteCount.toNat byteCount h

/-- The state after `n` entries were read through a handle. -/
def hostAfter (file : FatHandle) (h : HostState) : ℕ → HostState
  | 0 => h
  | n + 1 => (hostRead image file 32#32 (hostAfter file h n)).2

/-- The bytes that `FAT_ReadEntry` of the tool reads as entry `n`. -/
def hostRecord (file : FatHandle) (h : HostState) (n : ℕ) : List Byte :=
  (hostRead image file 32#32 (hostAfter image file h n)).1

end driver

/-- The bytes that `FAT_ReadEntry` of the boot loader reads as entry `n`. -/
def bootRecord (disk : Partition) (file : FatHandle) (s : FatState) (n : ℕ) : List Byte :=
  (fatRead disk file 32#32 (afterEntries disk file s n)).1

/-! ### The root directory of the boot loader -/

section boot

variable {image : FatImage} {g s : FatState} {n : ℕ}

lemma bootSector_partition (image : FatImage) : image.partition.bootSector = image.bootSector := by
  simp [Partition.bootSector, FatImage.bootSector, fatBootSector, halfAt, wordAt,
    Partition.bytesAt, FatImage.partition]

lemma bytesAt_partition (lba : Word) {k : ℕ} (hk : k < 512) :
    image.partition.bytesAt lba k = image.bytes (512 * lba.toNat + k) := by
  rw [Partition.bytesAt, FatImage.partition, Nat.div_eq_of_lt hk, Nat.mod_eq_of_lt hk]
  simp

/-- The first sector behind the FATs, as the boot loader calculates it. -/
lemma toNat_fatEnd (hsize : image.bootSector.sectorsPerFat ≠ 0#16) :
    image.bootSector.fatEnd.toNat = image.rootLba := by
  have hreserved := image.bootSector.reservedSectors.isLt
  have hfat := image.bootSector.sectorsPerFat.isLt
  have hcount := image.bootSector.fatCount.isLt
  have hprod : image.bootSector.sectorsPerFat.toNat * image.bootSector.fatCount.toNat ≤
      65535 * 255 := Nat.mul_le_mul (by omega) (by omega)
  rw [FatBootSector.fatEnd, FatBootSector.fatSize, if_neg hsize, BitVec.toNat_add,
    BitVec.toNat_mul, BitVec.toNat_setWidth_of_le (by decide),
    BitVec.toNat_setWidth_of_le (by decide), BitVec.toNat_setWidth_of_le (by decide),
    FatImage.rootLba, Nat.mod_eq_of_lt (by omega),
    Nat.mod_eq_of_lt (by omega)]

/-- No address of the root directory wraps. -/
lemma toNat_rootSector (hsize : image.bootSector.sectorsPerFat ≠ 0#16) {m : ℕ} (hm : m ≤ 4096) :
    (image.bootSector.fatEnd + BitVec.ofNat 32 m).toNat = image.rootLba + m := by
  have hreserved := image.bootSector.reservedSectors.isLt
  have hfat := image.bootSector.sectorsPerFat.isLt
  have hcount := image.bootSector.fatCount.isLt
  have hprod : image.bootSector.sectorsPerFat.toNat * image.bootSector.fatCount.toNat ≤
      65535 * 255 := Nat.mul_le_mul (by omega) (by omega)
  have hlba : image.rootLba = image.bootSector.reservedSectors.toNat +
    image.bootSector.sectorsPerFat.toNat * image.bootSector.fatCount.toNat := rfl
  rw [BitVec.toNat_add, toNat_fatEnd hsize, toNat_ofNat_of_lt (by omega),
    Nat.mod_eq_of_lt (by omega)]

/-- A sector of the root directory that lies on the image goes through the buffer. -/
lemma buffer_walk_image (hsize : image.bootSector.sectorsPerFat ≠ 0#16)
    (hroot : s.rootDirectory.currentCluster = image.bootSector.fatEnd)
    (hbuffer : s.rootDirectory.buffer = image.partition.bytesAt image.bootSector.fatEnd) {m : ℕ}
    (hm : m ≤ 4096) (hin : 512 * (image.rootLba + m + 1) ≤ image.size) :
    (walk image.partition .root s m).rootDirectory.buffer =
      image.partition.bytesAt (image.bootSector.fatEnd + BitVec.ofNat 32 m) := by
  cases m with
  | zero => rw [walk, hbuffer, BitVec.add_zero]
  | succ m =>
      have hfails : image.partition.fails []
          (image.bootSector.fatEnd + BitVec.ofNat 32 (m + 1)) 1 = false := by
        rw [FatImage.partition]
        simp only [toNat_rootSector hsize hm]
        exact decide_eq_false (not_lt.mpr hin)
      rw [buffer_walk_root (fun _ => rfl), hroot, hfails]
      rfl

/-- **An entry as the boot loader reads it**: the records of the root directory in order. -/
theorem bootRecord_image (hwf : image.WellFormed)
    (hboot : fatInitialize image.partition g = (some true, s)) (hn : n < image.entryCount) :
    bootRecord image.partition .root s n =
      (List.range 32).map fun k => image.bytes (512 * image.rootLba + (32 * n + k)) := by
  have hready := fatInitialize_ready hboot
  obtain ⟨-, hs⟩ := fatInitialize_eq_ready hboot
  have hsize := hwf.sectorsPerFat
  have hbs : s.bootSector = image.bootSector := by
    rw [hs, bootSector_readyState, bootSector_partition]
  have hfirst : s.rootDirectory.firstCluster = image.bootSector.fatEnd := by
    rw [hs, firstCluster_readyState, bootSector_partition, FatBootSector.rootDirLba, if_neg hsize]
  have hcurrent : s.rootDirectory.currentCluster = image.bootSector.fatEnd := by
    rw [← hfirst, hready.root]
  have hbuffer : s.rootDirectory.buffer = image.partition.bytesAt image.bootSector.fatEnd := by
    rw [← hfirst]
    exact congrArg FatFileData.buffer hready.root
  have hcount : rootCount s = image.entryCount := by
    rw [rootCount, hbs]
    rfl
  have hlt := image.bootSector.dirEntryCount.isLt
  have hle : image.entryCount < 65536 := hlt
  have hpassed : passedEntries s n = n := by
    rw [passedEntries, hcount, if_neg (by omega), min_eq_left hn.le]
  have hmore : 32 * (n + 1) ≤ s.rootDirectory.size.toNat := by
    rw [toNat_size_root hready, hcount]
    omega
  rw [bootRecord, afterEntries_root hready, hpassed,
    fatRead_more (by rw [hready.root]) (Or.inr hmore)]
  refine List.map_congr_left fun k hk => ?_
  have hk : k < 32 := List.mem_range.mp hk
  have hdiv : (32 * n + k) / 512 = n / 16 := by omega
  have hin : 512 * (image.rootLba + n / 16 + 1) ≤ image.size := by
    have hcomplete := hwf.complete
    omega
  rw [dirByte, FatState.file, hdiv, buffer_walk_image hsize hcurrent hbuffer (by omega) hin,
    bytesAt_partition _ (Nat.mod_lt _ (by decide)), toNat_rootSector hsize (by omega)]
  congr 1
  omega

end boot

/-! ### The root directory of the tool -/

section host

variable {image : FatImage} {h₀ h : HostState} {n : ℕ}

lemma toNat_offset {lba : Word} (hlba : lba.toNat < 2 ^ 23) :
    (lba * 512#32).toNat = 512 * lba.toNat := by
  rw [BitVec.toNat_mul, BitVec.toNat_ofNat]
  omega

/-- A sector inside the image is read. -/
lemma hostReadSectors_of_le {lba : Word} (hlba : lba.toNat < 2 ^ 23)
    (hin : 512 * (lba.toNat + 1) ≤ image.size) (memory : ℕ → Byte) :
    (hostReadSectors image lba 1#8 memory).1 = true := by
  have hone : 1 ≤ (image.size - 512 * lba.toNat) / 512 := by omega
  rw [hostReadSectors, toNat_offset hlba]
  exact decide_eq_true (lt_min (by decide) hone)

/-- What a sector that is read holds. -/
lemma bytes_hostReadSectors {lba : Word} (hlba : lba.toNat < 2 ^ 23) {memory bytes : ℕ → Byte}
    (h : hostReadSectors image lba 1#8 memory = (true, bytes)) {k : ℕ} (hk : k < 512) :
    bytes k = image.bytes (512 * lba.toNat + k) := by
  rw [hostReadSectors, toNat_offset hlba] at h
  obtain ⟨hok, hbytes⟩ := Prod.mk.inj h
  have hone : 0 < (image.size - 512 * lba.toNat) / 512 := (lt_min_iff.mp (of_decide_eq_true hok)).2
  have hin : k < 512 * (1#8).toNat ∧ 512 * lba.toNat + k < image.size := ⟨hk, by omega⟩
  rw [← hbytes]
  exact if_pos hin

/-- The root handle moves on to the next sector of the image. -/
lemma hostNextSector_root {lba : Word} (hnext : h.rootDirectory.currentCluster + 1#32 = lba)
    (hlba : lba.toNat < 2 ^ 23) (hin : 512 * (lba.toNat + 1) ≤ image.size) :
    ∃ buffer, hostNextSector image .root h = (true, { h with
        rootDirectory := { h.rootDirectory with currentCluster := lba, buffer } }) ∧
      ∀ k < 512, buffer k = image.bytes (512 * lba.toNat + k) := by
  subst hnext
  have hok := hostReadSectors_of_le hlba hin h.rootDirectory.buffer
  cases hread : hostReadSectors image (h.rootDirectory.currentCluster + 1#32) 1#8
      h.rootDirectory.buffer with
  | mk ok buffer =>
  rw [hread] at hok
  obtain rfl : ok = true := hok
  refine ⟨buffer, ?_, fun k hk => bytes_hostReadSectors hlba hread hk⟩
  rw [hostNextSector, hostReadBuffer]
  dsimp only [HostState.file, HostState.setFile]
  rw [hread]

lemma fatBootSector_congr {b b' : ℕ → Byte} (h : ∀ k < 512, b k = b' k) :
    fatBootSector b = fatBootSector b' := by
  simp [fatBootSector, halfAt, wordAt, h]

/-- The boot sector that the tool reads. -/
lemma hostReadBootSector_true (h : (hostReadBootSector image h₀).1 = true) :
    hostReadBootSector image h₀ = (true, { h₀ with bootSector := image.bootSector }) := by
  rw [hostReadBootSector] at h ⊢
  cases hread : hostReadSectors image 0#32 1#8 fun _ => 0#8 with
  | mk ok bytes =>
  rw [hread] at h
  cases ok with
  | false => exact absurd h Bool.false_ne_true
  | true =>
      have hbytes : fatBootSector bytes = image.bootSector :=
        fatBootSector_congr fun k hk => by
          rw [bytes_hostReadSectors (by decide) hread hk]
          simp
      rw [← hbytes]

/-- The sector in the buffer of the tool's root handle, `m` sectors behind the first one. -/
def FatImage.hostSector (image : FatImage) (m : ℕ) : ℕ := if m = 0 then image.rootLba else m

/-- The tool's root handle stands in front of entry `n`. -/
structure HostRoot (image : FatImage) (n : ℕ) (h : HostState) : Prop where
  isDirectory : h.rootDirectory.isDirectory = true
  position : h.rootDirectory.position.toNat = 32 * n
  currentCluster : h.rootDirectory.currentCluster = BitVec.ofNat 32 (n / 16)
  buffer : ∀ k < 512,
    h.rootDirectory.buffer k = image.bytes (512 * image.hostSector (n / 16) + k)

/-- What the tool's `FAT_Initialize` has done for the root directory when it returns true. -/
lemma hostInitialize_root (hhost : hostInitialize image h₀ = (some true, h)) :
    SIZEOF_FAT_DATA + (image.bootSector.bytesPerSector.setWidth 32 *
        image.bootSector.sectorsPerFat.setWidth 32).toNat < MEMORY_FAT_SIZE ∧
      h.rootDirectory.isDirectory = true ∧ h.rootDirectory.position = 0#32 ∧
      h.rootDirectory.currentCluster = 0#32 ∧
      ∃ memory, hostReadSectors image (image.bootSector.reservedSectors.setWidth 32 +
          image.bootSector.sectorsPerFat.setWidth 32 * image.bootSector.fatCount.setWidth 32)
        1#8 memory = (true, h.rootDirectory.buffer) := by
  rw [hostInitialize] at hhost
  cases hboot : hostReadBootSector image h₀ with
  | mk ok h₁ =>
  rw [hboot] at hhost
  cases ok with
  | false => cases hhost
  | true =>
  have hboot' := hostReadBootSector_true (congrArg Prod.fst hboot)
  obtain rfl : h₁ = _ := (Prod.mk.inj (hboot.symm.trans hboot')).2
  dsimp only at hhost
  by_cases hmemory : MEMORY_FAT_SIZE ≤ SIZEOF_FAT_DATA +
      (image.bootSector.bytesPerSector.setWidth 32 *
        image.bootSector.sectorsPerFat.setWidth 32).toNat
  · rw [if_pos hmemory] at hhost
    cases hhost
  rw [if_neg hmemory] at hhost
  split at hhost
  · cases hhost
  rename_i h₂ hfat
  split at hhost
  · cases hhost
  rename_i h₃ hroot
  split_ifs at hhost with hbytes
  · cases hhost
  obtain rfl := (Prod.mk.inj hhost).2
  rw [hostReadBuffer] at hroot
  cases hread : hostReadSectors image (image.bootSector.reservedSectors.setWidth 32 +
      image.bootSector.sectorsPerFat.setWidth 32 * image.bootSector.fatCount.setWidth 32)
      1#8 h₂.rootDirectory.buffer with
  | mk ok buffer =>
  rw [HostState.file, hread] at hroot
  obtain ⟨rfl, rfl⟩ := Prod.mk.inj hroot
  exact ⟨not_le.mp hmemory, rfl, rfl, rfl, _, hread⟩

lemma hostReadLoop_zero (file : FatHandle) (fuel : ℕ) (h : HostState) :
    hostReadLoop image file fuel 0#32 h = ([], h) := by
  cases fuel <;> rfl

/-- An entry is taken from the buffer in one turn; the next sector is read behind the last one. -/
lemma hostRead_entry (hroot : HostRoot image n h) :
    hostRead image .root 32#32 h =
      (h.rootDirectory.taken 32#32,
        if n % 16 = 15 then
          (hostNextSector image .root (h.setFile .root (h.rootDirectory.moved 32#32))).2
        else h.setFile .root (h.rootDirectory.moved 32#32)) := by
  have hleft : h.rootDirectory.leftInBuffer.toNat = 512 - 32 * (n % 16) := by
    rw [toNat_leftInBuffer, hroot.position]
    omega
  have htake : wordMin 32#32 h.rootDirectory.leftInBuffer = 32#32 := by
    refine BitVec.eq_of_toNat_eq ?_
    rw [toNat_wordMin, hleft]
    change min 32 _ = 32
    omega
  have hlast : h.rootDirectory.leftInBuffer = 32#32 ↔ n % 16 = 15 := by
    rw [← BitVec.toNat_inj, hleft]
    change _ = 32 ↔ _
    omega
  have hcount : (if (h.file .root).isDirectory then 32#32
      else wordMin 32#32 ((h.file .root).size - (h.file .root).position)) = 32#32 :=
    if_pos hroot.isDirectory
  rw [hostRead, hcount]
  change hostReadLoop image .root (31 + 1) 32#32 h = _
  rw [hostReadLoop, if_neg (by decide)]
  dsimp only [HostState.file]
  rw [htake, BitVec.sub_self]
  by_cases hmod : n % 16 = 15
  · rw [if_pos (hlast.mpr hmod), if_pos hmod]
    cases hostNextSector image .root (h.setFile .root (h.rootDirectory.moved 32#32)) with
    | mk ok t => cases ok <;> simp [hostReadLoop_zero]
  · rw [if_neg (mt hlast.mp hmod), if_neg hmod, hostReadLoop_zero, List.append_nil]

/-- The bytes of the entry that the root handle stands in front of. -/
lemma taken_root (hroot : HostRoot image n h) :
    h.rootDirectory.taken 32#32 = (List.range 32).map fun k =>
      image.bytes (512 * image.hostSector (n / 16) + (32 * (n % 16) + k)) := by
  have hmod : (h.rootDirectory.position % SECTOR_SIZE).toNat = 32 * (n % 16) := by
    rw [BitVec.toNat_umod, hroot.position]
    change 32 * n % 512 = _
    omega
  rw [FatFileData.taken, hmod]
  refine List.map_congr_left fun k hk => ?_
  have hk : k < 32 := List.mem_range.mp hk
  exact hroot.buffer _ (by omega)

/-- The root handle behind an entry. -/
lemma hostRoot_succ (hroot : HostRoot image n h) (hn : n + 1 < 2 ^ 16)
    (hin : 512 * ((n + 1) / 16 + 1) ≤ image.size) :
    HostRoot image (n + 1) (hostRead image .root 32#32 h).2 := by
  rw [hostRead_entry hroot]
  dsimp only
  have hposition : (h.rootDirectory.moved 32#32).position.toNat = 32 * (n + 1) := by
    rw [FatFileData.moved, BitVec.toNat_add, hroot.position, BitVec.toNat_ofNat]
    omega
  by_cases hmod : n % 16 = 15
  · have hnext : h.rootDirectory.currentCluster + 1#32 = BitVec.ofNat 32 ((n + 1) / 16) := by
      rw [hroot.currentCluster, show (n + 1) / 16 = n / 16 + 1 by omega, BitVec.ofNat_add]
    have hlba : (BitVec.ofNat 32 ((n + 1) / 16)).toNat = (n + 1) / 16 :=
      toNat_ofNat_of_lt (by omega)
    have hsector : image.hostSector ((n + 1) / 16) = (n + 1) / 16 := if_neg (by omega)
    obtain ⟨buffer, hmove, hbuffer⟩ := @hostNextSector_root image
      (h.setFile .root (h.rootDirectory.moved 32#32)) _ hnext (by omega) (by rwa [hlba])
    rw [hlba] at hbuffer
    rw [if_pos hmod, hmove]
    exact ⟨hroot.isDirectory, hposition, rfl, by rw [hsector]; exact hbuffer⟩
  · rw [if_neg hmod]
    have hdiv : (n + 1) / 16 = n / 16 := by omega
    exact ⟨hroot.isDirectory, hposition, by rw [hdiv]; exact hroot.currentCluster,
      by rw [hdiv]; exact hroot.buffer⟩

/-- **The tool's root handle** goes on from the first sector of the directory to sector 1 of the
image. -/
theorem hostAfter_root (hwf : image.WellFormed) (hstart : HostRoot image 0 h)
    (hn : n < image.entryCount) : HostRoot image n (hostAfter image .root h n) := by
  induction n with
  | zero => exact hstart
  | succ n ih =>
      have hcount : image.entryCount < 2 ^ 16 := image.bootSector.dirEntryCount.isLt
      have hcomplete := hwf.complete
      exact hostRoot_succ (ih (by omega)) (by omega) (by omega)

/-- The tool's root handle after `FAT_Initialize`. -/
lemma hostRoot_ready (hwf : image.WellFormed)
    (hhost : hostInitialize image h₀ = (some true, h)) : HostRoot image 0 h := by
  obtain ⟨hmemory, hdir, hposition, hcluster, memory, hread⟩ := hostInitialize_root hhost
  have hreserved := image.bootSector.reservedSectors.isLt
  have hcount := image.bootSector.fatCount.isLt
  have hfat : image.bootSector.sectorsPerFat.toNat ≤ 115 := by
    have hlt := image.bootSector.sectorsPerFat.isLt
    rw [hwf.bytesPerSector, BitVec.toNat_mul, BitVec.toNat_setWidth, BitVec.toNat_setWidth,
      SIZEOF_FAT_DATA, MEMORY_FAT_SIZE, BitVec.toNat_ofNat] at hmemory
    simp only [Nat.reducePow, Nat.reduceMod] at hmemory
    omega
  have hprod : image.bootSector.sectorsPerFat.toNat * image.bootSector.fatCount.toNat ≤
      115 * 255 := Nat.mul_le_mul hfat (by omega)
  have hlba : (image.bootSector.reservedSectors.setWidth 32 +
      image.bootSector.sectorsPerFat.setWidth 32 *
        image.bootSector.fatCount.setWidth 32).toNat = image.rootLba := by
    have hend := @toNat_fatEnd image hwf.sectorsPerFat
    rwa [FatBootSector.fatEnd, FatBootSector.fatSize, if_neg hwf.sectorsPerFat] at hend
  have hbound : image.rootLba < 2 ^ 23 := by
    rw [FatImage.rootLba]
    omega
  refine ⟨hdir, by rw [hposition]; rfl, hcluster, fun k hk => ?_⟩
  rw [bytes_hostReadSectors (by rw [hlba]; exact hbound) hread hk, hlba]
  rfl

/-- **An entry as the tool reads it**. -/
theorem hostRecord_image (hwf : image.WellFormed)
    (hhost : hostInitialize image h₀ = (some true, h)) (hn : n < image.entryCount) :
    hostRecord image .root h n = (List.range 32).map fun k =>
      image.bytes (512 * image.hostSector (n / 16) + (32 * (n % 16) + k)) := by
  have hroot := hostAfter_root hwf (hostRoot_ready hwf hhost) hn
  rw [hostRecord, hostRead_entry hroot]
  exact taken_root hroot

end host

/-! ### The two drivers -/

/-- **When the two drivers deliver the same entries**: on a FAT12 image that both have initialised,
the entries of the root directory that `DirEntryCount` counts are the same if and only if those
from number 16 on are found at the front of the image as well, at the same distance. -/
theorem sameEntries_iff {image : FatImage} (hwf : image.WellFormed) {g s : FatState}
    (hboot : fatInitialize image.partition g = (some true, s)) {h₀ h : HostState}
    (hhost : hostInitialize image h₀ = (some true, h)) :
    (∀ n < image.entryCount, hostRecord image .root h n = bootRecord image.partition .root s n) ↔
      ∀ n, 16 ≤ n → n < image.entryCount → ∀ k < 32,
        image.bytes (32 * n + k) = image.bytes (512 * image.rootLba + (32 * n + k)) := by
  have hrecords : ∀ n < image.entryCount,
      (hostRecord image .root h n = bootRecord image.partition .root s n ↔ ∀ k < 32,
        image.bytes (512 * image.hostSector (n / 16) + (32 * (n % 16) + k)) =
          image.bytes (512 * image.rootLba + (32 * n + k))) := by
    intro n hn
    rw [hostRecord_image hwf hhost hn, bootRecord_image hwf hboot hn]
    simp only [List.map_inj_left, List.mem_range]
  constructor
  · intro hsame n hge hn k hk
    have hbyte := (hrecords n hn).mp (hsame n hn) k hk
    rw [FatImage.hostSector, if_neg (by omega)] at hbyte
    rw [← hbyte]
    congr 1
    omega
  · intro hbytes n hn
    refine (hrecords n hn).mpr fun k hk => ?_
    rcases Nat.lt_or_ge n 16 with hlt | hge
    · rw [FatImage.hostSector, if_pos (by omega)]
      congr 1
      omega
    · rw [FatImage.hostSector, if_neg (by omega), ← hbytes n hge hn k hk]
      congr 1
      omega

/-- A FAT12 image of 64 sectors with `count` entries in its root directory, the last file of which
is entry 16. -/
def smallImage (count : Byte) : FatImage where
  bytes k :=
    (([(11, [0x00#8, 0x02#8, 0x01#8, 0x01#8, 0x00#8, 0x01#8, count, 0x00#8, 0x40#8, 0x00#8, 0xF0#8,
      0x01#8, 0x00#8]), (512, [0xF0#8, 0xFF#8, 0xFF#8]), (1024, ascii "KERNEL  ELF"),
      (1536, ascii "README  TXT")] : List (ℕ × List Byte)).findSome? fun (o, bytes) =>
        if o ≤ k then bytes[k - o]? else none).getD 0#8
  size := 64 * 512

/-- The tool's memory before it is used. -/
def blankHost : HostState :=
  ⟨blankState.bootSector, blankState.rootDirectory, blankState.openedFiles, fun _ => 0#8, 0#32⟩

/-- **Where they part**: of 32 entries the tool takes number 16 from the FAT. -/
theorem not_sameEntries_smallImage :
    (smallImage 0x20#8).WellFormed ∧
      ∃ s h, fatInitialize (smallImage 0x20#8).partition blankState = (some true, s) ∧
        hostInitialize (smallImage 0x20#8) blankHost = (some true, h) ∧
        (hostRecord (smallImage 0x20#8) .root h 16).take 3 = [0xF0#8, 0xFF#8, 0xFF#8] ∧
        (bootRecord (smallImage 0x20#8).partition .root s 16).take 3 = ascii "REA" ∧
        ¬∀ n < (smallImage 0x20#8).entryCount, hostRecord (smallImage 0x20#8) .root h n
          = bootRecord (smallImage 0x20#8).partition .root s n := by
  refine ⟨⟨by decide +kernel, by decide +kernel, by decide +kernel⟩, _, _,
    Prod.ext (by decide +kernel) rfl, Prod.ext (by decide +kernel) rfl, by decide +kernel,
    by decide +kernel, fun hsame => ?_⟩
  exact absurd (hsame 16 (by decide +kernel)) (by decide +kernel)

/-- On an image with 16 entries the two drivers agree. -/
theorem sameEntries_smallImage :
    ∃ s h, fatInitialize (smallImage 0x10#8).partition blankState = (some true, s) ∧
      hostInitialize (smallImage 0x10#8) blankHost = (some true, h) ∧
      ∀ n < (smallImage 0x10#8).entryCount, hostRecord (smallImage 0x10#8) .root h n
        = bootRecord (smallImage 0x10#8).partition .root s n := by
  have hboot : fatInitialize (smallImage 0x10#8).partition blankState =
      (some true, (fatInitialize (smallImage 0x10#8).partition blankState).2) :=
    Prod.ext (by decide +kernel) rfl
  have hhost : hostInitialize (smallImage 0x10#8) blankHost =
      (some true, (hostInitialize (smallImage 0x10#8) blankHost).2) :=
    Prod.ext (by decide +kernel) rfl
  refine ⟨_, _, hboot, hhost, (sameEntries_iff ⟨by decide +kernel, by decide +kernel,
    by decide +kernel⟩ hboot hhost).mpr fun n hge hn => ?_⟩
  exact absurd hn (not_lt.mpr (le_trans (by decide +kernel) hge))

end MiqOSoft
