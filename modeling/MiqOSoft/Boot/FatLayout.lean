import MiqOSoft.Boot.FatSteps

/-!
The layout of a volume that `FAT_Initialize` calculates, as a function of the boot sector.

* `FatBootSector.dataLba`, `FatBootSector.dataClusters`, …: the values calculated.
* `fatInitialize_layout`: the state after `FAT_Initialize` has them.
* `width_agrees_iff`: `FAT_Detect` and `FAT_Initialize` take a volume for FAT32 by different tests.
* `fatInitializeChecked`: `FAT_Initialize` with every subtraction and division of the layout
  checked; `soundLayout_iff` says when no check fails.
-/

namespace MiqOSoft

open Machine

/-! ### The values -/

namespace FatBootSector

variable (bs : FatBootSector)

/-- `g_TotalSectors`. -/
def totalSectorCount : Word :=
  if bs.totalSectors = 0#16 then bs.largeSectorCount else bs.totalSectors.setWidth 32

/-- `g_SectorsPerFat`. -/
def fatSize : Word :=
  if bs.sectorsPerFat = 0#16 then bs.ebr32SectorsPerFat else bs.sectorsPerFat.setWidth 32

/-- The first sector behind the FATs. -/
def fatEnd : Word := bs.reservedSectors.setWidth 32 + bs.fatSize * bs.fatCount.setWidth 32

/-- `rootDirSize`, of a volume that is not FAT32. -/
def rootDirSize : Word := 32#32 * bs.dirEntryCount.setWidth 32

/-- `g_DataSectionLba`. -/
def dataLba : Word :=
  if bs.sectorsPerFat = 0#16 then bs.fatEnd
  else bs.fatEnd +
    (bs.rootDirSize + bs.bytesPerSector.setWidth 32 - 1#32) / bs.bytesPerSector.setWidth 32

/-- `rootDirLba`. -/
def rootDirLba : Word :=
  if bs.sectorsPerFat = 0#16 then
    bs.dataLba + (bs.ebr32RootDirectoryCluster - 2#32) * bs.sectorsPerCluster.setWidth 32
  else bs.fatEnd

/-- `dataClusters` of `FAT_Detect`. -/
def dataClusters : Word :=
  (bs.totalSectorCount - bs.dataLba) / bs.sectorsPerCluster.setWidth 32

end FatBootSector

/-- The boot sector of a partition. -/
def Partition.bootSector (disk : Partition) : FatBootSector := fatBootSector (disk.bytesAt 0#32)

section layout

variable (s : FatState)

@[simp] lemma bootSector_fatLayout : (fatLayout s).bootSector = s.bootSector := rfl

lemma dataSectionLba_fatLayout : (fatLayout s).dataSectionLba = s.bootSector.dataLba := by
  by_cases h : s.bootSector.sectorsPerFat = 0#16 <;>
    simp [fatLayout, FatBootSector.dataLba, FatBootSector.fatEnd, FatBootSector.fatSize,
      FatBootSector.rootDirSize, h]

lemma firstCluster_fatLayout :
    (fatLayout s).rootDirectory.firstCluster = s.bootSector.rootDirLba := by
  by_cases h : s.bootSector.sectorsPerFat = 0#16 <;>
    simp [fatLayout, fatClusterToLba, FatBootSector.rootDirLba, FatBootSector.dataLba,
      FatBootSector.fatEnd, FatBootSector.fatSize, h]

end layout

/-- The state after the boot sector has been read. -/
def bootedState (disk : Partition) (g : FatState) : FatState :=
  { g with bootSector := disk.bootSector, requests := (0#32, 1) :: g.requests }

section boot

variable {disk : Partition} {g : FatState}

lemma bootSector_bootedState (disk : Partition) (g : FatState) :
    (bootedState disk g).bootSector = disk.bootSector := rfl

lemma fatReadBootSector_of_fails (h : disk.fails g.requests 0#32 1 = true) :
    fatReadBootSector disk g = (false, { g with requests := (0#32, 1) :: g.requests }) := by
  rw [fatReadBootSector, partitionReadSectors, if_pos h]

lemma fatReadBootSector_of_not_fails (h : disk.fails g.requests 0#32 1 = false) :
    fatReadBootSector disk g = (true, bootedState disk g) := by
  rw [fatReadBootSector, partitionReadSectors, if_neg (by rw [h]; exact Bool.false_ne_true)]
  rfl

end boot

/-- The state that `FAT_Detect` starts from. -/
def detectState (disk : Partition) (g : FatState) : FatState :=
  { fatLayout (bootedState disk g) with
    rootDirectory := { (fatLayout (bootedState disk g)).rootDirectory with
      buffer := disk.bytesAt (fatLayout (bootedState disk g)).rootDirectory.firstCluster }
    requests := ((fatLayout (bootedState disk g)).rootDirectory.firstCluster, 1) ::
      (fatLayout (bootedState disk g)).requests }

/-- The state that `FAT_Initialize` leaves when it returns true. -/
def readyState (disk : Partition) (g : FatState) : FatState :=
  { fatDetect (detectState disk g) with
    openedFiles := fun i => { g.openedFiles i with opened := false } }

/-- What `FAT_Initialize` has done when it returns true. -/
lemma fatInitialize_eq_ready {disk : Partition} {g s : FatState}
    (h : fatInitialize disk g = (some true, s)) :
    disk.bootSector.sectorsPerCluster ≠ 0#8 ∧ s = readyState disk g := by
  cases hboot : disk.fails g.requests 0#32 1 with
  | true =>
      rw [fatInitialize, fatReadBootSector_of_fails hboot] at h
      cases h
  | false =>
      rw [fatInitialize, fatReadBootSector_of_not_fails hboot] at h
      dsimp only at h
      split_ifs at h with hbytes
      · cases h
      cases hroot : disk.fails (fatLayout (bootedState disk g)).requests
          (fatLayout (bootedState disk g)).rootDirectory.firstCluster 1 with
      | true =>
          rw [fatReadBuffer_of_fails hroot] at h
          cases h
      | false =>
          rw [fatReadBuffer_of_not_fails hroot] at h
          dsimp only at h
          split_ifs at h with hzero
          · cases h
          exact ⟨hzero, (Prod.mk.inj h).2.symm⟩

section ready

variable (disk : Partition) (g : FatState)

@[simp] lemma bootSector_readyState : (readyState disk g).bootSector = disk.bootSector := rfl

lemma totalSectors_readyState :
    (readyState disk g).totalSectors = disk.bootSector.totalSectorCount := rfl

lemma dataSectionLba_readyState :
    (readyState disk g).dataSectionLba = disk.bootSector.dataLba :=
  dataSectionLba_fatLayout (bootedState disk g)

lemma firstCluster_readyState :
    (readyState disk g).rootDirectory.firstCluster = disk.bootSector.rootDirLba :=
  firstCluster_fatLayout (bootedState disk g)

/-- The width of the FAT that `FAT_Detect` chooses. -/
theorem fatType_readyState : (readyState disk g).fatType =
    if disk.bootSector.dataClusters < 0xFF5#32 then .fat12
    else if disk.bootSector.sectorsPerFat ≠ 0#16 then .fat16 else .fat32 := by
  have hdata : (detectState disk g).dataSectionLba = disk.bootSector.dataLba :=
    dataSectionLba_fatLayout (bootedState disk g)
  rw [FatBootSector.dataClusters, ← hdata]
  rfl

end ready

/-! ### The width of the FAT -/

/-- **The width and the layout agree** after `FAT_Initialize` exactly on volumes whose FAT size is
taken from the 16-bit field, and on volumes with as many clusters as FAT16 has at least. -/
theorem width_agrees_iff {disk : Partition} {g s : FatState}
    (h : fatInitialize disk g = (some true, s)) :
    (s.fatType = .fat32 ↔ s.bootSector.sectorsPerFat = 0#16) ↔
      disk.bootSector.sectorsPerFat ≠ 0#16 ∨ 0xFF5#32 ≤ disk.bootSector.dataClusters := by
  obtain ⟨-, rfl⟩ := fatInitialize_eq_ready h
  rw [fatType_readyState, bootSector_readyState]
  by_cases hsize : disk.bootSector.sectorsPerFat = 0#16
  · by_cases hcount : disk.bootSector.dataClusters < 0xFF5#32
    · simp [hsize, hcount]
    · simp [hsize, hcount, BitVec.not_lt.mp hcount]
  · by_cases hcount : disk.bootSector.dataClusters < 0xFF5#32 <;> simp [hsize, hcount]

example : (fatInitialize (Partition.image 5000 fat32Pieces) blankState).2.fatType = .fat32 := by
  decide +kernel

/-- The boot sector of a FAT32 volume with 4000 sectors, one to a cluster. -/
def smallFat32Pieces : List (ℕ × ℕ × List Byte) := [
  (0, 11, [0x00#8, 0x02#8, 0x01#8, 0x20#8, 0x00#8, 0x01#8, 0x00#8, 0x00#8, 0x00#8, 0x00#8,
    0xF8#8, 0x00#8, 0x00#8]),
  (0, 32, [0xA0#8, 0x0F#8, 0x00#8, 0x00#8, 0x20#8, 0x00#8, 0x00#8, 0x00#8]),
  (0, 44, [0x02#8, 0x00#8, 0x00#8, 0x00#8])]

/-- A small FAT32 volume. -/
def smallFat32Disk : Partition := Partition.image 4000 smallFat32Pieces

/-- A small FAT32 volume is read with a FAT of 12 bits. -/
theorem width_disagrees_smallFat32 :
    ∃ s, fatInitialize smallFat32Disk blankState = (some true, s) ∧
      s.bootSector.sectorsPerFat = 0#16 ∧ s.fatType = .fat12 ∧
      ¬(s.fatType = .fat32 ↔ s.bootSector.sectorsPerFat = 0#16) := by
  refine ⟨_, Prod.ext (by decide +kernel) rfl, by decide +kernel, by decide +kernel, ?_⟩
  decide +kernel

/-- On a volume with 4928 clusters they agree. -/
theorem width_agrees_image :
    ∃ s, fatInitialize (Partition.image 5000 fat32Pieces) blankState = (some true, s) ∧
      (s.fatType = .fat32 ↔ s.bootSector.sectorsPerFat = 0#16) := by
  have hready : fatInitialize (Partition.image 5000 fat32Pieces) blankState =
      (some true, (fatInitialize (Partition.image 5000 fat32Pieces) blankState).2) :=
    Prod.ext (by decide +kernel) rfl
  exact ⟨_, hready, (width_agrees_iff hready).mpr (Or.inr (by decide +kernel))⟩

/-! ### The arithmetic of the layout, checked -/

/-- A subtraction of unsigned words, undefined where it wraps. -/
def subChecked (a b : Word) : Option Word := if b ≤ a then some (a - b) else none

/-- A division, undefined by zero. -/
def divChecked (a b : Word) : Option Word := if b = 0#32 then none else some (a / b)

/-- `FAT_ClusterToLba`, checked. -/
def fatClusterToLbaChecked (s : FatState) (cluster : Word) : Option Word := do
  let index ← subChecked cluster 2#32
  some (s.dataSectionLba + index * s.bootSector.sectorsPerCluster.setWidth 32)

/-- `FAT_Detect`, checked. -/
def fatDetectChecked (s : FatState) : Option FatState := do
  let dataSectors ← subChecked s.totalSectors s.dataSectionLba
  let dataClusters ← divChecked dataSectors (s.bootSector.sectorsPerCluster.setWidth 32)
  some { s with fatType :=
    if dataClusters < 0xFF5#32 then .fat12
    else if s.bootSector.sectorsPerFat ≠ 0#16 then .fat16
    else .fat32 }

/-- The layout of `FAT_Initialize`, checked. -/
def fatLayoutChecked (s : FatState) : Option FatState := do
  let bs := s.bootSector
  let isFat32 := decide (bs.sectorsPerFat = 0#16)
  let rootDirSize := 32#32 * bs.dirEntryCount.setWidth 32
  let bytesPerSector := bs.bytesPerSector.setWidth 32
  let sectorsPerFat :=
    if isFat32 then bs.ebr32SectorsPerFat else bs.sectorsPerFat.setWidth 32
  let fatEnd := bs.reservedSectors.setWidth 32 + sectorsPerFat * bs.fatCount.setWidth 32
  let dataSectionLba ←
    if isFat32 then some fatEnd
    else do
      let rounded ← subChecked (rootDirSize + bytesPerSector) 1#32
      let rootDirSectors ← divChecked rounded bytesPerSector
      some (fatEnd + rootDirSectors)
  let s := { s with
    fatCachePosition := 0xFFFFFFFF#32
    totalSectors :=
      if bs.totalSectors = 0#16 then bs.largeSectorCount else bs.totalSectors.setWidth 32
    sectorsPerFat
    dataSectionLba }
  let rootDirLba ←
    if isFat32 then fatClusterToLbaChecked s bs.ebr32RootDirectoryCluster else some fatEnd
  some { s with
    rootDirectory := { s.rootDirectory with
      isDirectory := true
      position := 0#32
      size := rootDirSize
      opened := true
      firstCluster := rootDirLba
      currentCluster := rootDirLba
      currentSectorInCluster := 0#32 } }

/-- `FAT_Initialize` with its layout arithmetic checked: `none` where a subtraction wraps or a
division is by zero. -/
def fatInitializeChecked (disk : Partition) (s : FatState) : Option (Bool × FatState) :=
  match fatReadBootSector disk s with
  | (false, s) => some (false, s)
  | (true, s) => do
      let s ← fatLayoutChecked s
      match fatReadBuffer disk .root s.rootDirectory.firstCluster s with
      | (false, s) => some (false, s)
      | (true, s) => do
          let t ← fatDetectChecked s
          some (true, { t with openedFiles := fun i => { s.openedFiles i with opened := false } })

/-- The layout arithmetic does not fail: the result is false, or it is true with a layout that the
rest of the driver can work with. -/
def SoundLayout (disk : Partition) (g : FatState) : Prop :=
  ∃ result s, fatInitializeChecked disk g = some (result, s) ∧
    fatInitialize disk g = (some result, s) ∧
    (result = true → 0 < s.bootSector.sectorsPerCluster.toNat ∧
      0 < s.bootSector.bytesPerSector.toNat ∧ s.dataSectionLba ≤ s.totalSectors)

section checked

variable {s : FatState}

lemma subChecked_of_le {a b : Word} (h : b ≤ a) : subChecked a b = some (a - b) := if_pos h

lemma subChecked_of_not_le {a b : Word} (h : ¬b ≤ a) : subChecked a b = none := if_neg h

lemma divChecked_of_ne {a b : Word} (h : b ≠ 0#32) : divChecked a b = some (a / b) := if_neg h

lemma divChecked_zero (a : Word) : divChecked a 0#32 = none := if_pos rfl

lemma setWidth_eq_zero_iff {w : ℕ} (hw : w ≤ 32) {b : BitVec w} :
    b.setWidth 32 = 0#32 ↔ b = 0#w := by
  have hpow : 2 ^ w ≤ 2 ^ 32 := Nat.pow_le_pow_right (by decide) hw
  rw [← BitVec.toNat_inj, ← BitVec.toNat_inj, BitVec.toNat_setWidth,
    Nat.mod_eq_of_lt (b.isLt.trans_le hpow)]
  simp

lemma fatDetectChecked_of_sound (hle : s.dataSectionLba ≤ s.totalSectors)
    (hne : s.bootSector.sectorsPerCluster ≠ 0#8) : fatDetectChecked s = some (fatDetect s) := by
  rw [fatDetectChecked, subChecked_of_le hle, Option.bind_eq_bind, Option.bind_some,
    divChecked_of_ne (mt (setWidth_eq_zero_iff (by decide)).mp hne)]
  rfl

/-- The layout of a FAT32 volume takes two from the number of the root cluster. -/
lemma fatLayoutChecked_fat32 (h : s.bootSector.sectorsPerFat = 0#16) :
    fatLayoutChecked s =
      if 2#32 ≤ s.bootSector.ebr32RootDirectoryCluster then some (fatLayout s) else none := by
  by_cases hle : 2#32 ≤ s.bootSector.ebr32RootDirectoryCluster
  · simp [fatLayoutChecked, fatLayout, h, hle, fatClusterToLbaChecked, fatClusterToLba,
      subChecked_of_le hle]
  · simp [fatLayoutChecked, h, hle, fatClusterToLbaChecked, subChecked_of_not_le hle]

/-- The layout of another volume divides by the size of a sector. -/
lemma fatLayoutChecked_fat16 (h : s.bootSector.sectorsPerFat ≠ 0#16) :
    fatLayoutChecked s =
      if s.bootSector.bytesPerSector ≠ 0#16 then some (fatLayout s) else none := by
  by_cases hne : s.bootSector.bytesPerSector ≠ 0#16
  · have hpos : 1#32 ≤ 32#32 * s.bootSector.dirEntryCount.setWidth 32 +
        s.bootSector.bytesPerSector.setWidth 32 := by
      have hbytes : s.bootSector.bytesPerSector.toNat ≠ 0 :=
        fun h0 => hne (BitVec.eq_of_toNat_eq h0)
      have hcount := s.bootSector.dirEntryCount.isLt
      have hsize := s.bootSector.bytesPerSector.isLt
      rw [BitVec.le_def, BitVec.toNat_add, BitVec.toNat_mul, BitVec.toNat_setWidth,
        BitVec.toNat_setWidth, BitVec.toNat_ofNat, BitVec.toNat_ofNat]
      omega
    rw [if_pos hne]
    simp [fatLayoutChecked, fatLayout, h, subChecked_of_le hpos,
      divChecked_of_ne (mt (setWidth_eq_zero_iff (by decide)).mp hne)]
  · rw [if_neg hne]
    rw [not_not] at hne
    simp [fatLayoutChecked, h, hne, divChecked_zero]

/-- The layout is calculated for a FAT32 volume with a root cluster, and for another volume with
sectors of some size. -/
lemma fatLayoutChecked_of_sound (hroot : s.bootSector.sectorsPerFat = 0#16 →
    2#32 ≤ s.bootSector.ebr32RootDirectoryCluster) (hbytes : s.bootSector.bytesPerSector ≠ 0#16) :
    fatLayoutChecked s = some (fatLayout s) := by
  by_cases h : s.bootSector.sectorsPerFat = 0#16
  · rw [fatLayoutChecked_fat32 h, if_pos (hroot h)]
  · rw [fatLayoutChecked_fat16 h, if_pos hbytes]

/-- What is calculated with the checks is what is calculated without them. -/
lemma fatLayout_of_checked {t : FatState} (h : fatLayoutChecked s = some t) :
    t = fatLayout s ∧ (s.bootSector.sectorsPerFat = 0#16 →
      2#32 ≤ s.bootSector.ebr32RootDirectoryCluster) := by
  by_cases hsize : s.bootSector.sectorsPerFat = 0#16
  · rw [fatLayoutChecked_fat32 hsize] at h
    split_ifs at h with hroot
    exact ⟨(Option.some.inj h).symm, fun _ => hroot⟩
  · rw [fatLayoutChecked_fat16 hsize] at h
    split_ifs at h
    exact ⟨(Option.some.inj h).symm, fun heq => absurd heq hsize⟩

end checked

/-- `FAT_Initialize` from a boot sector and a root directory that can be read. -/
lemma fatInitialize_of_readable {disk : Partition} {g : FatState}
    (hread : ∀ h lba n, disk.fails h lba n = false)
    (hbytes : ¬(disk.bootSector.sectorsPerFat ≠ 0#16 ∧ disk.bootSector.bytesPerSector = 0#16))
    (hcluster : disk.bootSector.sectorsPerCluster ≠ 0#8) :
    fatInitialize disk g = (some true, readyState disk g) := by
  rw [← bootSector_bootedState disk g] at hbytes
  rw [fatInitialize, fatReadBootSector_of_not_fails (hread _ _ _)]
  dsimp only
  rw [if_neg hbytes, fatReadBuffer_of_not_fails (hread _ _ _)]
  exact if_neg hcluster

/-- The checked `FAT_Initialize` on a volume that can be read. -/
lemma fatInitializeChecked_of_readable {disk : Partition} {g : FatState}
    (hread : ∀ h lba n, disk.fails h lba n = false) :
    fatInitializeChecked disk g = (fatLayoutChecked (bootedState disk g)).bind fun s =>
      (fatReadBuffer disk .root s.rootDirectory.firstCluster s).2 |> fun s =>
        (fatDetectChecked s).bind fun t => some (true,
          { t with openedFiles := fun i => { s.openedFiles i with opened := false } }) := by
  rw [fatInitializeChecked, fatReadBootSector_of_not_fails (hread _ _ _)]
  dsimp only
  rw [Option.bind_eq_bind]
  congr 1
  funext s
  rw [fatReadBuffer_of_not_fails (hread _ _ _)]

/-- **When the layout arithmetic is sound**: on a volume whose reads succeed no division is by zero
and no subtraction wraps, and `FAT_Initialize` returns true with a layout to work with, if and only
if there are sectors to a cluster, bytes to a sector, no more sectors in front of the data than in
all, and on a FAT32 volume a root cluster of at least two. -/
theorem soundLayout_iff {disk : Partition} (hread : ∀ h lba n, disk.fails h lba n = false)
    (g : FatState) :
    SoundLayout disk g ↔ disk.bootSector.sectorsPerCluster ≠ 0#8 ∧
      disk.bootSector.bytesPerSector ≠ 0#16 ∧
      disk.bootSector.dataLba ≤ disk.bootSector.totalSectorCount ∧
      (disk.bootSector.sectorsPerFat = 0#16 →
        2#32 ≤ disk.bootSector.ebr32RootDirectoryCluster) := by
  constructor
  · rintro ⟨result, s, hchecked, hplain, hsound⟩
    rw [fatInitializeChecked_of_readable hread] at hchecked
    obtain ⟨t, ht, hchecked⟩ := Option.bind_eq_some_iff.mp hchecked
    obtain ⟨u, hu, hresult⟩ := Option.bind_eq_some_iff.mp hchecked
    obtain ⟨rfl, hroot⟩ := fatLayout_of_checked ht
    obtain rfl : result = true := (Prod.mk.inj (Option.some.inj hresult)).1.symm
    obtain ⟨-, rfl⟩ := fatInitialize_eq_ready hplain
    obtain ⟨hcluster, hbytes, hdata⟩ := hsound rfl
    rw [dataSectionLba_readyState, totalSectors_readyState] at hdata
    rw [bootSector_readyState] at hcluster hbytes
    refine ⟨?_, ?_, hdata, hroot⟩
    · intro h0
      rw [h0] at hcluster
      exact absurd hcluster (by decide)
    · intro h0
      rw [h0] at hbytes
      exact absurd hbytes (by decide)
  · rintro ⟨hcluster, hbytes, hdata, hroot⟩
    have hlayout : fatLayoutChecked (bootedState disk g) = some (fatLayout (bootedState disk g)) :=
      fatLayoutChecked_of_sound hroot hbytes
    have hdetect : fatDetectChecked (detectState disk g) =
        some (fatDetect (detectState disk g)) := by
      refine fatDetectChecked_of_sound ?_ hcluster
      exact (dataSectionLba_fatLayout (bootedState disk g)).trans_le hdata
    refine ⟨true, readyState disk g, ?_, fatInitialize_of_readable hread (fun h => hbytes h.2)
      hcluster, fun _ => ⟨?_, ?_, ?_⟩⟩
    · rw [fatInitializeChecked_of_readable hread, hlayout, Option.bind_some,
        fatReadBuffer_of_not_fails (hread _ _ _)]
      exact congrArg (Option.bind · _) hdetect
    · exact Nat.pos_of_ne_zero fun h0 => hcluster (BitVec.eq_of_toNat_eq h0)
    · exact Nat.pos_of_ne_zero fun h0 => hbytes (BitVec.eq_of_toNat_eq h0)
    · rw [dataSectionLba_readyState, totalSectors_readyState]
      exact hdata

/-- A volume of zeros, as other file systems have them in front. -/
def zeroDisk : Partition := ⟨fun _ _ => 0#8, fun _ _ _ => false⟩

/-- On a volume of zeros `FAT_Initialize` divides by zero. -/
theorem not_soundLayout_zeroDisk :
    (∀ h lba n, zeroDisk.fails h lba n = false) ∧
      (fatInitialize zeroDisk blankState).1 = none ∧ ¬SoundLayout zeroDisk blankState := by
  refine ⟨fun _ _ _ => rfl, by decide +kernel, ?_⟩
  rintro ⟨result, s, -, hplain, -⟩
  have hnone : (fatInitialize zeroDisk blankState).1 = none := by decide +kernel
  rw [hplain] at hnone
  cases hnone

/-- The boot sector of a floppy with 2880 sectors. -/
def floppyDisk : Partition :=
  { Partition.image 2880 [(0, 11, [0x00#8, 0x02#8, 0x01#8, 0x01#8, 0x00#8, 0x02#8, 0xE0#8, 0x00#8,
      0x40#8, 0x0B#8, 0xF0#8, 0x09#8, 0x00#8])] with
    fails := fun _ _ _ => false }

/-- On a floppy the arithmetic is sound. -/
theorem soundLayout_floppyDisk : SoundLayout floppyDisk blankState :=
  (soundLayout_iff (fun _ _ _ => rfl) blankState).mpr (by decide +kernel)

end MiqOSoft
