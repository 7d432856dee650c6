import MiqOSoft.Boot.FatSteps

/-!
Lookups in the FAT, through a window of five of its sectors.

* `FatType.entry`, `diskEntry`: what the FAT on disk holds for a cluster, in three formats.
* `CacheHolds`: the cache holds the sectors of the FAT from `FatCachePosition` on.
* `CacheValid`: it is empty or holds them, unless they cannot be read.  Every lookup keeps this
  (`cacheValid_next`).
* `Misread`: the entry of a cluster in FAT12 runs over the end of the window, and the byte that
  follows the cache makes a difference.
* `fatNextCluster_value_iff`: what a lookup returns through a cache that holds its sectors.
* `fatNextCluster_iff`: after any lookups, a lookup returns what the disk holds exactly if it is
  not misread.
-/

namespace MiqOSoft

open Machine

/-! ### The FAT on disk -/

namespace FatType

/-- The offset of the entry of cluster `c` in the FAT. -/
def offset : FatType → ℕ → ℕ
  | fat12, c => c * 3 / 2
  | fat16, c => c * 2
  | fat32, c => c * 4

/-- The bytes that an entry has a part in. -/
def width : FatType → ℕ
  | fat12 => 2
  | fat16 => 2
  | fat32 => 4

/-- The entry of cluster `c`, of which `b` are the bytes: 12 bits packed, 16 bits or 32 bits,
the low byte first. -/
def entry (t : FatType) (c : ℕ) (b : ℕ → Byte) : ℕ :=
  match t with
  | fat12 =>
      if c % 2 = 0 then ((b 0).toNat + 256 * (b 1).toNat) % 4096
      else ((b 0).toNat + 256 * (b 1).toNat) / 16
  | fat16 => (b 0).toNat + 256 * (b 1).toNat
  | fat32 =>
      (b 0).toNat + 256 * (b 1).toNat + 65536 * (b 2).toNat + 16777216 * (b 3).toNat

/-- The driver's extension of the end markers to 32 bits. -/
def extend : FatType → ℕ → ℕ
  | fat12, v => if 0xFF8 ≤ v then 0xFFFFF000 + v else v
  | fat16, v => if 0xFFF8 ≤ v then 0xFFFF0000 + v else v
  | fat32, v => v

lemma entry_lt_of_fat12 (c : ℕ) (b : ℕ → Byte) : entry fat12 c b < 4096 := by
  have h0 := (b 0).isLt
  have h1 := (b 1).isLt
  simp only [entry]
  split <;> omega

/-- The extension loses nothing of an entry of 12 bits. -/
lemma extend_injOn {v w : ℕ} (hv : v < 4096) (hw : w < 4096)
    (h : extend fat12 v = extend fat12 w) : v = w := by
  simp only [extend] at h
  split_ifs at h <;> omega

end FatType

/-- Byte `k` of the FAT. -/
def fatByte (disk : Partition) (s : FatState) (k : ℕ) : Byte :=
  disk.bytesAt (s.bootSector.reservedSectors.setWidth 32) k

/-- What the FAT on disk holds for cluster `c`, with the end markers extended. -/
def diskEntry (disk : Partition) (s : FatState) (c : ℕ) : ℕ :=
  s.fatType.extend (s.fatType.entry c fun k => fatByte disk s (s.fatType.offset c + k))

/-- The entry of cluster `c` lies inside the FAT. -/
def InsideFat (s : FatState) (c : ℕ) : Prop :=
  s.fatType.offset c + s.fatType.width ≤ s.sectorsPerFat.toNat * 512

instance (s : FatState) (c : ℕ) : Decidable (InsideFat s c) := inferInstanceAs (Decidable (_ ≤ _))

/-- The reads of five sectors that `FAT_ReadFat` makes from inside the FAT succeed. -/
def FatReadable (disk : Partition) (s : FatState) : Prop :=
  ∀ h (k : Word), k < s.sectorsPerFat →
    disk.fails h (s.bootSector.reservedSectors.setWidth 32 + k) FAT_CACHE_SIZE = false

/-- The read of five sectors of the FAT from `position` on succeeds. -/
def WindowReadable (disk : Partition) (s : FatState) (position : Word) : Prop :=
  ∀ h, disk.fails h (s.bootSector.reservedSectors.setWidth 32 + position) FAT_CACHE_SIZE = false

lemma FatReadable.window {disk : Partition} {s : FatState} (h : FatReadable disk s)
    {position : Word} (hin : position < s.sectorsPerFat) : WindowReadable disk s position :=
  fun history => h history position hin

/-- An image that is long enough behind its FAT. -/
lemma fatReadable_image {size : ℕ} {pieces : List (ℕ × ℕ × List Byte)} {s : FatState}
    (h : s.bootSector.reservedSectors.toNat + s.sectorsPerFat.toNat + 4 ≤ size) :
    FatReadable (Partition.image size pieces) s := by
  intro _ k hk
  have hreserved := s.bootSector.reservedSectors.isLt
  have hsum : (s.bootSector.reservedSectors.setWidth 32 + k).toNat
      ≤ s.bootSector.reservedSectors.toNat + k.toNat := by
    rw [BitVec.toNat_add, BitVec.toNat_setWidth]
    omega
  have hlt := BitVec.lt_def.mp hk
  have hsize : FAT_CACHE_SIZE = 5 := rfl
  refine decide_eq_false (not_lt.mpr ?_)
  omega

/-- Setting the bits of `m` in a number below them is an addition. -/
lemma toNat_or_of_le {i a v : ℕ} {x m bound : Word} (hx : x.toNat = v) (hv : v < 2 ^ i)
    (hm : m.toNat = 2 ^ i * a) :
    (if bound ≤ x then x ||| m else x).toNat = if bound.toNat ≤ v then m.toNat + v else v := by
  simp only [BitVec.le_def, hx]
  split_ifs
  · rw [BitVec.toNat_or, hx, hm, Nat.or_comm, ← Nat.two_pow_add_eq_or_of_lt hv]
  · exact hx

/-- **The decoding of `FAT_NextCluster`** is the format of the FAT. -/
theorem toNat_fatEntryValue (t : FatType) (c : Word) (b : ℕ → Byte) :
    (fatEntryValue t c b).toNat = t.extend (t.entry c.toNat b) := by
  have h0 := (b 0).isLt
  have h1 := (b 1).isLt
  have hhalf : ((halfAt b 0).setWidth 32).toNat = (b 0).toNat + 256 * (b 1).toNat := by
    rw [BitVec.toNat_setWidth, toNat_halfAt]
    exact Nat.mod_eq_of_lt (by omega)
  cases t with
  | fat12 =>
      have hparity : c % 2#32 = 0#32 ↔ c.toNat % 2 = 0 := by
        rw [← BitVec.toNat_inj, BitVec.toNat_umod]
        rfl
      have hvalue : (if c % 2#32 = 0#32 then (halfAt b 0).setWidth 32 &&& 0x0FFF#32
          else (halfAt b 0).setWidth 32 >>> 4).toNat = FatType.entry .fat12 c.toNat b := by
        simp only [FatType.entry, hparity]
        split
        · rw [BitVec.toNat_and, hhalf]
          exact Nat.and_two_pow_sub_one_eq_mod _ 12
        · rw [BitVec.toNat_ushiftRight, hhalf, Nat.shiftRight_eq_div_pow]
      have hlt := FatType.entry_lt_of_fat12 c.toNat b
      exact toNat_or_of_le (i := 12) (a := 0xFFFFF) hvalue hlt rfl
  | fat16 =>
      have hlt : (b 0).toNat + 256 * (b 1).toNat < 2 ^ 16 := by omega
      exact toNat_or_of_le (i := 16) (a := 0xFFFF) hhalf hlt rfl
  | fat32 => exact toNat_wordAt b 0

/-! ### The window -/

lemma bytesAt_add (disk : Partition) (lba sector : Word) (k : ℕ) :
    disk.bytesAt (lba + sector) k = disk.bytesAt lba (sector.toNat * 512 + k) := by
  have hdiv : (sector.toNat * 512 + k) / 512 = sector.toNat + k / 512 := by omega
  have hmod : (sector.toNat * 512 + k) % 512 = k % 512 := by omega
  rw [Partition.bytesAt, Partition.bytesAt, hdiv, hmod, BitVec.ofNat_add, BitVec.ofNat_toNat,
    BitVec.setWidth_eq, BitVec.add_assoc]

/-- The sector is one of the five that the cache holds. -/
def InWindow (position sector : Word) : Prop :=
  position.toNat ≤ sector.toNat ∧ sector.toNat < position.toNat + 5

instance (position sector : Word) : Decidable (InWindow position sector) :=
  inferInstanceAs (Decidable (_ ∧ _))

/-- The cache is empty, or holds the sectors of the FAT from `FatCachePosition` on, unless they
cannot be read. -/
def CacheValid (disk : Partition) (s : FatState) : Prop :=
  s.fatCachePosition = 0xFFFFFFFF#32 ∨
    s.fatCachePosition.toNat < 2 ^ 23 ∧ (WindowReadable disk s s.fatCachePosition →
      ∀ k < 2560, s.fatCache k = fatByte disk s (s.fatCachePosition.toNat * 512 + k))

/-- The cache holds the sectors of the FAT from `FatCachePosition` on. -/
def CacheHolds (disk : Partition) (s : FatState) : Prop :=
  ∀ k < 2560, s.fatCache k = fatByte disk s (s.fatCachePosition.toNat * 512 + k)

section

variable {disk : Partition} {s : FatState} {sector c : Word}

/-- A lookup changes the cache, its position and the traces. -/
lemma fatLoadCache_eq (disk : Partition) (sector : Word) (s : FatState) :
    ∃ cache position requests, fatLoadCache disk sector s
      = { s with fatCache := cache, fatCachePosition := position, requests } := by
  rw [fatLoadCache]
  split_ifs
  · obtain ⟨cache, requests, heq⟩ := fatReadFat_eq disk sector s
    exact ⟨cache, sector, requests, by rw [heq]⟩
  · exact ⟨s.fatCache, s.fatCachePosition, s.requests, rfl⟩

@[simp] lemma bootSector_fatLoadCache : (fatLoadCache disk sector s).bootSector = s.bootSector := by
  obtain ⟨_, _, _, heq⟩ := fatLoadCache_eq disk sector s
  rw [heq]

@[simp] lemma fatType_fatLoadCache : (fatLoadCache disk sector s).fatType = s.fatType := by
  obtain ⟨_, _, _, heq⟩ := fatLoadCache_eq disk sector s
  rw [heq]

@[simp] lemma sectorsPerFat_fatLoadCache :
    (fatLoadCache disk sector s).sectorsPerFat = s.sectorsPerFat := by
  obtain ⟨_, _, _, heq⟩ := fatLoadCache_eq disk sector s
  rw [heq]

lemma fatByte_congr {s' : FatState} (h : s'.bootSector = s.bootSector) :
    fatByte disk s' = fatByte disk s := by
  funext k
  rw [fatByte, fatByte, h]

/-- The comparison of `FAT_NextCluster` finds out whether the window holds the sector. -/
lemma inWindow_iff (hvalid : CacheValid disk s) (hsector : sector.toNat < 2 ^ 23) :
    InWindow s.fatCachePosition sector ↔
      ¬(sector < s.fatCachePosition ∨
        s.fatCachePosition + BitVec.ofNat 32 FAT_CACHE_SIZE ≤ sector) := by
  have hsize : (s.fatCachePosition + BitVec.ofNat 32 FAT_CACHE_SIZE).toNat
      = (s.fatCachePosition.toNat + 5) % 2 ^ 32 := rfl
  rw [InWindow, BitVec.lt_def, BitVec.le_def, hsize]
  rcases hvalid with hpos | ⟨hpos, -⟩
  · rw [hpos]
    change 4294967295 ≤ _ ∧ _ ↔ ¬(_ < 4294967295 ∨ _)
    omega
  · omega

lemma fatLoadCache_of_inWindow (hvalid : CacheValid disk s) (hsector : sector.toNat < 2 ^ 23)
    (hwindow : InWindow s.fatCachePosition sector) : fatLoadCache disk sector s = s :=
  if_neg ((inWindow_iff hvalid hsector).mp hwindow)

lemma fatLoadCache_of_not_inWindow (hvalid : CacheValid disk s) (hsector : sector.toNat < 2 ^ 23)
    (hwindow : ¬InWindow s.fatCachePosition sector) :
    fatLoadCache disk sector s
      = { (fatReadFat disk sector s).2 with fatCachePosition := sector } :=
  if_pos (not_not.mp (mt (inWindow_iff hvalid hsector).mpr hwindow))

/-- After the check the window holds the sector. -/
lemma inWindow_fatLoadCache (hvalid : CacheValid disk s) (hsector : sector.toNat < 2 ^ 23) :
    InWindow (fatLoadCache disk sector s).fatCachePosition sector := by
  by_cases hwindow : InWindow s.fatCachePosition sector
  · rwa [fatLoadCache_of_inWindow hvalid hsector hwindow]
  · rw [fatLoadCache_of_not_inWindow hvalid hsector hwindow]
    exact ⟨le_rfl, Nat.lt_add_of_pos_right (by omega)⟩

lemma windowReadable_congr {s' : FatState} (h : s'.bootSector = s.bootSector) (position : Word) :
    WindowReadable disk s' position ↔ WindowReadable disk s position := by
  rw [WindowReadable, WindowReadable, h]

/-- What the cache is valid for is the boot sector and the disk. -/
lemma cacheValid_congr {s' : FatState} (hvalid : CacheValid disk s)
    (hboot : s'.bootSector = s.bootSector) (hcache : s'.fatCache = s.fatCache)
    (hposition : s'.fatCachePosition = s.fatCachePosition) : CacheValid disk s' := by
  rw [CacheValid, windowReadable_congr hboot, hcache, hposition, fatByte_congr hboot]
  exact hvalid

/-- **Loading keeps the cache valid**, and the window is then one that is loaded. -/
theorem cacheValid_load (hvalid : CacheValid disk s) (hsector : sector.toNat < 2 ^ 23) :
    let t := fatLoadCache disk sector s
    t.fatCachePosition.toNat < 2 ^ 23 ∧ (WindowReadable disk t t.fatCachePosition →
      ∀ k < 2560, t.fatCache k = fatByte disk t (t.fatCachePosition.toNat * 512 + k)) := by
  by_cases hwindow : InWindow s.fatCachePosition sector
  · rw [fatLoadCache_of_inWindow hvalid hsector hwindow]
    refine hvalid.resolve_left fun hempty => ?_
    have hlow := hwindow.1
    rw [hempty] at hlow
    change 4294967295 ≤ _ at hlow
    omega
  · have heq := fatLoadCache_of_not_inWindow hvalid hsector hwindow
    refine ⟨by rwa [heq], fun hreadable k hk => ?_⟩
    rw [windowReadable_congr bootSector_fatLoadCache] at hreadable
    rw [fatByte_congr bootSector_fatLoadCache]
    rw [heq] at hreadable ⊢
    rw [fatReadFat_of_not_fails (hreadable _)]
    exact bytesAt_add disk _ sector k

/-- Byte `k` of the FAT through the window at `position`, behind which `FatCachePosition`
lies. -/
def windowByte (disk : Partition) (s : FatState) (position : Word) (k : ℕ) : Byte :=
  if k < position.toNat * 512 + 2560 then fatByte disk s k
  else wordByte position (k - (position.toNat * 512 + 2560))

lemma toNat_sectorOf (index : Word) : (index / SECTOR_SIZE).toNat = index.toNat / 512 := by
  rw [BitVec.toNat_udiv]
  rfl

lemma cacheByte_fatLoadCache (hvalid : CacheValid disk s) {index : Word}
    (hholds : CacheHolds disk (fatLoadCache disk (index / SECTOR_SIZE) s)) (k : ℕ) :
    let t := fatLoadCache disk (index / SECTOR_SIZE) s
    t.cacheByte ((index - t.fatCachePosition * SECTOR_SIZE).toNat + k)
      = windowByte disk s t.fatCachePosition (index.toNat + k) := by
  intro t
  have hindex := index.isLt
  have hsector : (index / SECTOR_SIZE).toNat < 2 ^ 23 := by
    rw [toNat_sectorOf]
    omega
  obtain ⟨hlow, hhigh⟩ : InWindow t.fatCachePosition (index / SECTOR_SIZE) :=
    inWindow_fatLoadCache hvalid hsector
  rw [toNat_sectorOf] at hlow hhigh
  have hstart : (t.fatCachePosition * SECTOR_SIZE).toNat = t.fatCachePosition.toNat * 512 := by
    rw [BitVec.toNat_mul]
    exact Nat.mod_eq_of_lt (by change _ * 512 < _; omega)
  have hoffset : (index - t.fatCachePosition * SECTOR_SIZE).toNat
      = index.toNat - t.fatCachePosition.toNat * 512 := by
    rw [BitVec.toNat_sub_of_le (by rw [BitVec.le_def, hstart]; omega), hstart]
  have hsize : FAT_CACHE_SIZE * 512 = 2560 := rfl
  rw [FatState.cacheByte, windowByte, hoffset, hsize]
  have hle : t.fatCachePosition.toNat * 512 ≤ index.toNat := by omega
  generalize hk : index.toNat - t.fatCachePosition.toNat * 512 + k = o
  by_cases hcache : o < 2560
  · have hwindow : index.toNat + k < t.fatCachePosition.toNat * 512 + 2560 := by omega
    rw [if_pos hcache, if_pos hwindow, hholds o hcache, fatByte_congr bootSector_fatLoadCache]
    have hbyte : t.fatCachePosition.toNat * 512 + o = index.toNat + k := by
      rw [← hk, ← Nat.add_assoc, Nat.add_sub_cancel' hle]
    rw [hbyte]
  · have hwindow : ¬index.toNat + k < t.fatCachePosition.toNat * 512 + 2560 := by omega
    rw [if_neg hcache, if_neg hwindow]
    have hbyte : o - 2560 = index.toNat + k - (t.fatCachePosition.toNat * 512 + 2560) := by
      omega
    rw [hbyte]

/-- The position of the window after a lookup. -/
lemma fatCachePosition_next : (fatNextCluster disk c s).2.fatCachePosition
    = (fatLoadCache disk (fatIndex s.fatType c / SECTOR_SIZE) s).fatCachePosition :=
  rfl

/-- A lookup decodes what it sees through the window. -/
lemma toNat_fatNextCluster (hvalid : CacheValid disk s)
    (hholds : CacheHolds disk (fatNextCluster disk c s).2) :
    (fatNextCluster disk c s).1.toNat
      = s.fatType.extend (s.fatType.entry c.toNat fun k =>
          windowByte disk s (fatNextCluster disk c s).2.fatCachePosition
            ((fatIndex s.fatType c).toNat + k)) := by
  rw [fatNextCluster, toNat_fatEntryValue, fatType_fatLoadCache]
  refine congrArg (fun b => s.fatType.extend (s.fatType.entry c.toNat b)) ?_
  exact funext fun k => cacheByte_fatLoadCache hvalid hholds k

/-- A window that can be read is held after the lookup that it serves. -/
lemma cacheHolds_next (hvalid : CacheValid disk s)
    (hreadable : WindowReadable disk s (fatNextCluster disk c s).2.fatCachePosition) :
    CacheHolds disk (fatNextCluster disk c s).2 := by
  have hindex := (fatIndex s.fatType c).isLt
  have hsector : (fatIndex s.fatType c / SECTOR_SIZE).toNat < 2 ^ 23 := by
    rw [toNat_sectorOf]
    omega
  have hload := cacheValid_load hvalid hsector
  exact hload.2 ((windowReadable_congr bootSector_fatLoadCache _).mpr hreadable)

/-- The window after a lookup holds the first byte of the entry. -/
lemma inWindow_next (hvalid : CacheValid disk s) :
    InWindow (fatNextCluster disk c s).2.fatCachePosition
      (fatIndex s.fatType c / SECTOR_SIZE) := by
  have hindex := (fatIndex s.fatType c).isLt
  refine inWindow_fatLoadCache hvalid ?_
  rw [toNat_sectorOf]
  omega

end

/-! ### Entries over the end of the window -/

/-- The entry of cluster `c` runs over the end of the window at `position`, and the low byte of
`FatCachePosition`, which is read in the place of its second byte, differs from it in the half
byte or byte that counts.  Only the entries of FAT12 can lie like that. -/
def Overruns (disk : Partition) (s : FatState) (position c : Word) : Prop :=
  s.fatType = .fat12 ∧ (fatIndex s.fatType c).toNat = position.toNat * 512 + 2559 ∧
    if c.toNat % 2 = 0 then
      (fatByte disk s ((fatIndex s.fatType c).toNat + 1)).toNat % 16 ≠ position.toNat % 16
    else (fatByte disk s ((fatIndex s.fatType c).toNat + 1)).toNat ≠ position.toNat % 256

section

variable {disk : Partition} {s : FatState} {c : Word}

lemma FatType.entry_congr {t : FatType} {c : ℕ} {b b' : ℕ → Byte}
    (h : ∀ k < t.width, b k = b' k) : t.entry c b = t.entry c b' := by
  have h0 : b 0 = b' 0 := h 0 (by cases t <;> decide)
  have h1 : b 1 = b' 1 := h 1 (by cases t <;> decide)
  cases t with
  | fat12 => simp only [entry, h0, h1]
  | fat16 => simp only [entry, h0, h1]
  | fat32 =>
      have h2 : b 2 = b' 2 := h 2 (by decide)
      have h3 : b 3 = b' 3 := h 3 (by decide)
      simp only [entry, h0, h1, h2, h3]

/-- In FAT12 the low byte of `position` serves as the second byte of an entry exactly if it
agrees in what counts. -/
lemma FatType.entry_fat12_eq_iff (c : ℕ) {b b' : ℕ → Byte} (h0 : b 0 = b' 0) :
    fat12.extend (fat12.entry c b) = fat12.extend (fat12.entry c b') ↔
      if c % 2 = 0 then (b' 1).toNat % 16 = (b 1).toNat % 16 else (b' 1).toNat = (b 1).toNat := by
  have hb := (b' 0).isLt
  have hentry : fat12.extend (fat12.entry c b) = fat12.extend (fat12.entry c b') ↔
      fat12.entry c b = fat12.entry c b' :=
    ⟨extend_injOn (entry_lt_of_fat12 c b) (entry_lt_of_fat12 c b'), congrArg _⟩
  rw [hentry]
  simp only [entry, h0]
  split_ifs <;> omega

lemma toNat_wordByte_zero (w : Word) : (wordByte w 0).toNat = w.toNat % 256 := by
  rw [wordByte, BitVec.extractLsb'_toNat]
  rfl

/-- The offset of an entry is a multiple of what keeps FAT16 and FAT32 entries inside a
sector. -/
lemma fatIndex_mod (t : FatType) (c : Word) :
    (t = .fat16 → (fatIndex t c).toNat % 2 = 0) ∧ (t = .fat32 → (fatIndex t c).toNat % 4 = 0) := by
  constructor
  · rintro rfl
    rw [fatIndex, BitVec.toNat_mul]
    change c.toNat * 2 % 2 ^ 32 % 2 = 0
    omega
  · rintro rfl
    rw [fatIndex, BitVec.toNat_mul]
    change c.toNat * 4 % 2 ^ 32 % 4 = 0
    omega

/-- **What a lookup returns**, inside of the FAT or not: what the disk holds at the offset of the
entry, exactly if the entry does not run over the end of the window. -/
theorem fatNextCluster_value_iff (hvalid : CacheValid disk s)
    (hholds : CacheHolds disk (fatNextCluster disk c s).2) :
    (fatNextCluster disk c s).1.toNat
        = s.fatType.extend (s.fatType.entry c.toNat fun k =>
            fatByte disk s ((fatIndex s.fatType c).toNat + k)) ↔
      ¬Overruns disk s (fatNextCluster disk c s).2.fatCachePosition c := by
  obtain ⟨hlow, hhigh⟩ : InWindow (fatNextCluster disk c s).2.fatCachePosition
    (fatIndex s.fatType c / SECTOR_SIZE) := inWindow_next hvalid
  have hmod := fatIndex_mod s.fatType c
  rw [toNat_sectorOf] at hlow hhigh
  rw [toNat_fatNextCluster hvalid hholds, Overruns]
  generalize (fatNextCluster disk c s).2.fatCachePosition = position at *
  generalize (fatIndex s.fatType c).toNat = index at *
  by_cases hend : s.fatType = .fat12 ∧ index = position.toNat * 512 + 2559
  · obtain ⟨htype, hend⟩ := hend
    have hlast : windowByte disk s position (index + 1) = wordByte position 0 := by
      rw [windowByte, if_neg (by omega)]
      exact congrArg (wordByte position) (by omega)
    have hfirst : windowByte disk s position (index + 0) = fatByte disk s (index + 0) := by
      rw [windowByte, if_pos (by omega)]
    rw [htype, FatType.entry_fat12_eq_iff c.toNat hfirst, hlast, toNat_wordByte_zero]
    simp only [hend, true_and]
    split_ifs <;> rw [not_not]
    omega
  · refine iff_of_true ?_ fun h => hend ⟨h.1, h.2.1⟩
    refine congrArg s.fatType.extend (FatType.entry_congr fun k hk => ?_)
    have hinside : index + s.fatType.width ≤ position.toNat * 512 + 2560 := by
      cases ht : s.fatType with
      | fat12 =>
          have hne : index ≠ position.toNat * 512 + 2559 := fun h => hend ⟨ht, h⟩
          change index + 2 ≤ _
          omega
      | fat16 =>
          have := hmod.1 ht
          change index + 2 ≤ _
          omega
      | fat32 =>
          have := hmod.2 ht
          change index + 4 ≤ _
          omega
    rw [windowByte, if_pos (by omega)]

/-- A window that ends in front of the last byte of an entry has not moved for it. -/
lemma crosses_next_iff (hvalid : CacheValid disk s) :
    (fatIndex s.fatType c).toNat
        = (fatNextCluster disk c s).2.fatCachePosition.toNat * 512 + 2559 ↔
      (fatIndex s.fatType c).toNat = s.fatCachePosition.toNat * 512 + 2559 := by
  have hindex := (fatIndex s.fatType c).isLt
  have hsector : (fatIndex s.fatType c / SECTOR_SIZE).toNat < 2 ^ 23 := by
    rw [toNat_sectorOf]
    omega
  by_cases hwindow : InWindow s.fatCachePosition (fatIndex s.fatType c / SECTOR_SIZE)
  · rw [fatCachePosition_next, fatLoadCache_of_inWindow hvalid hsector hwindow]
  · rw [fatCachePosition_next, fatLoadCache_of_not_inWindow hvalid hsector hwindow, toNat_sectorOf]
    rw [InWindow, toNat_sectorOf] at hwindow
    omega

/-- It makes no difference whether the window is looked at before or after the lookup. -/
lemma overruns_next_iff (hvalid : CacheValid disk s) :
    Overruns disk s (fatNextCluster disk c s).2.fatCachePosition c ↔
      Overruns disk s s.fatCachePosition c := by
  have hcross := crosses_next_iff (c := c) hvalid
  rw [Overruns, Overruns]
  by_cases hend : (fatIndex s.fatType c).toNat = s.fatCachePosition.toNat * 512 + 2559
  · have hnext := hcross.mpr hend
    have hpos : (fatNextCluster disk c s).2.fatCachePosition.toNat
        = s.fatCachePosition.toNat := by omega
    rw [hpos]
  · exact iff_of_false (fun h => hend (hcross.mp h.2.1)) fun h => hend h.2.1

end

/-! ### Misread entries -/

/-- The layout of a FAT12 or a FAT16 volume: the size of its FAT is a number of 16 bits. -/
def SmallFat (s : FatState) : Prop := s.fatType ≠ .fat32 → s.sectorsPerFat.toNat < 2 ^ 16

/-- The cluster whose entry the driver looks at: for FAT32 the offset of the entry is reduced
modulo `2^32`. -/
def FatType.indexed : FatType → ℕ → ℕ
  | fat12, c => c
  | fat16, c => c
  | fat32, c => c % 2 ^ 30

lemma toNat_fatIndex {s : FatState} (hsmall : SmallFat s) {c : Word} (hc : InsideFat s c.toNat) :
    (fatIndex s.fatType c).toNat = s.fatType.offset (s.fatType.indexed c.toNat) := by
  have hsize := hsmall
  rw [SmallFat] at hsize
  rw [InsideFat] at hc
  cases ht : s.fatType with
  | fat12 =>
      rw [ht] at hc hsize
      have hlt := hsize (by decide)
      simp only [FatType.offset, FatType.width] at hc
      simp only [fatIndex, FatType.offset, FatType.indexed, BitVec.toNat_udiv, BitVec.toNat_mul]
      change c.toNat * 3 % 2 ^ 32 / 2 = _
      rw [Nat.mod_eq_of_lt (by omega)]
  | fat16 =>
      rw [ht] at hc hsize
      have hlt := hsize (by decide)
      simp only [FatType.offset, FatType.width] at hc
      simp only [fatIndex, FatType.offset, FatType.indexed, BitVec.toNat_mul]
      change c.toNat * 2 % 2 ^ 32 = _
      omega
  | fat32 =>
      simp only [fatIndex, FatType.offset, FatType.indexed, BitVec.toNat_mul]
      change c.toNat * 4 % 2 ^ 32 = _
      omega

lemma indexed_inside {s : FatState} {c : ℕ} (hc : InsideFat s c) :
    s.fatType.offset (s.fatType.indexed c) / 512 < s.sectorsPerFat.toNat := by
  rw [InsideFat] at hc
  cases ht : s.fatType <;> rw [ht] at hc <;>
    simp only [FatType.offset, FatType.width, FatType.indexed] at hc ⊢ <;> omega

/-- The entry of cluster `c` is misread through a window that stands at `position` before the
lookup.  In FAT12 this is an entry whose second byte lies behind the window, where the low byte
of `FatCachePosition` is read in its place and differs in the half byte or byte that counts.  In
FAT32 it is an entry from offset `2^32` on, if the entry that is read in its place differs. -/
def Misread (disk : Partition) (s : FatState) (position : Word) (c : ℕ) : Prop :=
  match s.fatType with
  | .fat12 =>
      c * 3 / 2 = position.toNat * 512 + 2559 ∧
        if c % 2 = 0 then
          (fatByte disk s (c * 3 / 2 + 1)).toNat % 16 ≠ position.toNat % 16
        else (fatByte disk s (c * 3 / 2 + 1)).toNat ≠ position.toNat % 256
  | .fat16 => False
  | .fat32 => diskEntry disk s (c % 2 ^ 30) ≠ diskEntry disk s c

section

variable {disk : Partition} {s : FatState} {c : Word}

/-- The entry of the cluster looked at does not depend on the bits that its index loses. -/
lemma FatType.entry_indexed (t : FatType) (c : ℕ) (b : ℕ → Byte) :
    t.entry (t.indexed c) b = t.entry c b := by
  cases t <;> rfl

/-- The window that serves an entry inside the FAT starts inside the FAT. -/
lemma windowReadable_next (hread : FatReadable disk s) (hvalid : CacheValid disk s)
    (hsmall : SmallFat s) (hc : InsideFat s c.toNat) :
    WindowReadable disk s (fatNextCluster disk c s).2.fatCachePosition := by
  have hinside := indexed_inside hc
  obtain ⟨hlow, -⟩ : InWindow (fatNextCluster disk c s).2.fatCachePosition
    (fatIndex s.fatType c / SECTOR_SIZE) := inWindow_next hvalid
  rw [toNat_sectorOf, toNat_fatIndex hsmall hc] at hlow
  refine hread.window ?_
  rw [BitVec.lt_def]
  omega

/-- Inside the FAT a misread entry is one that runs over the end of the window, or that of
another cluster. -/
lemma misread_iff (hsmall : SmallFat s) (hc : InsideFat s c.toNat) (position : Word) :
    Misread disk s position c.toNat ↔ Overruns disk s position c ∨
      diskEntry disk s (s.fatType.indexed c.toNat) ≠ diskEntry disk s c.toNat := by
  have hindex := toNat_fatIndex hsmall hc
  rw [Misread, Overruns]
  cases ht : s.fatType with
  | fat12 =>
      rw [ht] at hindex
      simp only [FatType.offset, FatType.indexed] at hindex ⊢
      rw [hindex]
      simp
  | fat16 => simp [FatType.indexed]
  | fat32 => simp [FatType.indexed]

/-- **The cached lookup against the disk**, in any state with a valid cache. -/
theorem fatNextCluster_eq_iff (hread : FatReadable disk s) (hvalid : CacheValid disk s)
    (hsmall : SmallFat s) (hc : InsideFat s c.toNat) :
    (fatNextCluster disk c s).1.toNat = diskEntry disk s c.toNat ↔
      ¬Misread disk s s.fatCachePosition c.toNat := by
  have hreadable := windowReadable_next hread hvalid hsmall hc
  have hvalue := fatNextCluster_value_iff hvalid (cacheHolds_next hvalid hreadable)
  have hentry : s.fatType.extend (s.fatType.entry c.toNat fun k =>
      fatByte disk s ((fatIndex s.fatType c).toNat + k))
        = diskEntry disk s (s.fatType.indexed c.toNat) := by
    rw [diskEntry, FatType.entry_indexed, toNat_fatIndex hsmall hc]
  rw [hentry, overruns_next_iff hvalid] at hvalue
  rw [misread_iff hsmall hc, not_or, not_not, ← hvalue]
  by_cases htype : s.fatType = .fat32
  · have hover : ¬Overruns disk s s.fatCachePosition c := fun h => by
      have := htype.symm.trans h.1
      contradiction
    rw [hvalue.mpr hover]
    exact (and_iff_right rfl).symm
  · have hindexed : s.fatType.indexed c.toNat = c.toNat := by
      cases ht : s.fatType with
      | fat12 => rfl
      | fat16 => rfl
      | fat32 => exact absurd ht htype
    rw [hindexed]
    exact (and_iff_left rfl).symm

/-! ### Any sequence of lookups -/

@[simp] lemma bootSector_next : (fatNextCluster disk c s).2.bootSector = s.bootSector :=
  bootSector_fatLoadCache

@[simp] lemma fatType_next : (fatNextCluster disk c s).2.fatType = s.fatType :=
  fatType_fatLoadCache

@[simp] lemma sectorsPerFat_next :
    (fatNextCluster disk c s).2.sectorsPerFat = s.sectorsPerFat :=
  sectorsPerFat_fatLoadCache

/-- What the lookups rest on. -/
structure Serving (disk : Partition) (s : FatState) : Prop where
  readable : FatReadable disk s
  small : SmallFat s
  valid : CacheValid disk s

/-- Every lookup keeps the cache valid, also one outside of the FAT. -/
theorem cacheValid_next (hvalid : CacheValid disk s) (c : Word) :
    CacheValid disk (fatNextCluster disk c s).2 := by
  have hindex := (fatIndex s.fatType c).isLt
  have hsector : (fatIndex s.fatType c / SECTOR_SIZE).toNat < 2 ^ 23 := by
    rw [toNat_sectorOf]
    omega
  have hload : CacheValid disk (fatLoadCache disk (fatIndex s.fatType c / SECTOR_SIZE) s) :=
    .inr (cacheValid_load hvalid hsector)
  exact cacheValid_congr hload rfl rfl rfl

lemma serving_next (h : Serving disk s) (c : Word) : Serving disk (fatNextCluster disk c s).2 := by
  refine ⟨?_, ?_, cacheValid_next h.valid c⟩
  · rw [FatReadable, bootSector_next, sectorsPerFat_next]
    exact h.readable
  · rw [SmallFat, fatType_next, sectorsPerFat_next]
    exact h.small

/-- The state after lookups of the clusters `cs`. -/
def lookupsFrom (disk : Partition) (s : FatState) (cs : List Word) : FatState :=
  cs.foldl (fun s c => (fatNextCluster disk c s).2) s

lemma serving_lookupsFrom (h : Serving disk s) (cs : List Word) :
    Serving disk (lookupsFrom disk s cs) := by
  induction cs generalizing s with
  | nil => exact h
  | cons c cs ih => exact ih (serving_next h c)

lemma lookupsFrom_eq (disk : Partition) (s : FatState) (cs : List Word) :
    (lookupsFrom disk s cs).bootSector = s.bootSector ∧
      (lookupsFrom disk s cs).fatType = s.fatType ∧
        (lookupsFrom disk s cs).sectorsPerFat = s.sectorsPerFat := by
  induction cs generalizing s with
  | nil => exact ⟨rfl, rfl, rfl⟩
  | cons c cs ih =>
      obtain ⟨hboot, htype, hsize⟩ := ih (fatNextCluster disk c s).2
      exact ⟨hboot.trans bootSector_next, htype.trans fatType_next,
        hsize.trans sectorsPerFat_next⟩

lemma diskEntry_congr {s' : FatState} (hboot : s'.bootSector = s.bootSector)
    (htype : s'.fatType = s.fatType) (c : ℕ) : diskEntry disk s' c = diskEntry disk s c := by
  rw [diskEntry, diskEntry, fatByte_congr hboot, htype]

lemma misread_congr {s' : FatState} (hboot : s'.bootSector = s.bootSector)
    (htype : s'.fatType = s.fatType) (position : Word) (c : ℕ) :
    Misread disk s' position c ↔ Misread disk s position c := by
  rw [Misread, Misread, fatByte_congr hboot, htype, diskEntry_congr hboot htype,
    diskEntry_congr hboot htype]

/-- `FAT_Initialize` leaves the cache empty. -/
lemma serving_of_initialized (h : Initialized disk s) (hread : FatReadable disk s)
    (himage : s.fatType = .fat12 → s.bootSector.sectorsPerFat ≠ 0#16) : Serving disk s := by
  refine ⟨hread, fun htype => ?_, .inl h.cache⟩
  have hlayout : s.bootSector.sectorsPerFat ≠ 0#16 := by
    cases ht : s.fatType with
    | fat12 => exact himage ht
    | fat16 => exact h.fat16 ht
    | fat32 => exact absurd ht htype
  have := s.bootSector.sectorsPerFat.isLt
  rw [h.sectorsPerFat, if_neg hlayout, BitVec.toNat_setWidth]
  omega

end

/-- **`FAT_NextCluster` against the FAT on disk**: after any lookups that follow
`FAT_Initialize`, the lookup of a cluster whose entry lies inside the FAT returns the entry of
the disk exactly if it is not misread through the window that the lookups left. -/
theorem fatNextCluster_iff {disk : Partition} {g s : FatState}
    (hinit : fatInitialize disk g = (some true, s)) (hread : FatReadable disk s)
    (himage : s.fatType = .fat12 → s.bootSector.sectorsPerFat ≠ 0#16) (cs : List Word)
    {c : Word} (hc : InsideFat s c.toNat) :
    (fatNextCluster disk c (lookupsFrom disk s cs)).1.toNat = diskEntry disk s c.toNat ↔
      ¬Misread disk s (lookupsFrom disk s cs).fatCachePosition c.toNat := by
  have hserving := serving_lookupsFrom
    (serving_of_initialized (fatInitialize_ready hinit) hread himage) cs
  obtain ⟨hboot, htype, hsize⟩ := lookupsFrom_eq disk s cs
  have hc' : InsideFat (lookupsFrom disk s cs) c.toNat := by
    rw [InsideFat, htype, hsize]
    exact hc
  rw [← diskEntry_congr hboot htype, ← misread_congr hboot htype]
  exact fatNextCluster_eq_iff hserving.readable hserving.valid hserving.small hc'

/-! ### An entry across the end of the window -/

/-- A FAT12 volume with a FAT of nine sectors, of which cluster 1706 is an end marker: its entry
lies in the last byte of the fifth sector and in the first of the sixth. -/
def windowDisk : Partition :=
  Partition.image 64 [
    (0, 11, [0x00#8, 0x02#8, 0x01#8, 0x01#8, 0x00#8, 0x01#8, 0x10#8, 0x00#8, 0x40#8, 0x00#8,
      0xF0#8, 0x09#8, 0x00#8]),
    (5, 511, [0xFF#8]),
    (6, 0, [0x0F#8])]

/-- The state after `FAT_Initialize`. -/
def windowState : FatState := (fatInitialize windowDisk blankState).2

lemma windowDisk_readable : FatReadable windowDisk windowState :=
  fatReadable_image (by decide +kernel)

lemma windowDisk_initialized :
    fatInitialize windowDisk blankState = (some true, windowState) :=
  Prod.ext (by decide +kernel : (fatInitialize windowDisk blankState).1 = some true) rfl

/-- **An end marker that is not seen**: after a lookup of cluster 2, that of cluster 1706 takes
the byte behind the cache for a part of the entry. -/
theorem fatNextCluster_misreads :
    fatInitialize windowDisk blankState = (some true, windowState) ∧
      FatReadable windowDisk windowState ∧ InsideFat windowState 1706 ∧
        (fatNextCluster windowDisk 1706#32 (lookupsFrom windowDisk windowState [2#32])).1
          = 0xFF#32 ∧
          diskEntry windowDisk windowState 1706 = 0xFFFFFFFF :=
  ⟨windowDisk_initialized, windowDisk_readable, by decide +kernel, by decide +kernel,
    by decide +kernel⟩

theorem fatNextCluster_iff_window :
    (fatNextCluster windowDisk 1705#32 (lookupsFrom windowDisk windowState [2#32])).1.toNat
        = diskEntry windowDisk windowState 1705 ↔
      ¬Misread windowDisk windowState (lookupsFrom windowDisk windowState [2#32]).fatCachePosition
        1705 :=
  fatNextCluster_iff (c := 1705#32) windowDisk_initialized windowDisk_readable
    (fun _ => by decide +kernel) [2#32] (by decide +kernel)

end MiqOSoft
